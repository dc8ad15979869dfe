import TypedScript.Proofs.Static.Check
import TypedScript.Value.Operation

namespace TypedScript

def Scalar.ty : Scalar → Ty
  | string _ => .string
  | integer _ => .int
  | float _ => .float
  | boolean _ => .bool

theorem Scalar.ty_ofIntegers {op : BinaryOp} {i j : Int64} {x : Scalar}
    (h : ofIntegers op i j = .ok (some x)) :
    op.isUniversal = false ∧ x.ty = if op.isComparison then .bool else .int := by
  cases op with
  | divide =>
    rw [ofIntegers] at h
    split at h <;> cases h
    exact ⟨rfl, rfl⟩
  | _ => cases h <;> exact ⟨rfl, rfl⟩

theorem Scalar.ty_ofFloats {op : BinaryOp} {a b : Float} {x : Scalar}
    (h : ofFloats op a b = .ok (some x)) :
    op.isUniversal = false ∧ x.ty = if op.isComparison then .bool else .float := by
  cases op with
  | divide =>
    rw [ofFloats] at h
    split at h <;> cases h
    exact ⟨rfl, rfl⟩
  | _ => cases h <;> exact ⟨rfl, rfl⟩

namespace Value

variable {cells : Cells} {l r t : Ty} {v w : Value} {x : Scalar}

theorem ty_unary {op : UnaryOp} (hv : v = .null ∨ v.ty = l) (ht : op.resultTy? l = some t)
    (h : v.unary cells op = .ok x) : x.ty = t := by
  cases op with
  | not =>
    cases h
    exact Option.some.inj ht
  | negate =>
    rw [UnaryOp.resultTy?] at ht
    split at ht <;> cases ht
    cases v with
    | integer c =>
      cases h
      exact hv.resolve_left Value.noConfusion
    | float c =>
      cases h
      exact hv.resolve_left Value.noConfusion
    | _ => cases h

theorem ty_arithmetic {op : BinaryOp} (h : arithmetic cells op v w = .ok (some x)) :
    v ≠ .null ∧ w ≠ .null ∧ (v.ty.isNumeric && w.ty.isNumeric) = true ∧ op.isUniversal = false ∧
      x.ty = if op.isComparison then .bool else if v.ty = .int ∧ w.ty = .int then .int
        else .float := by
  cases v with
  | integer a =>
    cases w with
    | integer b => exact ⟨nofun, nofun, rfl, Scalar.ty_ofIntegers h⟩
    | float b => exact ⟨nofun, nofun, rfl, Scalar.ty_ofFloats h⟩
    | _ => cases h
  | float a =>
    cases w with
    | integer b => exact ⟨nofun, nofun, rfl, Scalar.ty_ofFloats h⟩
    | float b => exact ⟨nofun, nofun, rfl, Scalar.ty_ofFloats h⟩
    | _ => cases h
  | _ => cases h

theorem ty_of_isString (h : v.isString = true) : v.ty = .string ∧ v ≠ .null := by
  cases v with
  | string s => exact ⟨rfl, nofun⟩
  | _ => cases h

theorem ty_binary {op : BinaryOp} (hv : v = .null ∨ v.ty = l) (hw : w = .null ∨ w.ty = r)
    (hn : op.isUniversal = true ∨ l.isNever = false ∧ r.isNever = false)
    (ht : op.resultTy? l r = some t) (h : Value.binary cells op v w = .ok x) : x.ty = t := by
  rw [Value.binary] at h
  split at h
  · rename_i hop
    subst hop
    cases h
    exact Option.some.inj ht
  split at h
  · rename_i hop
    subst hop
    cases h
    exact Option.some.inj ht
  split at h
  · rename_i hplus
    obtain ⟨rfl, hs⟩ := hplus
    cases h
    obtain ⟨hl, hr⟩ := hn.resolve_left Bool.false_ne_true
    have hstring : l = .string ∨ r = .string := by
      obtain hs | hs := hs
      · obtain ⟨hty, hne⟩ := ty_of_isString hs
        exact .inl ((hv.resolve_left hne).symm.trans hty)
      · obtain ⟨hty, hne⟩ := ty_of_isString hs
        exact .inr ((hw.resolve_left hne).symm.trans hty)
    have hu : BinaryOp.plus.isUniversal = false := rfl
    simp only [BinaryOp.resultTy?, hl, hr, hu, hstring, Bool.or_self, Bool.false_eq_true, if_false,
      and_self, if_true] at ht
    exact Option.some.inj ht
  · rename_i hplus
    split at h
    · rename_i y ha
      cases h
      obtain ⟨hv', hw', hnum, hu, hty⟩ := ty_arithmetic ha
      cases hv.resolve_left hv'
      cases hw.resolve_left hw'
      have hstring : ¬(v.ty = .string ∨ w.ty = .string) := by
        rintro (he | he) <;> simp [he, Ty.isNumeric] at hnum
      obtain ⟨hl, hr⟩ := hn.resolve_left (by rw [hu]; exact Bool.false_ne_true)
      simp only [BinaryOp.resultTy?, hl, hr, hu, hstring, hnum, Bool.or_self, Bool.not_true,
        Bool.false_eq_true, if_false, and_false] at ht
      rw [hty]
      split at ht
      · rename_i hc
        rw [if_pos hc]
        exact Option.some.inj ht
      · rename_i hc
        rw [if_neg hc]
        split at ht <;> cases ht
        · rw [if_pos ‹_›]
        · rw [if_neg ‹_›]
    · cases h
    · cases h

end Value

end TypedScript
