import TypedScript.Eval.Operation
import TypedScript.Proofs.Decimal.Nearest
import TypedScript.Proofs.Value.Operator

namespace TypedScript

theorem BinaryOp.isUniversal_of_not_logical {op : BinaryOp} (h : op.isLogical = false) :
    op.isUniversal = true ↔ op = .equals ∨ op = .notEquals := by
  cases op <;> first | decide | cases h

namespace Scalar

theorem ofIntegers_cases {op : BinaryOp} (hop : op.isUniversal = false) (a b : Int64) :
    if op = .divide ∧ b = 0 then ofIntegers op a b = .error .divisionByZero
    else ∃ x, ofIntegers op a b = .ok (some x) := by
  cases op with
  | equals | notEquals | and | or => cases hop
  | divide => by_cases hb : b = 0 <;> simp [ofIntegers, hb]
  | _ => exact ⟨_, rfl⟩

theorem ofFloats_cases {op : BinaryOp} (hop : op.isUniversal = false) (a b : Float) :
    if op = .divide ∧ (b == 0) = true then ofFloats op a b = .error .divisionByZero
    else ∃ x, ofFloats op a b = .ok (some x) := by
  cases op with
  | equals | notEquals | and | or => cases hop
  | divide => by_cases hb : (b == 0) = true <;> simp [ofFloats, hb]
  | _ => exact ⟨_, rfl⟩

end Scalar

namespace Value

def isZero (cells : Cells) : Value → Bool
  | integer c => cells.integer c == 0
  | float c => cells.float c == 0
  | _ => false

variable {cells : Cells} {op : BinaryOp} {v w : Value}

theorem isNever_ty (v : Value) : v.ty.isNever = false := by
  cases v <;> rfl

theorem isString_iff : v.isString = true ↔ v.ty = .string := by
  constructor
  · exact fun h => (ty_of_isString h).1
  · intro h
    cases v <;> first | rfl | cases h

variable (cells) in
theorem arithmetic_of_numeric (hop : op.isUniversal = false)
    (hv : v.ty.isNumeric = true) (hw : w.ty.isNumeric = true) :
    if op = .divide ∧ w.isZero cells = true then
      arithmetic cells op v w = .error .divisionByZero
    else ∃ x, arithmetic cells op v w = .ok (some x) := by
  cases v with
  | integer a =>
    cases w with
    | integer b => simpa [arithmetic, isZero] using Scalar.ofIntegers_cases hop _ (cells.integer b)
    | float b => exact Scalar.ofFloats_cases hop _ (cells.float b)
    | _ => cases hw
  | float a =>
    cases w with
    | integer b =>
      have h := Scalar.ofFloats_cases hop (cells.float a) (Decimal.ofInteger (cells.integer b))
      simpa only [arithmetic, isZero, Decimal.ofInteger_beq_zero, beq_iff_eq] using h
    | float b => exact Scalar.ofFloats_cases hop _ (cells.float b)
    | _ => cases hw
  | _ => cases hv

theorem arithmetic_of_not_numeric (h : (v.ty.isNumeric && w.ty.isNumeric) = false) :
    arithmetic cells op v w = .ok none := by
  cases v with
  | integer a =>
    cases w with
    | integer b => cases h
    | float b => cases h
    | _ => rfl
  | float a =>
    cases w with
    | integer b => cases h
    | float b => cases h
    | _ => rfl
  | _ => rfl

variable (cells) in
theorem binary_of_arithmetic (hop : op.isUniversal = false)
    (hs : ¬(op = .plus ∧ (v.isString = true ∨ w.isString = true))) :
    binary cells op v w = match arithmetic cells op v w with
      | .ok (some x) => .ok x
      | .ok none => .error (.operatorMismatch op v.ty w.ty)
      | .error e => .error e := by
  have hequals : op ≠ .equals := by rintro rfl; cases hop
  have hnotEquals : op ≠ .notEquals := by rintro rfl; cases hop
  rw [binary, if_neg hequals, if_neg hnotEquals]
  exact if_neg hs

theorem binary_cases (hop : op.isLogical = false) (cells : Cells) (v w : Value) :
    match op.resultTy? v.ty w.ty with
    | none => binary cells op v w = .error (.operatorMismatch op v.ty w.ty)
    | some t =>
      if op = .divide ∧ w.isZero cells = true then binary cells op v w = .error .divisionByZero
      else ∃ x, binary cells op v w = .ok x ∧ x.ty = t := by
  have hnever : (v.ty.isNever || w.ty.isNever) = false := by simp [isNever_ty]
  have hty {x t} (ht : op.resultTy? v.ty w.ty = some t) (hx : binary cells op v w = .ok x) :
      x.ty = t :=
    ty_binary (.inr rfl) (.inr rfl) (.inr ⟨isNever_ty v, isNever_ty w⟩) ht hx
  by_cases hu : op.isUniversal = true
  · obtain rfl | rfl := (BinaryOp.isUniversal_of_not_logical hop).1 hu <;> exact ⟨_, rfl, rfl⟩
  · have hu : op.isUniversal = false := by simpa using hu
    by_cases hs : op = .plus ∧ (v.isString = true ∨ w.isString = true)
    · obtain ⟨rfl, hs⟩ := hs
      have hstring : v.ty = .string ∨ w.ty = .string := hs.imp isString_iff.1 isString_iff.1
      have ht : BinaryOp.plus.resultTy? v.ty w.ty = some .string := by
        simp [BinaryOp.resultTy?, BinaryOp.isUniversal, isNever_ty, hstring]
      rw [ht]
      exact ⟨.string (v.text cells ++ w.text cells), by simp [binary, hs], rfl⟩
    · have hstring : ¬(op = .plus ∧ (v.ty = .string ∨ w.ty = .string)) := by
        simpa only [isString_iff] using hs
      have hbinary := binary_of_arithmetic cells hu hs
      cases hnum : v.ty.isNumeric && w.ty.isNumeric with
      | false =>
        have ht : op.resultTy? v.ty w.ty = none := by
          rw [BinaryOp.resultTy?, if_neg (by simp [hu]), if_neg (by simp [hnever]), if_neg hstring,
            if_pos (by simp [hnum])]
        rw [ht, hbinary, arithmetic_of_not_numeric hnum]
      | true =>
        obtain ⟨t, ht⟩ : ∃ t, op.resultTy? v.ty w.ty = some t := by
          rw [BinaryOp.resultTy?, if_neg (by simp [hu]), if_neg (by simp [hnever]), if_neg hstring,
            if_neg (by simp [hnum])]
          split
          · exact ⟨_, rfl⟩
          · split <;> exact ⟨_, rfl⟩
        rw [Bool.and_eq_true] at hnum
        have harith := arithmetic_of_numeric cells hu hnum.1 hnum.2
        rw [ht]
        dsimp only
        split at harith
        · rw [if_pos ‹_›, hbinary, harith]
        · obtain ⟨x, hx⟩ := harith
          rw [if_neg ‹_›]
          have hx : binary cells op v w = .ok x := by rw [hbinary, hx]
          exact ⟨x, hx, hty ht hx⟩

end Value

theorem Cells.ty_alloc (cells : Cells) (x : Scalar) : (cells.alloc x).1.ty = x.ty := by
  cases x <;> rfl

theorem Value.unary_negate_ok_iff (cells : Cells) {v : Value} :
    (∃ x, v.unary cells .negate = .ok x) ↔ v.ty.isNumeric = true := by
  constructor
  · rintro ⟨x, hx⟩
    cases v with
    | integer c => rfl
    | float c => rfl
    | _ => cases hx
  · intro hv
    cases v with
    | integer c => exact ⟨_, rfl⟩
    | float c => exact ⟨_, rfl⟩
    | _ => cases hv

namespace Eval

variable {r : Except EvalError Scalar} {σ : Store}

theorem ofScalar_ok_iff {t : Ty} :
    (∃ v τ, ofScalar r σ = (.ok v, τ) ∧ v.ty = t) ↔ ∃ x, r = .ok x ∧ x.ty = t := by
  cases r with
  | ok x =>
    constructor
    · rintro ⟨v, τ, h, rfl⟩
      cases h
      exact ⟨x, rfl, (σ.cells.ty_alloc x).symm⟩
    · rintro ⟨_, h, rfl⟩
      cases h
      exact ⟨_, _, rfl, σ.cells.ty_alloc x⟩
  | error e =>
    constructor
    · rintro ⟨v, τ, h, -⟩
      cases h
    · rintro ⟨x, h, -⟩
      cases h

theorem ofScalar_failed_iff {e : EvalError} :
    (ofScalar r σ).1 = .error (.failed e) ↔ r = .error e := by
  cases r with
  | ok x => exact ⟨nofun, nofun⟩
  | error e' =>
    constructor
    · intro h
      cases h
      rfl
    · rintro ⟨⟩
      rfl

/-- The static and the dynamic rules for operators agree. An operator that evaluates both its
operands mismatches values exactly where it has no type for their types. Where it has one it gives a
value of that type, except that a division by a zero of either kind fails. The minus sign gives
a value of the type of its operand exactly for numbers. -/
theorem operators_defined_by_type (σ : Store) (l r : Value) :
    (∀ op : BinaryOp, op.isLogical = false →
      ((∃ o a b, (binary op l r σ).1 = .error (.failed (.operatorMismatch o a b))) ↔
        op.resultTy? l.ty r.ty = none) ∧
      ∀ t, op.resultTy? l.ty r.ty = some t →
        ((∃ v τ, binary op l r σ = (.ok v, τ) ∧ v.ty = t) ∨
          (binary op l r σ).1 = .error (.failed .divisionByZero)) ∧
        ((binary op l r σ).1 = .error (.failed .divisionByZero) ↔
          op = .divide ∧ r.isZero σ.cells = true)) ∧
    ((∃ v τ, unary .negate l σ = (.ok v, τ) ∧ v.ty = l.ty) ↔ l.ty.isNumeric = true) := by
  refine ⟨fun op hop => ?_, ?_⟩
  · have hrun : binary op l r σ = ofScalar (Value.binary σ.cells op l r) σ := rfl
    simp only [hrun, ofScalar_ok_iff, ofScalar_failed_iff]
    have hcases := Value.binary_cases hop σ.cells l r
    cases ht : op.resultTy? l.ty r.ty with
    | none =>
      rw [ht] at hcases
      exact ⟨⟨fun _ => rfl, fun _ => ⟨_, _, _, hcases⟩⟩, nofun⟩
    | some t =>
      simp only [ht] at hcases
      split at hcases
      · rename_i hzero
        rw [hcases]
        simp [hzero]
      · rename_i hzero
        obtain ⟨x, hx, rfl⟩ := hcases
        rw [hx]
        simp [hzero]
  · have hrun : unary .negate l σ = ofScalar (l.unary σ.cells .negate) σ := rfl
    rw [hrun, ofScalar_ok_iff, ← Value.unary_negate_ok_iff σ.cells]
    refine exists_congr fun x => and_iff_left_of_imp fun hx => ?_
    have ht : UnaryOp.negate.resultTy? l.ty = some l.ty := by
      rw [UnaryOp.resultTy?, if_pos ((Value.unary_negate_ok_iff σ.cells).1 ⟨x, hx⟩)]
    exact Value.ty_unary (.inr rfl) ht hx

/-- A whole number divided by the float `-0.0` counts as a division by zero, and only there: times
it, the typing rule gives a float. -/
theorem operators_defined_by_type_of_minus_zero :
    let σ : Store := { Store.initial with cells := ⟨#[7], #[-0.0]⟩ }
    (binary .divide (.integer 0) (.float 0) σ).1 = .error (.failed .divisionByZero) ∧
      ∃ v τ, binary .multiply (.integer 0) (.float 0) σ = (.ok v, τ) ∧ v.ty = .float := by
  intro σ
  obtain ⟨hop, -⟩ := operators_defined_by_type σ (.integer 0) (.float 0)
  constructor
  · exact (((hop .divide rfl).2 .float rfl).2).2 ⟨rfl, by decide +kernel⟩
  · have htimes := (hop .multiply rfl).2 .float rfl
    refine htimes.1.resolve_right fun h => ?_
    cases (htimes.2.1 h).1

end Eval

end TypedScript
