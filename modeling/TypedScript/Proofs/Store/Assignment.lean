import TypedScript.Eval.Operation
import TypedScript.Proofs.Store.Arena

namespace TypedScript

structure Scope.Outline where
  names : List String
  parent : Option Slot
  active : Bool
  children : Int
  stamp : Nat

def Scope.outline (s : Scope) : Scope.Outline :=
  ⟨s.bindings.keys, s.parent, s.active, s.children, s.stamp⟩

namespace Store

/-- From `id` outwards, the nearest scope that binds the name is `found`. -/
inductive Resolves (σ : Store) (name : String) : Slot → Slot → Prop
  | here {id s} : σ.scope? id = some s → name ∈ s.bindings.keys → Resolves σ name id id
  | outer {id s p found} : σ.scope? id = some s → name ∉ s.bindings.keys → s.parent = some p →
      Resolves σ name p found → Resolves σ name id found

variable {σ τ : Store} {id found : Slot} {name : String} {v : Value}

theorem Resolves.binds (h : σ.Resolves name id found) :
    ∃ s, σ.scope? found = some s ∧ name ∈ s.bindings.keys := by
  induction h with
  | here hs hname => exact ⟨_, hs, hname⟩
  | outer _ _ _ _ ih => exact ih

theorem resolves_of_binderFrom {n : Nat} (h : σ.binderFrom name n id = some found) :
    σ.Resolves name id found := by
  induction n generalizing id with
  | zero => cases h
  | succ n ih =>
    rw [binderFrom_succ] at h
    split at h
    · cases h
    · rename_i s hs
      split at h <;> rename_i hname
      · cases h
        exact .here hs (Dict.contains_iff_mem_keys.1 hname)
      · obtain ⟨p, hp, hfound⟩ := Option.bind_eq_some_iff.1 h
        exact .outer hs (fun hmem => hname (Dict.contains_iff_mem_keys.2 hmem)) hp (ih hfound)

theorem Tidy.binder?_eq_some_iff (h : σ.Tidy) :
    σ.binder? id name = some found ↔ σ.Resolves name id found := by
  refine ⟨resolves_of_binderFrom, fun hr => ?_⟩
  induction hr with
  | here hs hname => rw [h.binder?_eq name hs, if_pos (Dict.contains_iff_mem_keys.2 hname)]
  | outer hs hname hp _ ih =>
    rw [h.binder?_eq name hs, if_neg (fun hc => hname (Dict.contains_iff_mem_keys.1 hc)), hp]
    exact ih

def SameOutline (σ τ : Store) : Prop :=
  ∀ id, (τ.scope? id).map Scope.outline = (σ.scope? id).map Scope.outline

theorem SameOutline.binderFrom_eq (h : σ.SameOutline τ) (name : String) (n : Nat) (id : Slot) :
    τ.binderFrom name n id = σ.binderFrom name n id := by
  induction n generalizing id with
  | zero => rfl
  | succ n ih =>
    have hid := h id
    rw [binderFrom_succ, binderFrom_succ]
    cases ht : τ.scope? id with
    | none =>
      rw [ht, Option.map_none] at hid
      rw [Option.map_eq_none_iff.1 hid.symm]
    | some t =>
      rw [ht, Option.map_some] at hid
      obtain ⟨s, hs, hst⟩ := Option.map_eq_some_iff.1 hid.symm
      have hkeys : s.bindings.keys = t.bindings.keys := congrArg Scope.Outline.names hst
      have hparent : s.parent = t.parent := congrArg Scope.Outline.parent hst
      have hcontains : t.bindings.contains name = s.bindings.contains name := by
        rw [Bool.eq_iff_iff, Dict.contains_iff_mem_keys, Dict.contains_iff_mem_keys, hkeys]
      rw [hs]
      dsimp only
      rw [hcontains, hparent]
      split
      · rfl
      · exact congrArg t.parent.bind (funext ih)

theorem sameOutline_bind (h : ∃ s, σ.scope? found = some s ∧ name ∈ s.bindings.keys) (v : Value) :
    σ.SameOutline (σ.bind found name v) := by
  obtain ⟨s, hs, hname⟩ := h
  intro j
  rw [scope?_bind]
  split
  · rename_i hj
    subst hj
    have hkeys : (s.bindings.insert name v).keys = s.bindings.keys := by
      rw [Dict.keys, Dict.insert, Dict.keys_put]
      exact if_pos hname
    simp [hs, Scope.outline, hkeys]
  · rfl

theorem SameOutline.binder?_eq (h : σ.SameOutline τ) (hsize : τ.slots.size = σ.slots.size)
    (id : Slot) (name : String) : τ.binder? id name = σ.binder? id name := by
  rw [binder?, binder?, hsize]
  exact h.binderFrom_eq name _ id

theorem isSome_lookup? : (σ.lookup? id name).isSome ↔ (σ.binder? id name).isSome := by
  rw [lookup?]
  cases hb : σ.binder? id name with
  | none => rfl
  | some found =>
    obtain ⟨s, hs, hname⟩ := (resolves_of_binderFrom hb).binds
    simpa [hs, Dict.contains] using Dict.contains_iff_mem_keys.2 hname

theorem lookup?_bind_of_binder? (hfound : σ.binder? id name = some found) (v : Value) (other : Slot)
    (x : String) : (σ.bind found name v).lookup? other x =
      if x = name ∧ σ.binder? other x = some found then some v else σ.lookup? other x := by
  have hbinds := (resolves_of_binderFrom hfound).binds
  rw [lookup?, lookup?,
    (sameOutline_bind hbinds v).binder?_eq (size_modifyScope σ found _) other x]
  obtain ⟨s, hs, -⟩ := hbinds
  cases hb : σ.binder? other x with
  | none => simp
  | some b =>
    dsimp only
    rw [scope?_bind]
    by_cases hj : found = b
    · subst hj
      by_cases hx : x = name
      · subst hx
        simp [hs]
      · simp [hs, hx, Dict.get?_insert_of_ne _ _ (Ne.symm hx)]
    · rw [if_neg hj, if_neg fun hc => hj (Option.some.inj hc.2).symm]

/-- An assignment finds its name exactly if looking the name up does. If it does not, nothing is
changed. If it does, the name stands for the new value from every scope from which it resolves to
the same scope; from the others, and for other names, nothing is different. Scopes keep their names,
their parents and their counts of children, and the rest of the store is not touched. -/
theorem rebind?_exact (h : σ.Tidy) (id : Slot) (name : String) (v : Value) :
    ((σ.rebind? id name v).isSome ↔ (σ.lookup? id name).isSome) ∧
    (σ.rebind? id name v = none →
      Eval.assign id name v σ = (.error (.failed (.variableNotDeclared name)), σ)) ∧
    ∀ τ, σ.rebind? id name v = some τ →
      Eval.assign id name v σ = (.ok v, τ) ∧
      (∀ other x,
        (x = name ∧ (∃ found, σ.Resolves name id found ∧ σ.Resolves name other found) →
          τ.lookup? other x = some v) ∧
        (¬(x = name ∧ ∃ found, σ.Resolves name id found ∧ σ.Resolves name other found) →
          τ.lookup? other x = σ.lookup? other x)) ∧
      σ.SameOutline τ ∧ τ = { σ with slots := τ.slots } := by
  have hassign : Eval.assign id name v σ = match σ.rebind? id name v with
      | some τ => (.ok v, τ)
      | none => (.error (.failed (.variableNotDeclared name)), σ) := by
    simp only [Eval.assign, Eval.bind_apply, Eval.gets_apply, rebind?]
    cases σ.binder? id name <;> rfl
  refine ⟨?_, fun hnone => by rw [hassign, hnone], fun τ hτ => ⟨by rw [hassign, hτ], ?_⟩⟩
  · rw [isSome_lookup?, rebind?, Option.isSome_map]
  · obtain ⟨found, hfound, rfl⟩ := Option.map_eq_some_iff.1 hτ
    have hresolves := h.binder?_eq_some_iff.1 hfound
    refine ⟨fun other x => ?_, sameOutline_bind hresolves.binds v, rfl⟩
    have hsame : (x = name ∧ ∃ b, σ.Resolves name id b ∧ σ.Resolves name other b) ↔
        x = name ∧ σ.binder? other x = some found := by
      refine and_congr_right fun hx => ?_
      subst hx
      rw [h.binder?_eq_some_iff]
      constructor
      · rintro ⟨b, hb, hother⟩
        rw [← h.binder?_eq_some_iff, hfound] at hb
        cases hb
        exact hother
      · exact fun hother => ⟨found, hresolves, hother⟩
    rw [hsame, lookup?_bind_of_binder? hfound]
    exact ⟨fun hx => if_pos hx, fun hx => if_neg hx⟩

def shadowed : List Session.Op :=
  [.plain .null, .define ⟨0⟩ "x" 0, .extend ⟨0⟩, .define ⟨1⟩ "x" 0, .extend ⟨1⟩, .extend ⟨0⟩]

theorem rebind?_exact_of_shadowed : ∃ w τ, Session.initial.run shadowed = some w ∧
    w.store.Tidy ∧ w.store.rebind? ⟨2⟩ "x" .void = some τ ∧
      τ.lookup? ⟨2⟩ "x" = some .void ∧ τ.lookup? ⟨1⟩ "x" = some .void ∧
      τ.lookup? ⟨3⟩ "x" = some .null ∧ τ.lookup? ⟨0⟩ "x" = some .null := by
  obtain ⟨w, τ, hw, hτ, h0, h1, h2, h3, hnull⟩ : ∃ w τ, Session.initial.run shadowed = some w ∧
      w.store.rebind? ⟨2⟩ "x" .void = some τ ∧ w.store.binder? ⟨0⟩ "x" = some ⟨0⟩ ∧
      w.store.binder? ⟨1⟩ "x" = some ⟨1⟩ ∧ w.store.binder? ⟨2⟩ "x" = some ⟨1⟩ ∧
      w.store.binder? ⟨3⟩ "x" = some ⟨0⟩ ∧ w.store.lookup? ⟨0⟩ "x" = some .null :=
    ⟨_, _, rfl, rfl, rfl, rfl, rfl, rfl, rfl⟩
  have htidy : w.store.Tidy := (Session.run_sound Session.initial_sound hw).1.toTidy
  have hnull' : w.store.lookup? ⟨3⟩ "x" = some .null := by
    rw [← hnull, lookup?, lookup?, h0, h3]
  obtain ⟨-, hlookup, -⟩ := (rebind?_exact htidy ⟨2⟩ "x" .void).2.2 τ hτ
  simp only [← htidy.binder?_eq_some_iff, h2] at hlookup
  refine ⟨w, τ, hw, htidy, hτ, (hlookup ⟨2⟩ "x").1 ?_, (hlookup ⟨1⟩ "x").1 ?_,
    ((hlookup ⟨3⟩ "x").2 ?_).trans hnull', ((hlookup ⟨0⟩ "x").2 ?_).trans hnull⟩
  · exact ⟨rfl, _, rfl, h2⟩
  · exact ⟨rfl, _, rfl, h1⟩
  · rintro ⟨-, b, hb, hb'⟩
    rw [h3, ← hb] at hb'
    cases hb'
  · rintro ⟨-, b, hb, hb'⟩
    rw [h0, ← hb] at hb'
    cases hb'

end Store

end TypedScript
