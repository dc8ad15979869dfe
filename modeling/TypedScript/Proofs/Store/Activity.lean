import TypedScript.Proofs.Store.Keep

namespace TypedScript.Store

/-- The stamp and the parent of the scope in a slot, while it is active. -/
def activity (σ : Store) (id : Slot) : Option (Nat × Option Slot) :=
  ((σ.scope? id).filter (·.active)).map fun s => (s.stamp, s.parent)

def activeSlots (σ : Store) : Finset Nat :=
  (Finset.range σ.slots.size).filter fun i => (σ.activity ⟨i⟩).isSome

section activity

variable {σ τ : Store}

theorem activity_eq_some {id : Slot} {x : Nat × Option Slot} :
    σ.activity id = some x ↔
      ∃ s, σ.scope? id = some s ∧ s.active ∧ (s.stamp, s.parent) = x := by
  simp [activity, Option.filter_eq_some_iff, and_assoc]

theorem activity_of_none {id : Slot} (h : σ.scope? id = none) : σ.activity id = none := by
  simp [activity, h]

theorem activity_modifyScope (id : Slot) {f : Scope → Scope}
    (hf : ∀ s, (f s).active = s.active ∧ (f s).stamp = s.stamp ∧ (f s).parent = s.parent) :
    (σ.modifyScope id f).activity = σ.activity := by
  funext j
  rw [activity, activity, scope?_modifyScope]
  split
  · rename_i he
    subst he
    cases σ.scope? id with
    | none => rfl
    | some s => simp [Option.filter, hf s]
  · rfl

theorem activity_bind (id : Slot) (name : String) (v : Value) :
    (σ.bind id name v).activity = σ.activity := activity_modifyScope id fun _ => ⟨rfl, rfl, rfl⟩

theorem activity_deactivate (id : Slot) :
    (σ.deactivate id).activity = Function.update σ.activity id none := by
  funext j
  rw [activity, deactivate, scope?_modifyScope]
  by_cases h : id = j
  · subst h
    rw [if_pos rfl, Function.update_self]
    cases σ.scope? id <;> rfl
  · rw [if_neg h, Function.update_of_ne (Ne.symm h), activity]

theorem activity_openScope (hf : σ.FreeIsEmpty) (parent : Slot) :
    (σ.openScope parent).2.activity =
      Function.update σ.activity (σ.openScope parent).1 (some (σ.fresh, some parent)) := by
  funext j
  rw [activity, scope?_openScope hf]
  by_cases h : (σ.openScope parent).1 = j
  · subst h
    rw [if_pos rfl, Function.update_self]
    rfl
  · rw [if_neg h, Function.update_of_ne (Ne.symm h), activity]
    split
    · rename_i hp
      subst hp
      cases σ.scope? parent <;> simp [Option.filter]
    · rfl

theorem Prunes.activity_eq (h : σ.Prunes τ) : τ.activity = σ.activity := by
  funext id
  apply Option.ext
  rintro x
  rw [activity_eq_some, activity_eq_some]
  constructor
  · rintro ⟨t, ht, hta, hx⟩
    obtain ⟨s, hs, he⟩ := h.back ht
    rw [he] at hta hx
    exact ⟨s, hs, hta, hx⟩
  · rintro ⟨s, hs, hsa, hx⟩
    obtain ⟨t, ht⟩ := h.active hs hsa
    obtain ⟨s', hs', he⟩ := h.back ht
    rw [hs] at hs'
    cases hs'
    exact ⟨t, ht, by rw [he]; exact hsa, by rw [he]; exact hx⟩

@[simp] theorem mem_activeSlots {i : Nat} : i ∈ σ.activeSlots ↔ ∃ x, σ.activity ⟨i⟩ = some x := by
  simp only [activeSlots, Finset.mem_filter, Finset.mem_range, Option.isSome_iff_exists]
  refine ⟨fun h => h.2, fun ⟨x, hx⟩ => ⟨?_, x, hx⟩⟩
  obtain ⟨s, hs, -⟩ := activity_eq_some.1 hx
  exact index_lt_of_scope? hs

theorem activeSlots_congr (h : τ.activity = σ.activity) : τ.activeSlots = σ.activeSlots := by
  ext i
  rw [mem_activeSlots, mem_activeSlots, h]

theorem activeSlots_subset (σ : Store) : σ.activeSlots ⊆ σ.occupied := by
  intro i hi
  obtain ⟨x, hx⟩ := mem_activeSlots.1 hi
  obtain ⟨s, hs, -⟩ := activity_eq_some.1 hx
  exact mem_occupied.2 ⟨s, hs⟩

theorem card_activeSlots_openScope (hf : σ.FreeIsEmpty) (parent : Slot) :
    (σ.openScope parent).2.activeSlots.card = σ.activeSlots.card + 1 := by
  have hnew : (σ.openScope parent).1.index ∉ σ.activeSlots := by
    simp [activity_of_none (scope?_openScope_slot hf parent)]
  have hset : (σ.openScope parent).2.activeSlots =
      insert (σ.openScope parent).1.index σ.activeSlots := by
    ext i
    rw [Finset.mem_insert, mem_activeSlots, mem_activeSlots, activity_openScope hf]
    by_cases h : i = (σ.openScope parent).1.index
    · simp [h]
    · have hne : (⟨i⟩ : Slot) ≠ (σ.openScope parent).1 := fun he => h (by rw [← he])
      simp [Function.update_of_ne hne, h]
  rw [hset, Finset.card_insert_of_notMem hnew]

end activity

end TypedScript.Store
