import TypedScript.Proofs.Store.Tidy

namespace TypedScript.Store

inductive Rooted (σ : Store) : Slot → Prop
  | root {id s} : σ.scope? id = some s → s.parent = none → Rooted σ id
  | child {id s p} : σ.scope? id = some s → s.parent = some p → Rooted σ p → Rooted σ id

def elders (σ : Store) (stamp : Nat) : Finset Nat :=
  σ.occupied.filter fun i => (σ.scope? ⟨i⟩).any (·.stamp ≤ stamp)

theorem mem_elders {σ : Store} {stamp i : Nat} :
    i ∈ σ.elders stamp ↔ ∃ s, σ.scope? ⟨i⟩ = some s ∧ s.stamp ≤ stamp := by
  simp only [elders, Finset.mem_filter, mem_occupied, Option.any_eq_true, decide_eq_true_eq]
  refine ⟨And.right, fun h => ⟨?_, h⟩⟩
  obtain ⟨s, hs, -⟩ := h
  exact ⟨s, hs⟩

theorem card_elders_le (σ : Store) (stamp : Nat) : (σ.elders stamp).card ≤ σ.slots.size := by
  have hsub : σ.elders stamp ⊆ Finset.range σ.slots.size := by
    intro i hi
    obtain ⟨s, hs, -⟩ := mem_elders.1 hi
    exact Finset.mem_range.2 (index_lt_of_scope? hs)
  simpa using Finset.card_le_card hsub

section chain

variable {σ : Store} {id p : Slot} {s t : Scope}

theorem card_elders_pos (hs : σ.scope? id = some s) : 0 < (σ.elders s.stamp).card :=
  Finset.card_pos.2 ⟨id.index, mem_elders.2 ⟨s, hs, Nat.le_refl _⟩⟩

theorem card_elders_lt (hs : σ.scope? id = some s) (hlt : t.stamp < s.stamp) :
    (σ.elders t.stamp).card < (σ.elders s.stamp).card := by
  apply Finset.card_lt_card
  rw [Finset.ssubset_iff_of_subset]
  · refine ⟨id.index, mem_elders.2 ⟨s, hs, Nat.le_refl _⟩, fun hmem => ?_⟩
    obtain ⟨u, hu, hle⟩ := mem_elders.1 hmem
    rw [hs] at hu
    cases hu
    omega
  · intro i hi
    obtain ⟨u, hu, hle⟩ := mem_elders.1 hi
    exact mem_elders.2 ⟨u, hu, by omega⟩

theorem Tidy.rooted (h : σ.Tidy) (hs : σ.scope? id = some s) : σ.Rooted id := by
  induction hn : s.stamp using Nat.strong_induction_on generalizing id s with
  | _ n ih =>
    cases hp : s.parent with
    | none => exact .root hs hp
    | some p =>
      obtain ⟨t, ht, hlt⟩ := h.parent_older hs hp
      exact .child hs hp (ih t.stamp (hn ▸ hlt) ht rfl)

theorem binderFrom_succ (σ : Store) (name : String) (n : Nat) (id : Slot) :
    σ.binderFrom name (n + 1) id = match σ.scope? id with
      | none => none
      | some s => if s.bindings.contains name then some id
        else s.parent.bind (σ.binderFrom name n) := by
  rw [binderFrom]
  cases σ.scope? id with
  | none => rfl
  | some s => cases hp : s.parent <;> simp [hp]

theorem Tidy.binderFrom_eq (h : σ.Tidy) (name : String) {n m : Nat} (hs : σ.scope? id = some s)
    (hn : (σ.elders s.stamp).card ≤ n) (hm : (σ.elders s.stamp).card ≤ m) :
    σ.binderFrom name n id = σ.binderFrom name m id := by
  have hpos := card_elders_pos hs
  induction n generalizing m id s with
  | zero => omega
  | succ n ih =>
    obtain ⟨m, rfl⟩ : ∃ k, m = k + 1 := ⟨m - 1, by omega⟩
    rw [binderFrom_succ, binderFrom_succ, hs]
    dsimp only
    cases hp : s.parent with
    | none => rfl
    | some p =>
      obtain ⟨t, ht, hlt⟩ := h.parent_older hs hp
      have hless := card_elders_lt hs hlt
      rw [Option.bind_some, Option.bind_some,
        ih ht (by omega) (by omega : (σ.elders t.stamp).card ≤ m) (card_elders_pos ht)]

theorem Tidy.binderFrom_of_size_le (h : σ.Tidy) (name : String) {n : Nat} (hn : σ.slots.size ≤ n)
    (id : Slot) : σ.binderFrom name n id = σ.binder? id name := by
  cases hs : σ.scope? id with
  | some s =>
    have hle := card_elders_le σ s.stamp
    exact h.binderFrom_eq name hs (by omega) hle
  | none =>
    have hnone : ∀ k, σ.binderFrom name k id = none := by
      intro k
      cases k with
      | zero => rfl
      | succ k => rw [binderFrom_succ, hs]
    rw [binder?, hnone, hnone]

theorem Tidy.binder?_eq (h : σ.Tidy) (name : String) (hs : σ.scope? id = some s) :
    σ.binder? id name = if s.bindings.contains name then some id
      else s.parent.bind (σ.binder? · name) := by
  rw [← h.binderFrom_of_size_le name (Nat.le_succ _), binderFrom_succ, hs]
  rfl

end chain

end TypedScript.Store
