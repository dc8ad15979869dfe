import TypedScript.Proofs.Store.Chain
import TypedScript.Proofs.Store.History

namespace TypedScript

namespace Store

/-- `vacate`, refused if the count of live scopes is zero. -/
def vacate? (σ : Store) (id : Slot) : Option Store :=
  match σ.scope? id with
  | none => some σ
  | some _ => if 0 < σ.live then some (σ.vacate id) else none

def dropChild? (σ : Store) (parent : Option Slot) : Option Store :=
  match parent.bind σ.scope? with
  | none => some (σ.dropChild parent)
  | some s => if 0 < s.children then some (σ.dropChild parent) else none

def giveBack? (roots : Roots) : Nat → Slot → Store → Option Store
  | 0, _, σ => some σ
  | n + 1, id, σ =>
    match σ.scope? id with
    | none => some σ
    | some s =>
      if !s.active && s.children == 0 && !σ.isHeld roots s.stamp then do
        let σ ← (σ.vacate? id).bind (·.dropChild? s.parent)
        match s.parent with
        | none => some σ
        | some parent => giveBack? roots n parent σ
      else some σ

def sweep? (σ : Store) (garbage : List (Nat × Scope)) : Option Store :=
  (garbage.foldlM (fun (σ : Store) e => σ.vacate? ⟨e.1⟩) σ).bind
    (garbage.foldlM (fun (σ : Store) e => σ.dropChild? e.2.parent) ·)

def collect? (σ : Store) (roots : Roots) : Option Store :=
  (σ.sweep? (σ.garbage roots)).map fun σ => { σ with collectAt := max (2 * σ.live) threshold }

def close? (σ : Store) (roots : Roots) (id : Slot) : Option Store :=
  match σ.scope? id with
  | none => some σ
  | some _ => do
    let σ ← giveBack? roots (σ.live + 1) id (σ.deactivate id)
    if σ.collectAt ≤ σ.live then σ.collect? roots else some σ

section counters

variable {σ : Store} {roots : Roots} {garbage : List (Nat × Scope)}

theorem foldlM_vacate? (hn : garbage.length ≤ σ.live) :
    garbage.foldlM (fun (σ : Store) e => σ.vacate? ⟨e.1⟩) σ =
      some (garbage.foldl (fun σ e => σ.vacate ⟨e.1⟩) σ) := by
  induction garbage generalizing σ with
  | nil => rfl
  | cons e rest ih =>
    rw [List.length_cons] at hn
    have hstep : σ.vacate? ⟨e.1⟩ = some (σ.vacate ⟨e.1⟩) := by
      rw [vacate?]
      cases hs : σ.scope? ⟨e.1⟩ with
      | none => simp [vacate, hs]
      | some s => simp [show 0 < σ.live by omega]
    have hlive : σ.live - 1 ≤ (σ.vacate ⟨e.1⟩).live := by
      rw [vacate]
      split
      · exact Nat.sub_le _ _
      · exact Nat.le_refl _
    rw [List.foldlM_cons, hstep, List.foldl_cons]
    exact ih (by omega)

theorem foldlM_dropChild?
    (hc : ∀ {p s}, σ.scope? p = some s → garbage.countP (·.2.parent = some p) ≤ s.children) :
    garbage.foldlM (fun (σ : Store) e => σ.dropChild? e.2.parent) σ =
      some (garbage.foldl (fun σ e => σ.dropChild e.2.parent) σ) := by
  induction garbage generalizing σ with
  | nil => rfl
  | cons e rest ih =>
    have hstep : σ.dropChild? e.2.parent = some (σ.dropChild e.2.parent) := by
      rw [dropChild?]
      cases hp : e.2.parent.bind σ.scope? with
      | none => rfl
      | some s =>
        obtain ⟨p, hp, hs⟩ := Option.bind_eq_some_iff.1 hp
        have hle := hc hs
        rw [List.countP_cons_of_pos (by simpa using hp)] at hle
        simp [show 0 < s.children by push_cast at hle; omega]
    rw [List.foldlM_cons, hstep, List.foldl_cons]
    refine ih fun {p t} ht => ?_
    rw [scope?_dropChild] at ht
    split at ht
    · rename_i hp
      obtain ⟨s, hs, rfl⟩ := Option.map_eq_some_iff.1 ht
      have hle := hc hs
      rw [List.countP_cons_of_pos (by simpa using hp)] at hle
      push_cast at hle
      dsimp only
      omega
    · have hle := hc ht
      rename_i hp
      rwa [List.countP_cons_of_neg (by simpa using hp)] at hle

theorem Tidy.sweep?_eq (h : σ.Tidy) (ha : ∀ e ∈ garbage, σ.scope? ⟨e.1⟩ = some e.2)
    (hn : (garbage.map Prod.fst).Nodup) : σ.sweep? garbage = some (σ.sweep garbage) := by
  have hlive : garbage.length ≤ σ.live := by
    have hsub : (garbage.map Prod.fst).toFinset ⊆ σ.occupied := by
      intro i hi
      obtain ⟨e, he, rfl⟩ := List.mem_map.1 (List.mem_toFinset.1 hi)
      exact mem_occupied.2 ⟨e.2, ha e he⟩
    have hcard := Finset.card_le_card hsub
    rwa [List.toFinset_card_of_nodup hn, List.length_map, ← h.live_eq] at hcard
  rw [sweep?, foldlM_vacate? hlive, Option.bind_some, foldlM_dropChild?, Store.sweep]
  intro p s hs
  rw [scope?_foldl_vacate] at hs
  split at hs
  · cases hs
  · rw [← card_swept_offspring ha hn, h.children_eq hs]
    exact_mod_cast Finset.card_le_card Finset.inter_subset_left

theorem Intact.giveBack?_eq {roots : Roots} (n : Nat) {σ : Store} (h : σ.Intact roots) (id : Slot) :
    giveBack? roots n id σ = some (Store.giveBack roots n id σ) := by
  induction n generalizing σ id with
  | zero => rfl
  | succ n ih =>
    rw [giveBack_succ, giveBack?]
    cases hs : σ.scope? id with
    | none => rfl
    | some s =>
      simp only [Bool.and_eq_true, Bool.not_eq_true', beq_iff_eq, and_assoc]
      split
      · rename_i hfree
        have hswept : (σ.vacate? id).bind (·.dropChild? s.parent) =
            some (σ.sweep [(id.index, s)]) := by
          rw [← h.toTidy.sweep?_eq (by simpa using hs) (by simp), sweep?]
          simp
        obtain ⟨hσ, -⟩ := h.sweep_single hs hfree.1 hfree.2.1 hfree.2.2
        rw [hswept]
        cases hp : s.parent with
        | none => rfl
        | some parent => exact ih hσ parent
      · rfl

theorem Intact.collect?_eq (h : σ.Intact roots) :
    σ.collect? roots = some (σ.collect roots) := by
  rw [collect?, h.toTidy.sweep?_eq scope?_of_mem_garbage garbage_nodup]
  rfl

theorem Intact.close?_eq (h : σ.Intact roots) (id : Slot) :
    σ.close? roots id = some (σ.close roots id) := by
  rw [close?, Store.close]
  cases hs : σ.scope? id with
  | none => rfl
  | some s =>
    have hi := ((h.deactivate id).giveBack (σ.live + 1) id).1
    dsimp only
    rw [(h.deactivate id).giveBack?_eq]
    simp only [Option.bind_eq_bind, Option.bind_some]
    rw [hi.collect?_eq]
    split <;> rfl

end counters

end Store

namespace Session

/-- What holds of the slots after any run: the counters and the free list are right, chains of
parents end, so that a search along one is not cut short, nothing is counted below zero, and a
handle that is alive, on its own or in a function, still has the scope it was made for. As time
goes on, no scope comes to stand in the slot of another with its stamp. -/
theorem slots_consistent (ops : List Op) {w : Session} (hr : initial.run ops = some w) :
    w.store.live = w.store.occupied.card ∧
    (w.store.free.Nodup ∧
      ∀ i, i ∈ w.store.free ↔ i < w.store.slots.size ∧ w.store.scope? ⟨i⟩ = none) ∧
    (∀ id s, w.store.scope? id = some s →
      s.children = (w.store.offspring id).card ∧
      (∀ p, s.parent = some p → ∃ t, w.store.scope? p = some t) ∧
      w.store.Rooted id) ∧
    (∀ name n id, w.store.slots.size ≤ n →
      w.store.binderFrom name n id = w.store.binder? id name) ∧
    ((∀ id, w.store.close? w.roots id = some (w.store.close w.roots id)) ∧
      w.store.collect? w.roots = some (w.store.collect w.roots)) ∧
    ((∀ x ∈ w.roots.handles, w.store.Holds x) ∧
      ∀ v ∈ w.store.referenced w.roots, ∀ f ∈ v.closures, w.store.Holds f.home) ∧
    ∀ more w', w.run more = some w' → ∀ id t, w'.store.scope? id = some t →
      t.stamp < w.store.fresh →
      ∃ s, w.store.scope? id = some s ∧ s.stamp = t.stamp ∧ s.parent = t.parent := by
  have h : w.Sound := (run_sound initial_sound hr).1
  refine ⟨h.live_eq, ⟨h.free_nodup, fun i => h.mem_free⟩, ?_, ?_, ?_, ?_, ?_⟩
  · intro id s hs
    refine ⟨h.children_eq hs, fun p hp => ?_, h.toTidy.rooted hs⟩
    obtain ⟨t, ht, -⟩ := h.parent_older hs hp
    exact ⟨t, ht⟩
  · exact fun name n id hn => h.toTidy.binderFrom_of_size_le name hn id
  · exact ⟨Store.Intact.close?_eq h, Store.Intact.collect?_eq h⟩
  · refine ⟨fun x hx => h.handle_holds hx, fun v hv f hf => ?_⟩
    obtain ⟨a, ha, haf⟩ := Value.mem_closures.1 hf
    exact h.home_holds ⟨v, hv, ha⟩ haf
  · intro more w' hmore id t
    exact (run_sound h hmore).2.back

/-- A slot is used again and its second scope captured, twice; one of the handles is dropped. -/
def secondTenant : List Op :=
  [.extend ⟨0⟩, .release ⟨1⟩, .extend ⟨0⟩, .capture ⟨1⟩, .cloneHandle 0, .dropHandle 0,
    .release ⟨1⟩, .collect]

theorem slots_consistent_secondTenant : ∃ w, initial.run secondTenant = some w ∧
    w.store.live = w.store.occupied.card ∧ w.store.Holds ⟨⟨1⟩, 2⟩ ∧ w.store.Rooted ⟨1⟩ := by
  refine ⟨_, rfl, (slots_consistent secondTenant rfl).1, ?_, ?_⟩
  · exact (slots_consistent secondTenant rfl).2.2.2.2.2.1.1 _ List.mem_cons_self
  · exact ((slots_consistent secondTenant rfl).2.2.1 ⟨1⟩ _ rfl).2.2

end Session

end TypedScript
