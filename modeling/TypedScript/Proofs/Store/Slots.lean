import Mathlib.Data.Finset.Card
import TypedScript.Store.Reclaim

namespace TypedScript

theorem Slot.eq_iff {a b : Slot} : a = b ↔ a.index = b.index := by
  cases a; cases b; simp

namespace Store

theorem index_lt_of_scope? {σ : Store} {id : Slot} {s : Scope} (h : σ.scope? id = some s) :
    id.index < σ.slots.size := by
  by_contra hn
  simp [scope?, Array.getElem?_eq_none (Nat.le_of_not_lt hn)] at h

theorem scope?_of_size_le {σ : Store} {id : Slot} (h : σ.slots.size ≤ id.index) :
    σ.scope? id = none := by
  simp [scope?, Array.getElem?_eq_none h]

def occupied (σ : Store) : Finset Nat :=
  (Finset.range σ.slots.size).filter fun i => (σ.scope? ⟨i⟩).isSome

def offspring (σ : Store) (id : Slot) : Finset Nat :=
  (Finset.range σ.slots.size).filter fun i => ((σ.scope? ⟨i⟩).bind (·.parent)) = some id

@[simp] theorem mem_occupied {σ : Store} {i : Nat} :
    i ∈ σ.occupied ↔ ∃ s, σ.scope? ⟨i⟩ = some s := by
  simp only [occupied, Finset.mem_filter, Finset.mem_range, Option.isSome_iff_exists]
  exact ⟨fun h => h.2, fun ⟨s, h⟩ => ⟨index_lt_of_scope? h, s, h⟩⟩

@[simp] theorem mem_offspring {σ : Store} {id : Slot} {i : Nat} :
    i ∈ σ.offspring id ↔ ∃ s, σ.scope? ⟨i⟩ = some s ∧ s.parent = some id := by
  simp only [offspring, Finset.mem_filter, Finset.mem_range, Option.bind_eq_some_iff]
  exact ⟨fun h => h.2, fun ⟨s, h, hp⟩ => ⟨index_lt_of_scope? h, s, h, hp⟩⟩

theorem mem_allocated {σ : Store} {i : Nat} {s : Scope} :
    (i, s) ∈ σ.allocated ↔ σ.scope? ⟨i⟩ = some s := by
  simp only [allocated, List.mem_filterMap, List.mem_range, Option.map_eq_some_iff, Prod.mk.injEq]
  constructor
  · rintro ⟨j, _, t, ht, rfl, rfl⟩
    exact ht
  · intro h
    exact ⟨i, index_lt_of_scope? h, s, h, rfl, rfl⟩

theorem allocated_nodup (σ : Store) : (σ.allocated.map Prod.fst).Nodup := by
  have h : (σ.allocated.map Prod.fst) =
      (List.range σ.slots.size).filter fun i => (σ.scope? ⟨i⟩).isSome := by
    rw [allocated, List.map_filterMap, ← List.filterMap_eq_filter]
    apply congrArg (List.filterMap · _)
    funext i
    cases h : σ.scope? ⟨i⟩ <;> simp [h, Option.guard]
  rw [h]
  exact List.nodup_range.filter _

section modifyScope

variable (σ : Store) (id : Slot) (f : Scope → Scope)

@[simp] theorem modifyScope_free : (σ.modifyScope id f).free = σ.free := rfl

@[simp] theorem modifyScope_live : (σ.modifyScope id f).live = σ.live := rfl

@[simp] theorem modifyScope_members : (σ.modifyScope id f).members = σ.members := rfl

@[simp] theorem modifyScope_fresh : (σ.modifyScope id f).fresh = σ.fresh := rfl

@[simp] theorem modifyScope_cells : (σ.modifyScope id f).cells = σ.cells := rfl

@[simp] theorem size_modifyScope : (σ.modifyScope id f).slots.size = σ.slots.size := by
  simp [modifyScope]

end modifyScope

theorem openScope_slot (σ : Store) (parent : Slot) :
    (σ.openScope parent).1 = match σ.free with
      | index :: _ => ⟨index⟩
      | [] => ⟨σ.slots.size⟩ := by
  rw [openScope]
  cases h : σ.free <;> simp [h]

theorem openScope_free (σ : Store) (parent : Slot) :
    (σ.openScope parent).2.free = σ.free.tail := by
  rw [openScope]
  cases h : σ.free <;> simp [h]

@[simp] theorem openScope_live (σ : Store) (parent : Slot) :
    (σ.openScope parent).2.live = σ.live + 1 := by
  rw [openScope]
  cases h : σ.free <;> simp [h]

@[simp] theorem openScope_members (σ : Store) (parent : Slot) :
    (σ.openScope parent).2.members = σ.members := by
  rw [openScope]
  cases h : σ.free <;> simp [h]

@[simp] theorem openScope_cells (σ : Store) (parent : Slot) :
    (σ.openScope parent).2.cells = σ.cells := by
  rw [openScope]
  cases h : σ.free <;> simp [h]

@[simp] theorem openScope_fresh (σ : Store) (parent : Slot) :
    (σ.openScope parent).2.fresh = σ.fresh + 1 := by
  rw [openScope]
  cases h : σ.free <;> simp [h]

theorem size_openScope (σ : Store) (parent : Slot) :
    (σ.openScope parent).2.slots.size =
      match σ.free with
      | _ :: _ => σ.slots.size
      | [] => σ.slots.size + 1 := by
  rw [openScope]
  cases h : σ.free <;> simp [h]

/-- The free list holds empty slots only, so that a scope can be put into any of them. -/
def FreeIsEmpty (σ : Store) : Prop := ∀ i ∈ σ.free, i < σ.slots.size ∧ σ.scope? ⟨i⟩ = none

theorem scope?_openScope_slot {σ : Store} (hf : σ.FreeIsEmpty) (parent : Slot) :
    σ.scope? (σ.openScope parent).1 = none := by
  rw [openScope_slot]
  cases h : σ.free with
  | nil => exact scope?_of_size_le (Nat.le_refl _)
  | cons i rest => exact (hf i (by simp [h])).2

theorem scope?_openScope {σ : Store} (hf : σ.FreeIsEmpty) (parent j : Slot) :
    (σ.openScope parent).2.scope? j =
      if (σ.openScope parent).1 = j then some ⟨.empty, some parent, true, 0, σ.fresh⟩
      else if parent = j then (σ.scope? parent).map fun s => { s with children := s.children + 1 }
      else σ.scope? j := by
  rw [← scope?_modifyScope σ parent j fun s => { s with children := s.children + 1 }]
  rw [openScope_slot, openScope]
  cases h : σ.free with
  | nil =>
    simp only [modifyScope_free, h, Slot.eq_iff, size_modifyScope]
    by_cases hj : σ.slots.size = j.index
    · simp only [scope?, Array.getElem?_push, size_modifyScope, hj, if_true]
      rfl
    · have hm : j.index ≠ (σ.modifyScope parent fun s =>
          { s with children := s.children + 1 }).slots.size := by simpa using Ne.symm hj
      simp only [scope?, Array.getElem?_push, hm, if_false, if_neg hj]
  | cons i rest =>
    have hi : i < σ.slots.size := (hf i (by simp [h])).1
    simp only [modifyScope_free, h, Slot.eq_iff, modifyScope_fresh]
    by_cases hj : i = j.index
    · subst hj
      simp [scope?, hi]
    · simp only [scope?, Array.getElem?_setIfInBounds_ne hj, if_neg hj]

theorem openScope_back {σ : Store} (hf : σ.FreeIsEmpty) {parent j : Slot} {t : Scope}
    (ht : (σ.openScope parent).2.scope? j = some t) :
    j = (σ.openScope parent).1 ∧ t = ⟨.empty, some parent, true, 0, σ.fresh⟩ ∨
    ∃ u, σ.scope? j = some u ∧ t.parent = u.parent ∧ t.stamp = u.stamp ∧
      t.children = u.children + (if j = parent then 1 else 0) := by
  rw [scope?_openScope hf] at ht
  split at ht
  · rename_i hj
    cases ht
    exact .inl ⟨hj.symm, rfl⟩
  · split at ht
    · rename_i hj
      subst hj
      obtain ⟨u, hu, rfl⟩ := Option.map_eq_some_iff.1 ht
      exact .inr ⟨u, hu, rfl, rfl, by simp⟩
    · rename_i hj
      exact .inr ⟨t, ht, rfl, rfl, by simp [Ne.symm hj]⟩

theorem openScope_forth {σ : Store} (hf : σ.FreeIsEmpty) (parent : Slot) {j : Slot} {u : Scope}
    (hu : σ.scope? j = some u) :
    ∃ t, (σ.openScope parent).2.scope? j = some t ∧ t.parent = u.parent ∧ t.stamp = u.stamp := by
  have hj : (σ.openScope parent).1 ≠ j := by
    intro he
    rw [← he, scope?_openScope_slot hf] at hu
    cases hu
  rw [scope?_openScope hf, if_neg hj]
  split
  · rename_i hp
    subst hp
    rw [hu]
    exact ⟨_, rfl, rfl, rfl⟩
  · exact ⟨u, hu, rfl, rfl⟩

theorem scope?_openScope_eq_none {σ : Store} (hf : σ.FreeIsEmpty) (parent j : Slot) :
    (σ.openScope parent).2.scope? j = none ↔ j ≠ (σ.openScope parent).1 ∧ σ.scope? j = none := by
  constructor
  · intro hj
    refine ⟨fun he => by simp [scope?_openScope hf, he] at hj, ?_⟩
    cases hu : σ.scope? j with
    | none => rfl
    | some u =>
      obtain ⟨t, ht, -⟩ := openScope_forth hf parent hu
      simp [ht] at hj
  · rintro ⟨hj, hu⟩
    cases ht : (σ.openScope parent).2.scope? j with
    | none => rfl
    | some t =>
      obtain ⟨he, -⟩ | ⟨u, hu', -⟩ := openScope_back hf ht
      · exact absurd he hj
      · simp [hu] at hu'

theorem occupied_openScope {σ : Store} (hf : σ.FreeIsEmpty) (parent : Slot) :
    (σ.openScope parent).2.occupied = insert (σ.openScope parent).1.index σ.occupied := by
  ext i
  rw [Finset.mem_insert, mem_occupied, mem_occupied]
  constructor
  · rintro ⟨t, ht⟩
    obtain ⟨he, -⟩ | ⟨u, hu, -⟩ := openScope_back hf ht
    · exact .inl (Slot.eq_iff.1 he)
    · exact .inr ⟨u, hu⟩
  · rintro (hi | ⟨u, hu⟩)
    · exact ⟨_, by rw [scope?_openScope hf, if_pos (Slot.eq_iff.2 hi.symm)]⟩
    · exact (openScope_forth hf parent hu).imp fun t ht => ht.1

theorem offspring_openScope {σ : Store} (hf : σ.FreeIsEmpty) (parent id : Slot) :
    (σ.openScope parent).2.offspring id =
      if id = parent then insert (σ.openScope parent).1.index (σ.offspring id)
      else σ.offspring id := by
  have hnew : (σ.openScope parent).2.scope? (σ.openScope parent).1 =
      some ⟨.empty, some parent, true, 0, σ.fresh⟩ := by rw [scope?_openScope hf, if_pos rfl]
  ext i
  rw [mem_offspring]
  constructor
  · rintro ⟨t, ht, htp⟩
    obtain ⟨he, rfl⟩ | ⟨u, hu, hup, -⟩ := openScope_back hf ht
    · cases htp
      rw [if_pos rfl, ← he]
      exact Finset.mem_insert_self i _
    · have hi : i ∈ σ.offspring id := mem_offspring.2 ⟨u, hu, hup.symm.trans htp⟩
      split
      · exact Finset.mem_insert_of_mem hi
      · exact hi
  · intro hi
    have hi' : id = parent ∧ i = (σ.openScope parent).1.index ∨ i ∈ σ.offspring id := by
      split at hi
      · rename_i he
        exact (Finset.mem_insert.1 hi).imp (fun h => ⟨he, h⟩) fun h => h
      · exact .inr hi
    obtain ⟨rfl, rfl⟩ | hi := hi'
    · exact ⟨_, hnew, rfl⟩
    · obtain ⟨u, hu, hup⟩ := mem_offspring.1 hi
      obtain ⟨t, ht, htp, -⟩ := openScope_forth hf parent hu
      exact ⟨t, ht, htp.trans hup⟩

@[simp] theorem vacate_members (σ : Store) (id : Slot) : (σ.vacate id).members = σ.members := by
  rw [vacate]; split <;> rfl

@[simp] theorem vacate_cells (σ : Store) (id : Slot) : (σ.vacate id).cells = σ.cells := by
  rw [vacate]; split <;> rfl

@[simp] theorem vacate_fresh (σ : Store) (id : Slot) : (σ.vacate id).fresh = σ.fresh := by
  rw [vacate]; split <;> rfl

@[simp] theorem size_vacate (σ : Store) (id : Slot) :
    (σ.vacate id).slots.size = σ.slots.size := by
  rw [vacate]; split <;> simp

theorem scope?_dropChild (σ : Store) (parent : Option Slot) (j : Slot) :
    (σ.dropChild parent).scope? j =
      if parent = some j then (σ.scope? j).map fun s => { s with children := s.children - 1 }
      else σ.scope? j := by
  cases parent with
  | none => simp [dropChild]
  | some p =>
    rw [dropChild, scope?_modifyScope]
    by_cases h : p = j
    · simp [h]
    · simp [h]

@[simp] theorem dropChild_free (σ : Store) (parent : Option Slot) :
    (σ.dropChild parent).free = σ.free := by cases parent <;> rfl

@[simp] theorem dropChild_live (σ : Store) (parent : Option Slot) :
    (σ.dropChild parent).live = σ.live := by cases parent <;> rfl

@[simp] theorem dropChild_members (σ : Store) (parent : Option Slot) :
    (σ.dropChild parent).members = σ.members := by cases parent <;> rfl

@[simp] theorem dropChild_cells (σ : Store) (parent : Option Slot) :
    (σ.dropChild parent).cells = σ.cells := by cases parent <;> rfl

@[simp] theorem dropChild_fresh (σ : Store) (parent : Option Slot) :
    (σ.dropChild parent).fresh = σ.fresh := by cases parent <;> rfl

@[simp] theorem size_dropChild (σ : Store) (parent : Option Slot) :
    (σ.dropChild parent).slots.size = σ.slots.size := by
  cases parent <;> simp [dropChild]

def sweep (σ : Store) (garbage : List (Nat × Scope)) : Store :=
  garbage.foldl (fun σ e => σ.dropChild e.2.parent)
    (garbage.foldl (fun σ e => σ.vacate ⟨e.1⟩) σ)

section sweep

variable (garbage : List (Nat × Scope))

theorem scope?_foldl_vacate (σ : Store) (j : Slot) :
    (garbage.foldl (fun σ e => σ.vacate ⟨e.1⟩) σ).scope? j =
      if j.index ∈ garbage.map Prod.fst then none else σ.scope? j := by
  induction garbage generalizing σ with
  | nil => simp
  | cons e rest ih =>
    rw [List.foldl_cons, ih, scope?_vacate, List.map_cons]
    by_cases he : j.index = e.1
    · have hs : (⟨e.1⟩ : Slot) = j := by rw [← he]
      simp [he, hs]
    · have hs : (⟨e.1⟩ : Slot) ≠ j := fun h => he (by rw [← h])
      simp only [List.mem_cons, he, false_or, if_neg hs]

theorem scope?_foldl_dropChild (σ : Store) (j : Slot) :
    (garbage.foldl (fun σ e => σ.dropChild e.2.parent) σ).scope? j =
      (σ.scope? j).map fun s =>
        { s with children := s.children - garbage.countP (·.2.parent = some j) } := by
  induction garbage generalizing σ with
  | nil => simp
  | cons e rest ih =>
    rw [List.foldl_cons, ih, scope?_dropChild]
    by_cases he : e.2.parent = some j
    · simp only [he, if_true, Option.map_map, List.countP_cons, decide_true]
      apply congrArg (Option.map · _)
      funext s
      simp only [Function.comp_apply, Scope.mk.injEq, true_and, and_true]
      push_cast
      omega
    · simp [he]

theorem scope?_sweep (σ : Store) (j : Slot) :
    (σ.sweep garbage).scope? j =
      if j.index ∈ garbage.map Prod.fst then none
      else (σ.scope? j).map fun s =>
        { s with children := s.children - garbage.countP (·.2.parent = some j) } := by
  rw [sweep, scope?_foldl_dropChild, scope?_foldl_vacate]
  split <;> rfl

theorem foldl_vacate_keeps {β : Type} (p : Store → β)
    (h : ∀ σ id, p (σ.vacate id) = p σ) (σ : Store) :
    p (garbage.foldl (fun σ e => σ.vacate ⟨e.1⟩) σ) = p σ := by
  induction garbage generalizing σ with
  | nil => rfl
  | cons e rest ih => rw [List.foldl_cons, ih, h]

theorem foldl_dropChild_keeps {β : Type} (p : Store → β)
    (h : ∀ σ parent, p (σ.dropChild parent) = p σ) (σ : Store) :
    p (garbage.foldl (fun σ e => σ.dropChild e.2.parent) σ) = p σ := by
  induction garbage generalizing σ with
  | nil => rfl
  | cons e rest ih => rw [List.foldl_cons, ih, h]

@[simp] theorem sweep_members (σ : Store) : (σ.sweep garbage).members = σ.members := by
  rw [sweep, foldl_dropChild_keeps garbage Store.members dropChild_members,
    foldl_vacate_keeps garbage Store.members vacate_members]

@[simp] theorem sweep_cells (σ : Store) : (σ.sweep garbage).cells = σ.cells := by
  rw [sweep, foldl_dropChild_keeps garbage Store.cells dropChild_cells,
    foldl_vacate_keeps garbage Store.cells vacate_cells]

@[simp] theorem sweep_fresh (σ : Store) : (σ.sweep garbage).fresh = σ.fresh := by
  rw [sweep, foldl_dropChild_keeps garbage Store.fresh dropChild_fresh,
    foldl_vacate_keeps garbage Store.fresh vacate_fresh]

@[simp] theorem size_sweep (σ : Store) : (σ.sweep garbage).slots.size = σ.slots.size := by
  rw [sweep, foldl_dropChild_keeps garbage (·.slots.size) size_dropChild,
    foldl_vacate_keeps garbage (·.slots.size) size_vacate]

variable {garbage}

theorem foldl_vacate_free_live {σ : Store} (ha : ∀ e ∈ garbage, σ.scope? ⟨e.1⟩ = some e.2)
    (hn : (garbage.map Prod.fst).Nodup) :
    (garbage.foldl (fun σ e => σ.vacate ⟨e.1⟩) σ).free = (garbage.map Prod.fst).reverse ++ σ.free ∧
      (garbage.foldl (fun σ e => σ.vacate ⟨e.1⟩) σ).live = σ.live - garbage.length := by
  induction garbage generalizing σ with
  | nil => simp
  | cons e rest ih =>
    have he := ha e (by simp)
    have hfree : (σ.vacate ⟨e.1⟩).free = e.1 :: σ.free := by simp [vacate, he]
    have hlive : (σ.vacate ⟨e.1⟩).live = σ.live - 1 := by simp [vacate, he]
    rw [List.map_cons, List.nodup_cons] at hn
    have hrest : ∀ d ∈ rest, (σ.vacate ⟨e.1⟩).scope? ⟨d.1⟩ = some d.2 := by
      intro d hd
      have hne : e.1 ≠ d.1 := fun h => hn.1 (h ▸ List.mem_map_of_mem hd)
      rw [scope?_vacate, if_neg (by simpa [Slot.eq_iff] using hne)]
      exact ha d (by simp [hd])
    obtain ⟨ihf, ihl⟩ := ih hrest hn.2
    constructor
    · simp [ihf, hfree]
    · simp only [List.foldl_cons, ihl, hlive, List.length_cons]
      omega

theorem sweep_free {σ : Store} (ha : ∀ e ∈ garbage, σ.scope? ⟨e.1⟩ = some e.2)
    (hn : (garbage.map Prod.fst).Nodup) :
    (σ.sweep garbage).free = (garbage.map Prod.fst).reverse ++ σ.free := by
  rw [sweep, foldl_dropChild_keeps garbage Store.free dropChild_free]
  exact (foldl_vacate_free_live ha hn).1

theorem sweep_live {σ : Store} (ha : ∀ e ∈ garbage, σ.scope? ⟨e.1⟩ = some e.2)
    (hn : (garbage.map Prod.fst).Nodup) :
    (σ.sweep garbage).live = σ.live - garbage.length := by
  rw [sweep, foldl_dropChild_keeps garbage Store.live dropChild_live]
  exact (foldl_vacate_free_live ha hn).2

theorem sweep_back {σ : Store} {j : Slot} {t : Scope}
    (ht : (σ.sweep garbage).scope? j = some t) :
    j.index ∉ garbage.map Prod.fst ∧ ∃ s, σ.scope? j = some s ∧
      t = { s with children := s.children - garbage.countP (·.2.parent = some j) } := by
  rw [scope?_sweep] at ht
  split at ht
  · cases ht
  · rename_i hj
    obtain ⟨s, hs, rfl⟩ := Option.map_eq_some_iff.1 ht
    exact ⟨hj, s, hs, rfl⟩

theorem sweep_forth {σ : Store} {j : Slot} {s : Scope} (hs : σ.scope? j = some s)
    (hj : j.index ∉ garbage.map Prod.fst) :
    (σ.sweep garbage).scope? j =
      some { s with children := s.children - garbage.countP (·.2.parent = some j) } := by
  rw [scope?_sweep, if_neg hj, hs]
  rfl

theorem occupied_sweep (σ : Store) :
    (σ.sweep garbage).occupied = σ.occupied \ (garbage.map Prod.fst).toFinset := by
  ext i
  rw [Finset.mem_sdiff, List.mem_toFinset, mem_occupied, mem_occupied]
  constructor
  · rintro ⟨t, ht⟩
    obtain ⟨hj, s, hs, -⟩ := sweep_back ht
    exact ⟨⟨s, hs⟩, hj⟩
  · rintro ⟨⟨s, hs⟩, hj⟩
    exact ⟨_, sweep_forth hs hj⟩

theorem offspring_sweep (σ : Store) (id : Slot) :
    (σ.sweep garbage).offspring id = σ.offspring id \ (garbage.map Prod.fst).toFinset := by
  ext i
  rw [Finset.mem_sdiff, List.mem_toFinset, mem_offspring, mem_offspring]
  constructor
  · rintro ⟨t, ht, hp⟩
    obtain ⟨hj, s, hs, rfl⟩ := sweep_back ht
    exact ⟨⟨s, hs, hp⟩, hj⟩
  · rintro ⟨⟨s, hs, hp⟩, hj⟩
    exact ⟨_, sweep_forth hs hj, hp⟩

end sweep

end Store

end TypedScript
