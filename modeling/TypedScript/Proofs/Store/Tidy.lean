import TypedScript.Proofs.Store.Slots

namespace TypedScript.Store

structure Tidy (σ : Store) : Prop where
  live_eq : σ.live = σ.occupied.card
  mem_free : ∀ {i}, i ∈ σ.free ↔ i < σ.slots.size ∧ σ.scope? ⟨i⟩ = none
  free_nodup : σ.free.Nodup
  children_eq : ∀ {id s}, σ.scope? id = some s → s.children = (σ.offspring id).card
  parent_older : ∀ {id s p}, σ.scope? id = some s → s.parent = some p →
    ∃ t, σ.scope? p = some t ∧ t.stamp < s.stamp
  stamp_lt : ∀ {id s}, σ.scope? id = some s → s.stamp < σ.fresh
  stamp_inj : ∀ {i j s t}, σ.scope? i = some s → σ.scope? j = some t → s.stamp = t.stamp → i = j

namespace Tidy

variable {σ : Store}

theorem freeIsEmpty (h : σ.Tidy) : σ.FreeIsEmpty := fun _ hi => h.mem_free.1 hi

theorem initial : Store.initial.Tidy := by
  have hs : ∀ j : Slot, Store.initial.scope? j =
      if j = ⟨0⟩ then some ⟨.empty, none, true, 0, 0⟩ else none := by
    rintro ⟨_ | i⟩ <;> rfl
  have hof : ∀ id, Store.initial.offspring id = ∅ := by
    intro id
    apply Finset.eq_empty_of_forall_notMem
    intro i hi
    obtain ⟨s, hs', hp⟩ := mem_offspring.1 hi
    rw [hs] at hs'
    split at hs' <;> cases hs'
    cases hp
  constructor
  · rfl
  · intro i
    constructor
    · intro hi
      cases hi
    · rintro ⟨hlt, hi⟩
      cases i with
      | zero => cases hi
      | succ i => exact absurd hlt (by simp [Store.initial])
  · exact List.nodup_nil
  · intro id s h
    rw [hs] at h
    split at h <;> cases h
    simp [hof]
  · intro id s p h hp
    rw [hs] at h
    split at h <;> cases h
    cases hp
  · intro id s h
    rw [hs] at h
    split at h <;> cases h
    decide
  · intro i j s t hi hj _
    rw [hs] at hi hj
    split at hi <;> cases hi
    split at hj <;> cases hj
    simp [*]

theorem congr {τ : Store} (h : σ.Tidy) (free : τ.free = σ.free) (live : τ.live = σ.live)
    (size : τ.slots.size = σ.slots.size) (fresh : σ.fresh ≤ τ.fresh)
    (scopes : ∀ j, (τ.scope? j).map (fun s => (s.parent, s.children, s.stamp)) =
      (σ.scope? j).map fun s => (s.parent, s.children, s.stamp)) : τ.Tidy := by
  have back : ∀ {j t}, τ.scope? j = some t → ∃ s, σ.scope? j = some s ∧
      s.parent = t.parent ∧ s.children = t.children ∧ s.stamp = t.stamp := by
    intro j t ht
    have hj := scopes j
    rw [ht] at hj
    cases hs : σ.scope? j with
    | none => simp [hs] at hj
    | some s =>
      simp only [hs, Option.map_some, Option.some.injEq, Prod.mk.injEq] at hj
      exact ⟨s, rfl, hj.1.symm, hj.2.1.symm, hj.2.2.symm⟩
  have none_iff : ∀ j, τ.scope? j = none ↔ σ.scope? j = none := by
    intro j
    rw [← Option.map_eq_none_iff, scopes, Option.map_eq_none_iff]
  have forth : ∀ {j s}, σ.scope? j = some s → ∃ t, τ.scope? j = some t ∧
      s.parent = t.parent ∧ s.children = t.children ∧ s.stamp = t.stamp := by
    intro j s hs
    cases ht : τ.scope? j with
    | none => simp [(none_iff j).1 ht] at hs
    | some t =>
      obtain ⟨s', hs', h'⟩ := back ht
      rw [hs] at hs'
      cases hs'
      exact ⟨t, rfl, h'⟩
  have hocc : τ.occupied = σ.occupied := by
    ext i
    rw [mem_occupied, mem_occupied]
    exact ⟨fun ⟨t, ht⟩ => (back ht).imp fun s hs => hs.1,
      fun ⟨s, hs⟩ => (forth hs).imp fun t ht => ht.1⟩
  have hoff : ∀ id, τ.offspring id = σ.offspring id := by
    intro id
    ext i
    rw [mem_offspring, mem_offspring]
    constructor
    · rintro ⟨t, ht, hp⟩
      obtain ⟨s, hs, hsp, -⟩ := back ht
      exact ⟨s, hs, hsp.trans hp⟩
    · rintro ⟨s, hs, hp⟩
      obtain ⟨t, ht, hsp, -⟩ := forth hs
      exact ⟨t, ht, hsp.symm.trans hp⟩
  constructor
  · rw [live, hocc, h.live_eq]
  · intro i
    rw [free, size, none_iff]
    exact h.mem_free
  · rw [free]
    exact h.free_nodup
  · intro id t ht
    obtain ⟨s, hs, -, hc, -⟩ := back ht
    rw [← hc, hoff, h.children_eq hs]
  · intro id t p ht hp
    obtain ⟨s, hs, hsp, -, hst⟩ := back ht
    obtain ⟨u, hu, hlt⟩ := h.parent_older hs (hsp.trans hp)
    obtain ⟨v, hv, -, -, huv⟩ := forth hu
    exact ⟨v, hv, by omega⟩
  · intro id t ht
    obtain ⟨s, hs, -, -, hst⟩ := back ht
    have := h.stamp_lt hs
    omega
  · intro i j s t hi hj he
    obtain ⟨s', hs', -, -, hs⟩ := back hi
    obtain ⟨t', ht', -, -, ht⟩ := back hj
    exact h.stamp_inj hs' ht' (by omega)

theorem modifyScope (h : σ.Tidy) (id : Slot) {f : Scope → Scope}
    (hf : ∀ s, ((f s).parent, (f s).children, (f s).stamp) = (s.parent, s.children, s.stamp)) :
    (σ.modifyScope id f).Tidy := by
  refine h.congr rfl rfl (size_modifyScope σ id f) (Nat.le_refl _) fun j => ?_
  rw [scope?_modifyScope]
  split
  · rename_i he
    subst he
    rw [Option.map_map]
    apply congrArg (Option.map · _)
    funext s
    exact hf s
  · rfl

theorem bind (h : σ.Tidy) (id : Slot) (name : String) (v : Value) : (σ.bind id name v).Tidy :=
  h.modifyScope id fun _ => rfl

theorem deactivate (h : σ.Tidy) (id : Slot) : (σ.deactivate id).Tidy :=
  h.modifyScope id fun _ => rfl

theorem openScope (h : σ.Tidy) {parent : Slot} {s : Scope} (hp : σ.scope? parent = some s) :
    (σ.openScope parent).2.Tidy := by
  have hf := h.freeIsEmpty
  have hnew := scope?_openScope_slot hf parent
  constructor
  · have hnot : (σ.openScope parent).1.index ∉ σ.occupied := by simp [hnew]
    rw [openScope_live, occupied_openScope hf, Finset.card_insert_of_notMem hnot, h.live_eq]
  · intro i
    rw [scope?_openScope_eq_none hf, openScope_free, size_openScope, openScope_slot]
    cases hfree : σ.free with
    | nil =>
      have hi : i ∉ σ.free := by simp [hfree]
      rw [h.mem_free] at hi
      simp only [List.tail_nil, List.not_mem_nil, false_iff]
      rintro ⟨hlt, hni, hsome⟩
      have hi' : i ≠ σ.slots.size := fun he => hni (by rw [he])
      exact hi ⟨by omega, hsome⟩
    | cons k rest =>
      have hi : i ∈ σ.free ↔ i < σ.slots.size ∧ σ.scope? ⟨i⟩ = none := h.mem_free
      have hnd := h.free_nodup
      rw [hfree] at hi hnd
      rw [List.nodup_cons] at hnd
      simp only [List.tail_cons, ne_eq, Slot.mk.injEq]
      constructor
      · intro hr
        obtain ⟨hlt, hsome⟩ := hi.1 (List.mem_cons_of_mem k hr)
        exact ⟨hlt, fun he => hnd.1 (he ▸ hr), hsome⟩
      · rintro ⟨hlt, hk, hsome⟩
        exact (List.mem_cons.1 (hi.2 ⟨hlt, hsome⟩)).resolve_left hk
  · rw [openScope_free]
    exact h.free_nodup.tail
  · intro id t ht
    rw [offspring_openScope hf]
    obtain ⟨rfl, rfl⟩ | ⟨u, hu, -, -, hc⟩ := openScope_back hf ht
    · have hne : (σ.openScope parent).1 ≠ parent := fun he => by simp [he, hp] at hnew
      have hempty : σ.offspring (σ.openScope parent).1 = ∅ := by
        apply Finset.eq_empty_of_forall_notMem
        intro i hi
        obtain ⟨u, hu, hup⟩ := mem_offspring.1 hi
        obtain ⟨v, hv, -⟩ := h.parent_older hu hup
        simp [hnew] at hv
      simp [hne, hempty]
    · have hni : (σ.openScope parent).1.index ∉ σ.offspring id := by simp [hnew]
      rw [hc, h.children_eq hu]
      split
      · simp [Finset.card_insert_of_notMem hni]
      · simp
  · intro id t p ht htp
    obtain ⟨rfl, rfl⟩ | ⟨u, hu, hup, hst, -⟩ := openScope_back hf ht
    · cases htp
      obtain ⟨v, hv, -, hvs⟩ := openScope_forth hf parent hp
      exact ⟨v, hv, hvs ▸ h.stamp_lt hp⟩
    · obtain ⟨v, hv, hlt⟩ := h.parent_older hu (hup.symm.trans htp)
      obtain ⟨w, hw, -, hws⟩ := openScope_forth hf parent hv
      exact ⟨w, hw, by omega⟩
  · intro id t ht
    rw [openScope_fresh]
    obtain ⟨rfl, rfl⟩ | ⟨u, hu, -, hst, -⟩ := openScope_back hf ht
    · simp
    · have := h.stamp_lt hu
      omega
  · intro i j t u hi hj he
    obtain ⟨rfl, rfl⟩ | ⟨t', ht', -, hst, -⟩ := openScope_back hf hi
    · obtain ⟨rfl, rfl⟩ | ⟨u', hu', -, hsu, -⟩ := openScope_back hf hj
      · rfl
      · exact absurd (h.stamp_lt hu') (by simp only at he; omega)
    · obtain ⟨rfl, rfl⟩ | ⟨u', hu', -, hsu, -⟩ := openScope_back hf hj
      · exact absurd (h.stamp_lt ht') (by simp only at he; omega)
      · exact h.stamp_inj ht' hu' (by omega)

section sweep

variable {garbage : List (Nat × Scope)}

theorem card_swept_offspring (ha : ∀ e ∈ garbage, σ.scope? ⟨e.1⟩ = some e.2)
    (hn : (garbage.map Prod.fst).Nodup) (id : Slot) :
    (σ.offspring id ∩ (garbage.map Prod.fst).toFinset).card =
      garbage.countP (·.2.parent = some id) := by
  have hset : σ.offspring id ∩ (garbage.map Prod.fst).toFinset =
      ((garbage.filter (·.2.parent = some id)).map Prod.fst).toFinset := by
    ext i
    simp only [Finset.mem_inter, mem_offspring, List.mem_toFinset, List.mem_map, List.mem_filter,
      decide_eq_true_eq]
    constructor
    · rintro ⟨⟨s, hs, hp⟩, e, he, rfl⟩
      rw [ha e he] at hs
      cases hs
      exact ⟨e, ⟨he, hp⟩, rfl⟩
    · rintro ⟨e, ⟨he, hp⟩, rfl⟩
      exact ⟨⟨e.2, ha e he, hp⟩, e, he, rfl⟩
  have hnd : ((garbage.filter (·.2.parent = some id)).map Prod.fst).Nodup :=
    hn.sublist (List.filter_sublist.map _)
  rw [hset, List.toFinset_card_of_nodup hnd, List.length_map, List.countP_eq_length_filter]

theorem sweep (h : σ.Tidy) (ha : ∀ e ∈ garbage, σ.scope? ⟨e.1⟩ = some e.2)
    (hn : (garbage.map Prod.fst).Nodup)
    (hc : ∀ {id s p}, σ.scope? id = some s → id.index ∉ garbage.map Prod.fst →
      s.parent = some p → p.index ∉ garbage.map Prod.fst) :
    (σ.sweep garbage).Tidy := by
  constructor
  · have hsub : (garbage.map Prod.fst).toFinset ⊆ σ.occupied := by
      intro i hi
      obtain ⟨e, he, rfl⟩ := List.mem_map.1 (List.mem_toFinset.1 hi)
      exact mem_occupied.2 ⟨e.2, ha e he⟩
    rw [sweep_live ha hn, occupied_sweep, Finset.card_sdiff_of_subset hsub,
      List.toFinset_card_of_nodup hn, List.length_map, h.live_eq]
  · intro i
    rw [sweep_free ha hn, size_sweep, scope?_sweep, List.mem_append, List.mem_reverse, h.mem_free]
    constructor
    · rintro (hi | ⟨hlt, hnone⟩)
      · obtain ⟨e, he, rfl⟩ := List.mem_map.1 hi
        exact ⟨index_lt_of_scope? (ha e he), by rw [if_pos hi]⟩
      · exact ⟨hlt, by simp [hnone]⟩
    · rintro ⟨hlt, hnone⟩
      split at hnone
      · rename_i hi
        exact .inl hi
      · exact .inr ⟨hlt, by simpa using hnone⟩
  · rw [sweep_free ha hn, List.nodup_append]
    refine ⟨List.nodup_reverse.2 hn, h.free_nodup, ?_⟩
    rintro i hi _ hf rfl
    obtain ⟨e, he, rfl⟩ := List.mem_map.1 (List.mem_reverse.1 hi)
    have hnone := (h.mem_free.1 hf).2
    rw [ha e he] at hnone
    cases hnone
  · intro id t ht
    obtain ⟨-, s, hs, rfl⟩ := sweep_back ht
    rw [offspring_sweep, h.children_eq hs, ← card_swept_offspring ha hn]
    dsimp only
    have := Finset.card_sdiff_add_card_inter (σ.offspring id) (garbage.map Prod.fst).toFinset
    omega
  · intro id t p ht hp
    obtain ⟨hj, s, hs, rfl⟩ := sweep_back ht
    obtain ⟨u, hu, hlt⟩ := h.parent_older hs hp
    exact ⟨_, sweep_forth hu (hc hs hj hp), hlt⟩
  · intro id t ht
    obtain ⟨-, s, hs, rfl⟩ := sweep_back ht
    have hlt := h.stamp_lt hs
    rwa [sweep_fresh]
  · intro i j t u hi hj he
    obtain ⟨-, s, hs, rfl⟩ := sweep_back hi
    obtain ⟨-, s', hs', rfl⟩ := sweep_back hj
    exact h.stamp_inj hs hs' he

end sweep

end Tidy

end TypedScript.Store
