import TypedScript.Proofs.Store.Intact

namespace TypedScript.Store

/-- `τ` is `σ` without some of its idle scopes. -/
structure Prunes (σ τ : Store) : Prop where
  members : τ.members = σ.members
  cells : τ.cells = σ.cells
  fresh : τ.fresh = σ.fresh
  back : ∀ {j t}, τ.scope? j = some t →
    ∃ s, σ.scope? j = some s ∧ t = { s with children := t.children }
  active : ∀ {j s}, σ.scope? j = some s → s.active → ∃ t, τ.scope? j = some t

namespace Prunes

variable {σ τ υ : Store}

theorem refl (σ : Store) : σ.Prunes σ where
  members := rfl
  cells := rfl
  fresh := rfl
  back ht := ⟨_, ht, rfl⟩
  active hs _ := ⟨_, hs⟩

theorem trans (h : σ.Prunes τ) (h' : τ.Prunes υ) : σ.Prunes υ where
  members := h'.members.trans h.members
  cells := h'.cells.trans h.cells
  fresh := h'.fresh.trans h.fresh
  back hu := by
    obtain ⟨t, ht, hut⟩ := h'.back hu
    obtain ⟨s, hs, hts⟩ := h.back ht
    exact ⟨s, hs, by rw [hut, hts]⟩
  active hs ha := by
    obtain ⟨t, ht⟩ := h.active hs ha
    obtain ⟨s', hs', hts⟩ := h.back ht
    rw [hs] at hs'
    cases hs'
    exact h'.active ht (by rw [hts]; exact ha)

theorem knows (h : σ.Prunes τ) {roots : Roots} {a : Value} (ha : τ.Knows roots a) :
    σ.Knows roots a := by
  refine knows_of_carries (fun hv => ?_) ha
  obtain ⟨j, t, ht, hv⟩ | hv := mem_referenced.1 hv
  · obtain ⟨s, hs, hts⟩ := h.back ht
    rw [hts] at hv
    exact carries_of_bound hs hv
  · rw [h.members] at hv
    exact carries_of_mem (mem_referenced.2 (.inr hv))

end Prunes

section sweep

variable {σ : Store} {roots : Roots} {garbage : List (Nat × Scope)}

theorem prunes_sweep (ha : ∀ e ∈ garbage, σ.scope? ⟨e.1⟩ = some e.2)
    (hi : ∀ e ∈ garbage, e.2.active = false) : σ.Prunes (σ.sweep garbage) where
  members := sweep_members garbage σ
  cells := sweep_cells garbage σ
  fresh := sweep_fresh garbage σ
  back ht := by
    obtain ⟨-, s, hs, rfl⟩ := sweep_back ht
    exact ⟨s, hs, rfl⟩
  active {j s} hs hact := by
    refine ⟨_, sweep_forth hs fun hj => ?_⟩
    obtain ⟨e, he, hej⟩ := List.mem_map.1 hj
    have hse : σ.scope? ⟨e.1⟩ = σ.scope? j := by rw [hej]
    rw [ha e he, hs] at hse
    cases hse
    simp [hi e he] at hact

theorem holds_sweep {x : Handle} (h : σ.Holds x) (hx : x.slot.index ∉ garbage.map Prod.fst) :
    (σ.sweep garbage).Holds x := by
  obtain ⟨s, hs, hst⟩ := h
  exact ⟨_, sweep_forth hs hx, hst⟩

/-- What is swept away must be needed by nothing that stays: not as a parent, not by a handle,
and not as the home of a function. -/
theorem Intact.sweep (h : σ.Intact roots) (ha : ∀ e ∈ garbage, σ.scope? ⟨e.1⟩ = some e.2)
    (hi : ∀ e ∈ garbage, e.2.active = false) (hn : (garbage.map Prod.fst).Nodup)
    (parents : ∀ {id s p}, σ.scope? id = some s → id.index ∉ garbage.map Prod.fst →
      s.parent = some p → p.index ∉ garbage.map Prod.fst)
    (handles : ∀ x ∈ roots.handles, x.slot.index ∉ garbage.map Prod.fst)
    (homes : ∀ {a f}, (σ.sweep garbage).Knows roots a → a.closure? = some f →
      f.home.slot.index ∉ garbage.map Prod.fst) :
    (σ.sweep garbage).Intact roots :=
  h.transfer (h.toTidy.sweep ha hn parents) (by rw [sweep_fresh]) (prunes_sweep ha hi).knows
    (fun hx => hx) (fun hx hσ => holds_sweep hσ (handles _ hx))
    fun hk hf hσ => holds_sweep hσ (homes hk hf)

end sweep

theorem isHeld_eq_false {σ : Store} {roots : Roots} {stamp : Nat}
    (h : σ.isHeld roots stamp = false) :
    (∀ x ∈ roots.handles, x.stamp ≠ stamp) ∧
      ∀ {a f}, σ.Knows roots a → a.closure? = some f → f.home.stamp ≠ stamp := by
  simp only [isHeld, Bool.or_eq_false_iff, List.any_eq_false, beq_iff_eq, Bool.not_eq_true] at h
  refine ⟨h.1, ?_⟩
  rintro a f ⟨v, hv, ha⟩ hf
  exact h.2 v hv f (Value.mem_closures.2 ⟨a, ha, hf⟩)

theorem Intact.sweep_single {σ : Store} {roots : Roots} (h : σ.Intact roots) {id : Slot} {s : Scope}
    (hs : σ.scope? id = some s) (hi : s.active = false) (hc : s.children = 0)
    (hh : σ.isHeld roots s.stamp = false) :
    (σ.sweep [(id.index, s)]).Intact roots ∧ σ.Prunes (σ.sweep [(id.index, s)]) := by
  have ha : ∀ e ∈ [(id.index, s)], σ.scope? ⟨e.1⟩ = some e.2 := by simpa using hs
  have hidle : ∀ e ∈ [(id.index, s)], e.2.active = false := by simpa using hi
  have hp := prunes_sweep ha hidle
  have hmem : ∀ {j : Slot}, j.index ∈ [(id.index, s)].map Prod.fst ↔ j = id := by
    simp [Slot.eq_iff]
  obtain ⟨hhandles, hhomes⟩ := isHeld_eq_false hh
  refine ⟨h.sweep ha hidle (by simp) ?_ ?_ ?_, hp⟩
  · intro j t p ht _ htp
    rw [hmem]
    rintro rfl
    have hcard := h.children_eq hs
    rw [hc] at hcard
    have hempty : σ.offspring p = ∅ := Finset.card_eq_zero.1 (by omega)
    have hj : j.index ∈ σ.offspring p := mem_offspring.2 ⟨t, ht, htp⟩
    simp [hempty] at hj
  · intro x hx
    rw [hmem]
    rintro rfl
    obtain ⟨t, ht, hst⟩ := h.handle_holds hx
    rw [hs] at ht
    cases ht
    exact hhandles x hx hst.symm
  · intro a f hk hf
    rw [hmem]
    rintro rfl
    obtain ⟨t, ht, hst⟩ := h.home_holds (hp.knows hk) hf
    rw [hs] at ht
    cases ht
    exact hhomes (hp.knows hk) hf hst.symm

theorem giveBack_succ (roots : Roots) (n : Nat) (id : Slot) (σ : Store) :
    giveBack roots (n + 1) id σ = match σ.scope? id with
      | none => σ
      | some s =>
        if s.active = false ∧ s.children = 0 ∧ σ.isHeld roots s.stamp = false then
          match s.parent with
          | none => σ.sweep [(id.index, s)]
          | some parent => giveBack roots n parent (σ.sweep [(id.index, s)])
        else σ := by
  rw [giveBack]
  cases σ.scope? id with
  | none => rfl
  | some s =>
    simp only [Bool.and_eq_true, Bool.not_eq_true', beq_iff_eq, and_assoc]
    rfl

theorem Intact.giveBack {roots : Roots} (n : Nat) {σ : Store} (h : σ.Intact roots) (id : Slot) :
    (σ.giveBack roots n id).Intact roots ∧ σ.Prunes (σ.giveBack roots n id) := by
  induction n generalizing σ id with
  | zero => exact ⟨h, Prunes.refl σ⟩
  | succ n ih =>
    rw [giveBack_succ]
    split
    · exact ⟨h, Prunes.refl σ⟩
    · rename_i s hs
      split
      · rename_i hfree
        obtain ⟨hσ, hp⟩ := h.sweep_single hs hfree.1 hfree.2.1 hfree.2.2
        split
        · exact ⟨hσ, hp⟩
        · rename_i parent _
          obtain ⟨hτ, hp'⟩ := ih hσ parent
          exact ⟨hτ, hp.trans hp'⟩
      · exact ⟨h, Prunes.refl σ⟩

end TypedScript.Store
