import TypedScript.Proofs.Store.Collect

namespace TypedScript

namespace Roots

def plus (r : Roots) (vs : List Value) : Roots := { r with values := vs ++ r.values }

structure Within (Q P : Roots) : Prop where
  values : ∀ v ∈ Q.values, ∀ a ∈ v.functions, ∃ u ∈ P.values, a ∈ u.functions
  handles : ∀ x ∈ Q.handles, x ∈ P.handles

namespace Within

variable {P Q : Roots}

theorem refl (P : Roots) : P.Within P := ⟨fun v hv _ ha => ⟨v, hv, ha⟩, fun _ hx => hx⟩

theorem plus_right (h : Q.Within P) (vs : List Value) : Q.Within (P.plus vs) where
  values v hv a ha := by
    obtain ⟨u, hu, ha⟩ := h.values v hv a ha
    exact ⟨u, List.mem_append_right _ hu, ha⟩
  handles := h.handles

theorem plus (h : Q.Within P) {vs : List Value} (ws : List Value)
    (hv : ∀ v ∈ vs, ∀ a ∈ v.functions, ∃ u ∈ ws ++ P.values, a ∈ u.functions) :
    (Q.plus vs).Within (P.plus ws) where
  values v hmem a ha := by
    obtain hmem | hmem := List.mem_append.1 hmem
    · exact hv v hmem a ha
    · exact (h.plus_right ws).values v hmem a ha
  handles := h.handles

theorem plus_same (h : Q.Within P) (vs : List Value) : (Q.plus vs).Within (P.plus vs) :=
  h.plus vs fun v hv _ ha => ⟨v, List.mem_append_left _ hv, ha⟩

theorem plus_left (h : Q.Within P) {vs : List Value} (hv : ∀ v ∈ vs, v ∈ P.values) :
    (Q.plus vs).Within P :=
  h.plus [] fun v hmem _ ha => ⟨v, hv v hmem, ha⟩

theorem plus_plain (h : Q.Within P) {v : Value} (hv : v.functions = []) :
    (Q.plus [v]).Within P := by
  refine h.plus [] fun w hw a ha => ?_
  rw [List.mem_singleton.1 hw, hv] at ha
  cases ha

theorem plus_receiver (q : Roots) {u : Value} {f : Closure} {z : Option Value} (us : List Value)
    (hu : u.asFunction? = some (f, z)) :
    ((q.hold u).plus (z.toList ++ us)).Within ((q.hold u).plus us) := by
  refine .plus (.refl _) us fun e he a ha => ?_
  obtain he | he := List.mem_append.1 he
  · refine ⟨u, List.mem_append_right _ List.mem_cons_self, ?_⟩
    rw [Value.functions_of_asFunction? hu, Value.functions_ofFunction]
    exact List.mem_cons_of_mem _ (List.mem_flatMap.2 ⟨e, he, ha⟩)
  · exact ⟨e, List.mem_append_left _ he, ha⟩

end Within

end Roots

theorem Store.Intact.within {σ : Store} {P Q : Roots} (h : σ.Intact P) (hQ : Q.Within P) :
    σ.Intact Q := by
  refine h.transfer h.toTidy (Nat.le_refl _) (Store.knows_of_carries fun hv a ha => ?_)
    (hQ.handles _) (fun _ hx => hx) fun _ _ hx => hx
  obtain hv | hv | hv := Store.mem_referenced.1 hv
  · exact ⟨_, Store.mem_referenced.2 (.inl hv), ha⟩
  · exact ⟨_, Store.mem_referenced.2 (.inr (.inl hv)), ha⟩
  · obtain ⟨u, hu, ha⟩ := hQ.values _ hv a ha
    exact ⟨u, Store.mem_referenced.2 (.inr (.inr hu)), ha⟩

structure Store.Stays (σ τ : Store) : Prop where
  scope : ∀ {j s}, σ.scope? j = some s → s.active →
    ∃ t, τ.scope? j = some t ∧ t.active ∧ t.stamp = s.stamp

namespace Store.Stays

variable {σ τ υ : Store}

theorem refl (σ : Store) : σ.Stays σ := ⟨fun hs ha => ⟨_, hs, ha, rfl⟩⟩

theorem trans (h : σ.Stays τ) (h' : τ.Stays υ) : σ.Stays υ where
  scope hs ha := by
    obtain ⟨t, ht, hta, hst⟩ := h.scope hs ha
    obtain ⟨u, hu, hua, hut⟩ := h'.scope ht hta
    exact ⟨u, hu, hua, hut.trans hst⟩

theorem of_scopes (h : ∀ j, τ.scope? j = σ.scope? j) : σ.Stays τ where
  scope {j _} hs ha := ⟨_, (h j).trans hs, ha, rfl⟩

theorem bind (σ : Store) (id : Slot) (name : String) (v : Value) : σ.Stays (σ.bind id name v) where
  scope {j s} hs ha := by
    rw [scope?_bind]
    split
    · rename_i he
      subst he
      rw [hs]
      exact ⟨_, rfl, ha, rfl⟩
    · exact ⟨s, hs, ha, rfl⟩

theorem openScope (hf : σ.FreeIsEmpty) (parent : Slot) : σ.Stays (σ.openScope parent).2 where
  scope {j s} hs ha := by
    have hj : (σ.openScope parent).1 ≠ j := by
      intro he
      rw [← he, scope?_openScope_slot hf] at hs
      cases hs
    rw [scope?_openScope hf, if_neg hj]
    split
    · rename_i he
      subst he
      rw [hs]
      exact ⟨_, rfl, ha, rfl⟩
    · exact ⟨s, hs, ha, rfl⟩

end Store.Stays

/-- A reclaimer that ends the activity of a scope and beyond that takes away idle scopes only,
and none that something still needs. -/
structure Reclaimer.Sound (R : Reclaimer) : Prop where
  intact : ∀ {σ : Store} {roots : Roots} (id : Slot), σ.Intact roots →
    (R.close σ roots id).Intact roots
  prunes : ∀ {σ : Store} {roots : Roots} (id : Slot), σ.Intact roots →
    (σ.deactivate id).Prunes (R.close σ roots id)

namespace Reclaimer

theorem standard_sound : standard.Sound := ⟨fun id h => (h.close id).1, fun id h => (h.close id).2⟩

theorem never_sound : never.Sound := ⟨fun id h => h.deactivate id, fun _ _ => .refl _⟩

theorem eager_sound (due : Store → Bool) : (eager due).Sound := by
  constructor
  · intro σ roots id h
    rw [eager]
    dsimp only
    split
    · exact (h.close id).1.collect.1
    · exact (h.close id).1
  · intro σ roots id h
    rw [eager]
    dsimp only
    split
    · exact (h.close id).2.trans (h.close id).1.collect.2
    · exact (h.close id).2

theorem Sound.stays {R : Reclaimer} (hR : R.Sound) {σ τ : Store} {roots : Roots} {id : Slot}
    (h : τ.Intact roots) (hs : σ.Stays τ) (hid : σ.scope? id = none) :
    σ.Stays (R.close τ roots id) where
  scope {j s} hj ha := by
    obtain ⟨t, ht, hta, hst⟩ := hs.scope hj ha
    have hne : id ≠ j := by
      rintro rfl
      simp [hid] at hj
    have hd : (τ.deactivate id).scope? j = some t := by
      rw [Store.deactivate, Store.scope?_modifyScope, if_neg hne, ht]
    obtain ⟨u, hu⟩ := (hR.prunes id h).active hd hta
    obtain ⟨t', ht', he⟩ := (hR.prunes id h).back hu
    rw [hd] at ht'
    cases ht'
    exact ⟨u, hu, by rw [he]; exact hta, by rw [he]; exact hst⟩

end Reclaimer

end TypedScript
