import TypedScript.Proofs.Store.Typing

namespace TypedScript.Store

structure Contains (V : Value → Prop) (M : Member → Prop) (σ : Store) : Prop where
  bound : ∀ {j s x v}, σ.scope? j = some s → s.bindings.get? x = some v → V v
  members : ∀ {k m}, σ.members.get? k = some m → M m

namespace Contains

variable {V : Value → Prop} {M : Member → Prop} {σ τ : Store}

theorem initial : Store.initial.Contains V M := by
  refine ⟨fun {j s x v} hs hv => ?_, nofun⟩
  obtain ⟨_ | i⟩ := j
  · cases hs
    cases hv
  · cases hs

theorem retains (h : σ.Contains V M) (hr : σ.Retains τ) : τ.Contains V M := by
  refine ⟨fun ht hv => ?_, fun hm => h.members (hr.members ▸ hm)⟩
  obtain ⟨s, hs, -, -, hb⟩ := hr.back ht
  exact h.bound hs (hb ▸ hv)

theorem openScope (h : σ.Contains V M) (parent : Slot) : (σ.openScope parent).2.Contains V M := by
  refine ⟨fun ht hv => ?_, fun hm => h.members (openScope_members σ parent ▸ hm)⟩
  obtain he | ⟨s, hs, hb⟩ := openScope_bindings σ parent ht
  · rw [he] at hv
    cases hv
  · exact h.bound hs (hb ▸ hv)

theorem bind (h : σ.Contains V M) {v : Value} (hv : V v) (id : Slot) (x : String) :
    (σ.bind id x v).Contains V M := by
  refine ⟨fun {j s y w} hs hw => ?_, h.members⟩
  rw [scope?_bind] at hs
  split at hs
  · obtain ⟨s', hs', rfl⟩ := Option.map_eq_some_iff.1 hs
    rw [Dict.get?_insert] at hw
    split at hw
    · cases hw
      exact hv
    · exact h.bound hs' hw
  · exact h.bound hs hw

theorem insertMember (h : σ.Contains V M) {m : Member} (hm : M m) (k : Ty × String) :
    ({ σ with members := σ.members.insert k m } : Store).Contains V M := by
  refine ⟨h.bound, fun {k' m'} hmem => ?_⟩
  rw [Dict.get?_insert] at hmem
  split at hmem
  · cases hmem
    exact hm
  · exact h.members hmem

theorem lookup? (h : σ.Contains V M) {id : Slot} {x : String} {v : Value}
    (hv : σ.lookup? id x = some v) : V v := by
  rw [Store.lookup?] at hv
  split at hv
  · cases hv
  · obtain ⟨s, hs, hv⟩ := Option.bind_eq_some_iff.1 hv
    exact h.bound hs hv

end Contains

end TypedScript.Store
