import TypedScript.Proofs.Store.Typing

namespace TypedScript

namespace Store

/-- A store has come from another by steps that define nothing but `xs` in the scope with the
stamp `k`, besides what is in scopes that are new. -/
abbrev Advances (σ : Store) (k : Nat) (xs : List String) (σ' : Store) : Prop :=
  Evolves (fun _ => none) σ k xs (fun _ => none) σ'

/-- The scope with the stamp `k`, if it is still there, and those around it bind the names of
static scopes, each scope those of its own. -/
def Reflects (σ : Store) : List StaticScope → Nat → Prop
  | [], _ => True
  | S :: Ss, k => (∀ x, S.names.contains x = true → σ.Binds k x) ∧
    (Ss ≠ [] → ∀ j s, σ.scope? j = some s → s.stamp = k →
      ∃ p, s.parent = some p ∧ ∀ u, σ.scope? p = some u → σ.Reflects Ss u.stamp)

/-- The scope with the stamp `k` binds the names of the innermost static scope and no others. -/
structure Tracks (σ : Store) (Γ : Context) (k : Nat) : Prop where
  reflects : σ.Reflects Γ.scopes k
  lacks : ∀ x, Γ.local? x = none → σ.Lacks k x

end Store

structure Closure.Scoped (σ : Store) (f : Closure) (bs : List (String × Ty)) (Γ Γ₁ Γ₂ : Context) :
    Prop where
  parameters : f.parameters = bs.map Prod.fst
  bound : (Γ.enterFunction f.signature.result).bindAll? bs = some Γ₁
  body : f.body.check Γ₁ = some Γ₂
  old : f.home.stamp < σ.fresh
  reflects : σ.Reflects Γ.scopes f.home.stamp

def Value.Scoped (σ : Store) (v : Value) : Prop :=
  ∀ f ∈ v.closures, ∃ bs Γ Γ₁ Γ₂, f.Scoped σ bs Γ Γ₁ Γ₂

structure Store.Scoped (σ : Store) : Prop where
  bound : ∀ {j s x v}, σ.scope? j = some s → s.bindings.get? x = some v → v.Scoped σ
  members : ∀ {key m}, σ.members.get? key = some m → m.value.Scoped σ

theorem Value.scoped_of_plain {σ : Store} {v : Value} (h : v.functions = []) : v.Scoped σ := by
  intro f hf
  obtain ⟨a, ha, -⟩ := Value.mem_closures.1 hf
  rw [h] at ha
  cases ha

theorem Value.Scoped.closure {σ : Store} {v : Value} {f : Closure} {r : Option Value}
    (h : v.Scoped σ) (hf : v.asFunction? = some (f, r)) :
    ∃ bs Γ Γ₁ Γ₂, f.Scoped σ bs Γ Γ₁ Γ₂ := by
  rw [Value.functions_of_asFunction? hf] at h
  cases r with
  | none => exact h f List.mem_cons_self
  | some w => exact h f List.mem_cons_self

theorem Value.Scoped.receiver {σ : Store} {v w : Value} {f : Closure} {r : Option Value}
    (h : v.Scoped σ) (hf : v.asFunction? = some (f, r)) (hw : w ∈ r) : w.Scoped σ := by
  rw [Value.functions_of_asFunction? hf, Option.mem_def.1 hw] at h
  exact fun g hg => h g (List.mem_cons_of_mem f hg)

namespace Store

variable {σ σ' : Store} {k : Nat} {xs : List String}

namespace Tracks

variable {Γ Δ : Context} {ds : List (String × Ty)}

theorem grows (hΓ : Γ.Grows ds Δ) (hr : σ.Reflects Γ.scopes k)
    (hl : ∀ x, x ∉ ds.map Prod.fst → Γ.local? x = none → σ.Lacks k x)
    (hb : ∀ d ∈ ds, σ.Binds k d.1) : σ.Tracks Δ k where
  reflects := by
    rw [Context.scopes, hΓ.enclosing]
    refine ⟨fun x hx => ?_, hr.2⟩
    by_cases hd : x ∈ ds.map Prod.fst
    · obtain ⟨d, hmem, rfl⟩ := List.mem_map.1 hd
      exact hb d hmem
    · apply hr.1
      have hold : Δ.local? x = Γ.local? x := hΓ.old hd
      rw [Context.local?, Context.local?] at hold
      rwa [Dict.contains, ← hold]
  lacks x hx := by
    have hd : x ∉ ds.map Prod.fst := by
      intro hd
      obtain ⟨d, hmem, rfl⟩ := List.mem_map.1 hd
      rw [hΓ.new d hmem] at hx
      cases hx
    exact hl x hd (hΓ.old hd ▸ hx)

theorem congr (ht : σ.Tracks Γ k) (hΓ : Γ.Grows [] Δ) : σ.Tracks Δ k :=
  .grows hΓ ht.reflects (fun x _ => ht.lacks x) nofun

theorem initial : Store.initial.Tracks .initial 0 := by
  refine ⟨⟨nofun, fun h => absurd rfl h⟩, fun x _ j s hs _ => ?_⟩
  obtain ⟨_ | i⟩ := j
  · cases hs
    rfl
  · cases hs

end Tracks

namespace Advances

theorem trans {σ'' : Store} (hσ : σ.Tidy) (h : σ.Advances k xs σ') (h' : σ'.Advances k xs σ'') :
    σ.Advances k xs σ'' := Evolves.trans hσ h h'

theorem reflects (h : σ.Advances k xs σ') (hσ' : σ'.Tidy) {Ss : List StaticScope} {j : Nat}
    (hj : j < σ.fresh) (hr : σ.Reflects Ss j) : σ'.Reflects Ss j := by
  induction Ss generalizing j with
  | nil => trivial
  | cons S Ss ih =>
    refine ⟨fun x hx => h.binds hj (hr.1 x hx), fun hne i t ht hst => ?_⟩
    obtain ⟨s, hs, hss, hp⟩ := h.continues.back ht (hst ▸ hj)
    obtain ⟨p, hsp, hup⟩ := hr.2 hne i s hs (hss.trans hst)
    refine ⟨p, hp ▸ hsp, fun u hu => ?_⟩
    -- the parent is older than its child, so it has been there as well
    obtain ⟨u', hu', hlt⟩ := hσ'.parent_older ht (hp ▸ hsp)
    cases hu.symm.trans hu'
    obtain ⟨w, hw, hwu, -⟩ := h.continues.back hu (by omega)
    exact ih (by omega) (hwu ▸ hup w hw)

theorem closure (h : σ.Advances k xs σ') (hσ' : σ'.Tidy) {f : Closure} {bs : List (String × Ty)}
    {Γ Γ₁ Γ₂ : Context} (hf : f.Scoped σ bs Γ Γ₁ Γ₂) : f.Scoped σ' bs Γ Γ₁ Γ₂ :=
  { hf with
    old := Nat.lt_of_lt_of_le hf.old h.continues.fresh
    reflects := h.reflects hσ' hf.old hf.reflects }

theorem value (h : σ.Advances k xs σ') (hσ' : σ'.Tidy) {v : Value} (hv : v.Scoped σ) :
    v.Scoped σ' := by
  intro f hf
  obtain ⟨bs, Γ, Γ₁, Γ₂, hs⟩ := hv f hf
  exact ⟨bs, Γ, Γ₁, Γ₂, h.closure hσ' hs⟩

theorem tracks {ds : List (String × Ty)} {Γ Δ : Context} (h : σ.Advances k (ds.map Prod.fst) σ')
    (hσ' : σ'.Tidy) (hk : k < σ.fresh) (hΓ : Γ.Grows ds Δ) (ht : σ.Tracks Γ k)
    (hb : ∀ d ∈ ds, σ'.Binds k d.1) : σ'.Tracks Δ k :=
  .grows hΓ (h.reflects hσ' hk ht.reflects) (fun x hx hn => h.lacks hk hx (ht.lacks x hn)) hb

theorem still {Γ Δ : Context} (h : σ.Advances k [] σ') (hσ' : σ'.Tidy) (hk : k < σ.fresh)
    (hΓ : Γ.Grows [] Δ) (ht : σ.Tracks Γ k) : σ'.Tracks Δ k := h.tracks hσ' hk hΓ ht nofun

end Advances

theorem Reflects.binder? (hσ : σ.Tidy) {Ss : List StaticScope} {id : Slot} {s : Scope}
    (hs : σ.scope? id = some s) (h : σ.Reflects Ss s.stamp) {x : String} {t : Ty}
    (hx : Ss.findSome? (·.names.get? x) = some t) :
    ∃ found u, σ.binder? id x = some found ∧ σ.scope? found = some u ∧
      u.bindings.contains x = true := by
  induction Ss generalizing id s with
  | nil => cases hx
  | cons S Ss ih =>
    rw [hσ.binder?_eq x hs]
    by_cases hc : s.bindings.contains x = true
    · exact ⟨id, s, if_pos hc, hs, hc⟩
    · have hnone : S.names.get? x = none := by
        refine Option.not_isSome_iff_eq_none.1 fun hsome => hc ?_
        exact h.1 x hsome id s hs rfl
      rw [List.findSome?_cons, hnone] at hx
      obtain ⟨p, hp, hu⟩ := h.2 (by rintro rfl; cases hx) id s hs rfl
      obtain ⟨u, hu', -⟩ := hσ.parent_older hs hp
      rw [if_neg hc, hp, Option.bind_some]
      exact ih hu' (hu u hu') hx

namespace Scoped

theorem advances (h : σ.Scoped) (hσ' : σ'.Tidy) (he : σ.Advances k xs σ')
    (hbound : ∀ {j t x v}, σ'.scope? j = some t → t.bindings.get? x = some v →
      v.Scoped σ' ∨ ∃ i s, σ.scope? i = some s ∧ s.bindings.get? x = some v)
    (hmembers : ∀ {key m}, σ'.members.get? key = some m →
      m.value.Scoped σ' ∨ σ.members.get? key = some m) : σ'.Scoped where
  bound ht hv := by
    obtain hv | ⟨i, s, hs, hv⟩ := hbound ht hv
    · exact hv
    · exact he.value hσ' (h.bound hs hv)
  members hm := by
    obtain hm | hm := hmembers hm
    · exact hm
    · exact he.value hσ' (h.members hm)

theorem initial : Store.initial.Scoped := by
  refine ⟨fun {j s x v} hs hv => ?_, nofun⟩
  obtain ⟨_ | i⟩ := j
  · cases hs
    cases hv
  · cases hs

theorem retains (h : σ.Scoped) (hσ' : σ'.Tidy) (hr : σ.Retains σ') : σ'.Scoped := by
  refine h.advances hσ' (hr.evolves _ 0) (fun ht hv => .inr ?_) fun hm => .inr (hr.members ▸ hm)
  obtain ⟨s, hs, -, -, hb⟩ := hr.back ht
  exact ⟨_, s, hs, hb ▸ hv⟩

theorem bind (h : σ.Scoped) (hσ : σ.Tidy) {id : Slot} {s : Scope} (hs : σ.scope? id = some s)
    {x : String} {v : Value} (hv : v.Scoped (σ.bind id x v)) : (σ.bind id x v).Scoped := by
  refine h.advances (hσ.bind id x v) (evolves_bind _ hs x v) (fun {j t y w} ht hw => ?_)
    fun hm => .inr hm
  rw [scope?_bind] at ht
  split at ht
  · obtain ⟨a, ha, rfl⟩ := Option.map_eq_some_iff.1 ht
    rw [Dict.get?_insert] at hw
    split at hw
    · cases hw
      exact .inl hv
    · exact .inr ⟨_, a, ha, hw⟩
  · exact .inr ⟨j, t, ht, hw⟩

theorem insertMember (h : σ.Scoped) {key : Ty × String} {m : Member}
    (hσ' : ({ σ with members := σ.members.insert key m } : Store).Tidy)
    (hm : m.value.Scoped σ) : ({ σ with members := σ.members.insert key m } : Store).Scoped := by
  have he := evolves_insertMember (fun _ => none) σ key m 0
  refine h.advances hσ' he (fun ht hv => .inr ⟨_, _, ht, hv⟩) fun {key' m'} hmem => ?_
  rw [Dict.get?_insert] at hmem
  split at hmem
  · cases hmem
    exact .inl (Advances.value he hσ' hm)
  · exact .inr hmem

end Scoped

section openScope

variable {parent : Slot} {a : Scope}

theorem advances_openScope (hσ : σ.Tidy) (parent : Slot) (k : Nat) :
    σ.Advances k [] (σ.openScope parent).2 := by
  have he := evolves_openScope (L := fun _ => none) hσ nofun parent ⟨fun _ => none, none⟩ k
  exact ⟨he.continues, nofun, he.keeps, he.adds⟩

theorem Scoped.openScope (h : σ.Scoped) (hσ : σ.Tidy) (ha : σ.scope? parent = some a) :
    (σ.openScope parent).2.Scoped := by
  refine h.advances (hσ.openScope ha) (advances_openScope hσ parent 0) (fun {j b x v} hb hv => ?_)
    fun hm => .inr (openScope_members σ parent ▸ hm)
  obtain rfl | ⟨s, hs, -, hbind⟩ := hσ.openScope_bindings hb
  · cases hv
  · exact .inr ⟨j, s, hs, hbind ▸ hv⟩

theorem lacks_openScope (hσ : σ.Tidy) (parent : Slot) (x : String) :
    (σ.openScope parent).2.Lacks σ.fresh x := by
  intro j b hb hst
  obtain rfl | ⟨s, hs, hsb, -⟩ := hσ.openScope_bindings hb
  · rfl
  · exact absurd (hsb.trans hst) (Nat.ne_of_lt (hσ.stamp_lt hs))

theorem tracks_openScope (hσ : σ.Tidy) (ha : σ.scope? parent = some a) {Γ : Context}
    (hnew : Γ.current.names = .empty) (hr : σ.Reflects Γ.enclosing a.stamp) :
    (σ.openScope parent).2.Tracks Γ σ.fresh where
  reflects := by
    have he := advances_openScope hσ parent 0
    constructor
    · intro x hx
      rw [hnew] at hx
      cases hx
    · intro _ j b hb hst
      obtain rfl | ⟨s, hs, hsb, -⟩ := hσ.openScope_bindings hb
      · refine ⟨parent, rfl, fun u hu => ?_⟩
        obtain ⟨a', ha', -, hst⟩ := openScope_forth hσ.freeIsEmpty parent ha
        cases hu.symm.trans ha'
        exact hst ▸ Advances.reflects he (hσ.openScope ha) (hσ.stamp_lt ha) hr
      · exact absurd (hsb.trans hst) (Nat.ne_of_lt (hσ.stamp_lt hs))
  lacks x _ := lacks_openScope hσ parent x

end openScope

end Store

end TypedScript
