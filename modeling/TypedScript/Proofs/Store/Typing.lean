import TypedScript.Proofs.Store.Chain
import TypedScript.Proofs.Store.History
import TypedScript.Proofs.Store.Keep
import TypedScript.Proofs.Value.Typing

namespace TypedScript

/-- What a scope binds once all its definitions have been made, and the stamp of the scope
around it. -/
structure Frame where
  names : String → Option Ty
  outer : Option Nat

abbrev Layout : Type := Nat → Option Frame

def Layout.add (L : Layout) (stamp : Nat) (F : Frame) : Layout := fun k =>
  if k = stamp then some F else L k

theorem Layout.add_self (L : Layout) (stamp : Nat) (F : Frame) : L.add stamp F stamp = some F :=
  if_pos rfl

theorem Layout.add_of_ne (L : Layout) {stamp k : Nat} (F : Frame) (h : k ≠ stamp) :
    L.add stamp F k = L k := if_neg h

def Layout.Below (L : Layout) (stamp : Nat) : Prop := ∀ k F, L k = some F → k < stamp

namespace Store

def Binds (σ : Store) (stamp : Nat) (x : String) : Prop :=
  ∀ j s, σ.scope? j = some s → s.stamp = stamp → s.bindings.contains x = true

def Lacks (σ : Store) (stamp : Nat) (x : String) : Prop :=
  ∀ j s, σ.scope? j = some s → s.stamp = stamp → s.bindings.contains x = false

/-- Whatever is still to be defined, a name has the type `t` seen from a scope. -/
inductive Safe (L : Layout) (σ : Store) (x : String) (t : Ty) : Nat → Prop
  | here {k F} : L k = some F → F.names x = some t → σ.Binds k x → Safe L σ x t k
  | outer {k F p} : L k = some F → (∀ u, F.names x = some u → u = t) → F.outer = some p →
    Safe L σ x t p → Safe L σ x t k

/-- As things stand, a name has the type `t` seen from a scope. -/
inductive Finds (L : Layout) (σ : Store) (x : String) (t : Ty) : Nat → Prop
  | here {k F} : L k = some F → F.names x = some t → σ.Binds k x → Finds L σ x t k
  | outer {k F p} : L k = some F → σ.Lacks k x → F.outer = some p → Finds L σ x t p →
    Finds L σ x t k

end Store

variable (M : Dict (Ty × String) Ty) (L : Layout) (σ : Store)

structure Closure.TypedIn (f : Closure) (bs : List (String × Ty)) (Γ Δ : Context) : Prop
    extends f.Accepted M bs Γ Δ where
  settled : f.body.settled = true
  bound : ∀ b ∈ bs, Γ.local? b.1 = some b.2
  unbound : ∀ x, x ∉ bs.map Prod.fst → Γ.local? x = none
  safe : ∀ u ∈ outside (f.body.uses true) bs, Store.Safe L σ u.1 u.2 f.home.stamp

abbrev Value.HasTy (v : Value) (t : Ty) : Prop :=
  v.TypedBy (fun f bs => ∃ Γ Δ, f.TypedIn M L σ bs Γ Δ) t

abbrev Member.HasTy (t : Ty) (m : Member) (u : Ty) : Prop :=
  m.TypedBy (fun f bs => ∃ Γ Δ, f.TypedIn M L σ bs Γ Δ) t u

structure Store.Fits : Prop where
  frame : ∀ {j s}, σ.scope? j = some s →
    ∃ F, L s.stamp = some F ∧ F.outer = s.parent.bind fun p => (σ.scope? p).map Scope.stamp
  typed : ∀ {j s F x v}, σ.scope? j = some s → L s.stamp = some F → s.bindings.get? x = some v →
    ∃ t, F.names x = some t ∧ v.HasTy M L σ t
  members : ∀ {t x m}, σ.members.get? (t, x) = some m →
    ∃ u, M.get? (t, x) = some u ∧ m.HasTy M L σ t u
  old : L.Below σ.fresh

/-- A store has come from another by steps that define nothing but `xs` in the scope with the
stamp `k`, besides what is in scopes that are new. -/
structure Store.Evolves (k : Nat) (xs : List String) (L' : Layout) (σ' : Store) : Prop where
  continues : σ.Continues σ'
  layout : ∀ {j F}, L j = some F → L' j = some F
  keeps : ∀ {j s t x}, σ.scope? j = some s → σ'.scope? j = some t → s.stamp = t.stamp →
    s.bindings.contains x = true → t.bindings.contains x = true
  adds : ∀ {j s t x}, σ.scope? j = some s → σ'.scope? j = some t → s.stamp = t.stamp →
    t.bindings.contains x = true → s.bindings.contains x = true ∨ t.stamp = k ∧ x ∈ xs

variable {M L σ}

namespace Store

variable {L' L'' : Layout} {σ' σ'' : Store} {k : Nat} {xs ys : List String} {x : String} {t : Ty}

namespace Evolves

theorem refl (L : Layout) (σ : Store) (k : Nat) (xs : List String) : Evolves L σ k xs L σ where
  continues := .refl σ
  layout h := h
  keeps hs ht _ hx := by
    rw [hs] at ht
    cases ht
    exact hx
  adds hs ht _ hx := by
    rw [hs] at ht
    cases ht
    exact .inl hx

theorem mono (h : Evolves L σ k xs L' σ') (hxs : ∀ x ∈ xs, x ∈ ys) : Evolves L σ k ys L' σ' :=
  ⟨h.continues, h.layout, h.keeps, fun hs ht he hx =>
    (h.adds hs ht he hx).imp_right fun hk => ⟨hk.1, hxs _ hk.2⟩⟩

theorem elsewhere (h : Evolves L σ k [] L' σ') (k' : Nat) (ys : List String) :
    Evolves L σ k' ys L' σ' :=
  ⟨h.continues, h.layout, h.keeps, fun hs ht he hx => .inl <|
    (h.adds hs ht he hx).resolve_right fun hk => nomatch hk.2⟩

theorem trans (hσ : σ.Tidy) (h : Evolves L σ k xs L' σ') (h' : Evolves L' σ' k xs L'' σ'') :
    Evolves L σ k xs L'' σ'' where
  continues := h.continues.trans h'.continues
  layout hF := h'.layout (h.layout hF)
  keeps {j s t x} hs ht he hx := by
    obtain ⟨u, hu, hut, -⟩ := h'.continues.back ht
      (Nat.lt_of_lt_of_le (he ▸ hσ.stamp_lt hs) h.continues.fresh)
    exact h'.keeps hu ht hut (h.keeps hs hu (he.trans hut.symm) hx)
  adds {j s t x} hs ht he hx := by
    obtain ⟨u, hu, hut, -⟩ := h'.continues.back ht
      (Nat.lt_of_lt_of_le (he ▸ hσ.stamp_lt hs) h.continues.fresh)
    obtain hx | hx := h'.adds hu ht hut hx
    · exact (h.adds hs hu (he.trans hut.symm) hx).imp_right fun hk => ⟨hut ▸ hk.1, hk.2⟩
    · exact .inr hx

theorem of_new (hσ : σ.Tidy) (h : Evolves L σ k xs L' σ') (hk : σ.fresh ≤ k) (k' : Nat) :
    Evolves L σ k' [] L' σ' := by
  refine ⟨h.continues, h.layout, h.keeps, fun hs ht he hx => ?_⟩
  refine (h.adds hs ht he hx).imp_right fun hx => ?_
  have := hσ.stamp_lt hs
  omega

theorem of_bindings (hL : ∀ {j F}, L j = some F → L' j = some F) (hc : σ.Continues σ')
    (hb : ∀ {j s t}, σ.scope? j = some s → σ'.scope? j = some t → s.stamp = t.stamp →
      s.bindings = t.bindings) (k : Nat) : Evolves L σ k [] L' σ' := by
  refine ⟨hc, hL, ?_, ?_⟩
  · intro j s t x hs ht hst hx
    rwa [← hb hs ht hst]
  · intro j s t x hs ht hst hx
    rw [← hb hs ht hst] at hx
    exact .inl hx

theorem binds (h : Evolves L σ k xs L' σ') {j : Nat} (hj : j < σ.fresh) (hb : σ.Binds j x) :
    σ'.Binds j x := by
  intro i t ht he
  obtain ⟨s, hs, hst, -⟩ := h.continues.back ht (he ▸ hj)
  exact h.keeps hs ht hst (hb i s hs (hst.trans he))

theorem lacks (h : Evolves L σ k xs L' σ') {j : Nat} (hj : j < σ.fresh) (hx : x ∉ xs)
    (hl : σ.Lacks j x) : σ'.Lacks j x := by
  intro i t ht he
  obtain ⟨s, hs, hst, -⟩ := h.continues.back ht (he ▸ hj)
  refine Bool.eq_false_iff.2 fun hc => ?_
  obtain hc | hc := h.adds hs ht hst hc
  · rw [hl i s hs (hst.trans he)] at hc
    cases hc
  · exact hx hc.2

theorem safe (h : Evolves L σ k xs L' σ') (hold : L.Below σ.fresh) {j : Nat}
    (hs : Safe L σ x t j) : Safe L' σ' x t j := by
  induction hs with
  | here hF hx hb => exact .here (h.layout hF) hx (h.binds (hold _ _ hF) hb)
  | outer hF hx ho _ ih => exact .outer (h.layout hF) hx ho ih

theorem finds (h : Evolves L σ k xs L' σ') (hold : L.Below σ.fresh)
    (hx : x ∉ xs) {j : Nat} (hs : Finds L σ x t j) : Finds L' σ' x t j := by
  induction hs with
  | here hF hn hb => exact .here (h.layout hF) hn (h.binds (hold _ _ hF) hb)
  | outer hF hl ho _ ih => exact .outer (h.layout hF) (h.lacks (hold _ _ hF) hx hl) ho ih

theorem closure (h : Evolves L σ k xs L' σ') (hold : L.Below σ.fresh)
    {f : Closure} {bs : List (String × Ty)} {Γ Δ : Context} (hf : f.TypedIn M L σ bs Γ Δ) :
    f.TypedIn M L' σ' bs Γ Δ :=
  { hf with safe := fun u hu => h.safe hold (hf.safe u hu) }

theorem value (h : Evolves L σ k xs L' σ') (hold : L.Below σ.fresh)
    {v : Value} (hv : v.HasTy M L σ t) : v.HasTy M L' σ' t :=
  hv.mono fun _ _ ⟨Γ, Δ, hf⟩ => ⟨Γ, Δ, h.closure hold hf⟩

theorem member (h : Evolves L σ k xs L' σ') (hold : L.Below σ.fresh)
    {m : Member} {u : Ty} (hm : m.HasTy M L σ t u) : m.HasTy M L' σ' t u :=
  hm.mono fun _ _ ⟨Γ, Δ, hf⟩ => ⟨Γ, Δ, h.closure hold hf⟩

end Evolves

theorem Safe.finds (hσ : σ.Tidy) (hf : σ.Fits M L) (h : Safe L σ x t k) : Finds L σ x t k := by
  induction h with
  | here hF hx hb => exact .here hF hx hb
  | @outer k F p hF hx ho _ ih =>
    by_cases hc : ∃ j s, σ.scope? j = some s ∧ s.stamp = k ∧ s.bindings.contains x = true
    · obtain ⟨j, s, hs, rfl, hc⟩ := hc
      obtain ⟨v, hv⟩ := Option.isSome_iff_exists.1 hc
      obtain ⟨u, hu, -⟩ := hf.typed hs hF hv
      cases hx u hu
      refine .here hF hu fun i s' hs' he => ?_
      cases hσ.stamp_inj hs' hs he
      rw [hs] at hs'
      cases hs'
      exact hc
    · refine .outer hF (fun j s hs he => Bool.eq_false_iff.2 fun hb => hc ⟨j, s, hs, he, hb⟩) ho ih

theorem Finds.binder? (hσ : σ.Tidy) (hf : σ.Fits M L) (h : Finds L σ x t k) {id found : Slot}
    {s : Scope} (hs : σ.scope? id = some s) (hk : s.stamp = k)
    (hb : σ.binder? id x = some found) :
    ∃ u F, σ.scope? found = some u ∧ L u.stamp = some F ∧ F.names x = some t ∧
      u.bindings.contains x = true := by
  induction h generalizing id s with
  | @here k F hF hx hbinds =>
    subst hk
    have hc := hbinds id s hs rfl
    rw [hσ.binder?_eq x hs, if_pos hc] at hb
    cases hb
    exact ⟨s, F, hs, hF, hx, hc⟩
  | @outer k F p hF hl ho _ ih =>
    subst hk
    rw [hσ.binder?_eq x hs, if_neg (Bool.eq_false_iff.1 (hl id s hs rfl))] at hb
    obtain ⟨q, hq, hb⟩ := Option.bind_eq_some_iff.1 hb
    obtain ⟨u, hu, -⟩ := hσ.parent_older hs hq
    obtain ⟨F', hF', ho'⟩ := hf.frame hs
    rw [hF] at hF'
    cases hF'
    rw [ho, hq, Option.bind_some, hu] at ho'
    exact ih hu (Option.some.inj ho').symm hb

theorem Finds.lookup? (hσ : σ.Tidy) (hf : σ.Fits M L) (h : Finds L σ x t k) {id : Slot}
    {s : Scope} (hs : σ.scope? id = some s) (hk : s.stamp = k) {v : Value}
    (hv : σ.lookup? id x = some v) : v.HasTy M L σ t := by
  rw [Store.lookup?] at hv
  split at hv
  · cases hv
  · rename_i found hb
    obtain ⟨u, F, hu, hF, hx, -⟩ := h.binder? hσ hf hs hk hb
    rw [hu, Option.bind_some] at hv
    obtain ⟨t', ht', hty⟩ := hf.typed hu hF hv
    rw [hx] at ht'
    cases ht'
    exact hty

namespace Fits

theorem frame_of_old (h : σ.Fits M L) (hσ' : σ'.Tidy) (he : Evolves L σ k xs L' σ') {j : Slot}
    {u : Scope} (hu : σ'.scope? j = some u) (hlt : u.stamp < σ.fresh) :
    ∃ F, L' u.stamp = some F ∧ F.outer = u.parent.bind fun p => (σ'.scope? p).map Scope.stamp := by
  obtain ⟨s, hs, hst, hp⟩ := he.continues.back hu hlt
  obtain ⟨F, hF, ho⟩ := h.frame hs
  refine ⟨F, he.layout (hst ▸ hF), ?_⟩
  rw [ho, hp]
  cases hq : u.parent with
  | none => rfl
  | some q =>
    obtain ⟨w', hw', hlt'⟩ := hσ'.parent_older hu hq
    obtain ⟨w, hw, hww, -⟩ := he.continues.back hw' (Nat.lt_trans hlt' hlt)
    rw [Option.bind_some, Option.bind_some, hw, hw', Option.map_some, Option.map_some, hww]

theorem initial (M : Dict (Ty × String) Ty) (names : String → Option Ty) :
    Store.initial.Fits M (Layout.add (fun _ => none) 0 ⟨names, none⟩) := by
  have hscope : ∀ {j s}, Store.initial.scope? j = some s → s = ⟨.empty, none, true, 0, 0⟩ := by
    intro j s hs
    obtain ⟨_ | i⟩ := j
    · cases hs
      rfl
    · cases hs
  refine ⟨fun hs => ?_, fun hs _ hv => ?_, nofun, fun k F hF => ?_⟩
  · cases hscope hs
    exact ⟨_, Layout.add_self _ _ _, rfl⟩
  · cases hscope hs
    cases hv
  · by_cases hk : k = 0
    · subst hk
      exact Nat.zero_lt_one
    · rw [Layout.add_of_ne _ _ hk] at hF
      cases hF

end Fits

structure Retains (σ σ' : Store) : Prop where
  back : ∀ {j t}, σ'.scope? j = some t → ∃ s, σ.scope? j = some s ∧ s.stamp = t.stamp ∧
    s.parent = t.parent ∧ s.bindings = t.bindings
  members : σ'.members = σ.members
  fresh : σ.fresh ≤ σ'.fresh

namespace Retains

theorem refl (σ : Store) : σ.Retains σ := ⟨fun ht => ⟨_, ht, rfl, rfl, rfl⟩, rfl, Nat.le_refl _⟩

theorem trans (h : σ.Retains σ') (h' : σ'.Retains σ'') : σ.Retains σ'' := by
  refine ⟨fun hu => ?_, h'.members.trans h.members, Nat.le_trans h.fresh h'.fresh⟩
  obtain ⟨t, ht, hst, hp, hb⟩ := h'.back hu
  obtain ⟨s, hs, hst', hp', hb'⟩ := h.back ht
  exact ⟨s, hs, hst'.trans hst, hp'.trans hp, hb'.trans hb⟩

theorem withCells (σ : Store) (cells : Cells) : σ.Retains { σ with cells } :=
  ⟨fun ht => ⟨_, ht, rfl, rfl, rfl⟩, rfl, Nat.le_refl _⟩

theorem withFresh (σ : Store) : σ.Retains { σ with fresh := σ.fresh + 1 } :=
  ⟨fun ht => ⟨_, ht, rfl, rfl, rfl⟩, rfl, Nat.le_succ _⟩

theorem deactivate (σ : Store) (id : Slot) : σ.Retains (σ.deactivate id) := by
  refine ⟨fun ht => ?_, rfl, Nat.le_refl _⟩
  rw [Store.deactivate, scope?_modifyScope] at ht
  split at ht
  · rename_i hj
    subst hj
    obtain ⟨a, ha, rfl⟩ := Option.map_eq_some_iff.1 ht
    exact ⟨a, ha, rfl, rfl, rfl⟩
  · exact ⟨_, ht, rfl, rfl, rfl⟩

theorem of_prunes (h : σ.Prunes σ') : σ.Retains σ' := by
  refine ⟨fun ht => ?_, h.members, Nat.le_of_eq h.fresh.symm⟩
  obtain ⟨s, hs, he⟩ := h.back ht
  exact ⟨s, hs, by rw [he], by rw [he], by rw [he]⟩

theorem sweep (σ : Store) (garbage : List (Nat × Scope)) : σ.Retains (σ.sweep garbage) := by
  refine ⟨fun ht => ?_, sweep_members garbage σ, Nat.le_of_eq (sweep_fresh garbage σ).symm⟩
  obtain ⟨-, s, hs, rfl⟩ := sweep_back ht
  exact ⟨s, hs, rfl, rfl, rfl⟩

theorem giveBack (roots : Roots) (n : Nat) (id : Slot) (σ : Store) :
    σ.Retains (σ.giveBack roots n id) := by
  induction n generalizing id σ with
  | zero => exact .refl σ
  | succ n ih =>
    rw [giveBack_succ]
    split
    · exact .refl σ
    · split
      · split
        · exact .sweep σ _
        · exact (sweep σ _).trans (ih _ _)
      · exact .refl σ

theorem collect (σ : Store) (roots : Roots) : σ.Retains (σ.collect roots) := by
  rw [collect_eq]
  exact ⟨(sweep σ _).back, (sweep σ _).members, (sweep σ _).fresh⟩

theorem close (σ : Store) (roots : Roots) (id : Slot) : σ.Retains (σ.close roots id) := by
  rw [Store.close]
  split
  · exact .refl σ
  · have h := (deactivate σ id).trans (giveBack roots (σ.live + 1) id (σ.deactivate id))
    dsimp only
    split
    · exact h.trans (collect _ roots)
    · exact h

theorem of_close {R : Reclaimer} (hR : R.Sound) {roots : Roots} (hσ : σ.Intact roots) (id : Slot) :
    σ.Retains (R.close σ roots id) := (deactivate σ id).trans (.of_prunes (hR.prunes id hσ))

theorem evolves (h : σ.Retains σ') (L : Layout) (k : Nat) : Evolves L σ k [] L σ' := by
  refine .of_bindings (fun hF => hF) (.of_scopes h.fresh fun ht => ?_) (fun hs ht _ => ?_) k
  · obtain ⟨s, hs, hst, hp, -⟩ := h.back ht
    exact ⟨s, hs, hst, hp⟩
  · obtain ⟨s', hs', -, -, hb⟩ := h.back ht
    rw [hs] at hs'
    cases hs'
    exact hb

theorem fits (h : σ.Retains σ') (hσ : σ.Tidy) (hσ' : σ'.Tidy) (hf : σ.Fits M L) :
    σ'.Fits M L := by
  have he := h.evolves L 0
  refine ⟨fun {j t} ht => ?_, fun {j t F x v} ht hF hv => ?_, fun {t x m} hm => ?_,
    fun k F hF => ?_⟩
  · obtain ⟨s, hs, hst, -⟩ := h.back ht
    exact hf.frame_of_old hσ' he ht (hst ▸ hσ.stamp_lt hs)
  · obtain ⟨s, hs, hst, -, hb⟩ := h.back ht
    rw [← hst] at hF
    rw [← hb] at hv
    obtain ⟨u, hu, hty⟩ := hf.typed hs hF hv
    exact ⟨u, hu, he.value hf.old hty⟩
  · rw [h.members] at hm
    obtain ⟨u, hu, hty⟩ := hf.members hm
    exact ⟨u, hu, he.member hf.old hty⟩
  · exact Nat.lt_of_lt_of_le (hf.old _ _ hF) h.fresh

end Retains

theorem evolves_insertMember (L : Layout) (σ : Store) (key : Ty × String) (m : Member) (k : Nat) :
    Evolves L σ k [] L { σ with members := σ.members.insert key m } := by
  apply Evolves.of_bindings (fun hF => hF)
  · exact .of_scopes (Nat.le_refl σ.fresh) fun ht => ⟨_, ht, rfl, rfl⟩
  · intro j s u hs hu _
    cases hs.symm.trans hu
    rfl

theorem Fits.insertMember (h : σ.Fits M L) {x : String} {m : Member} {u : Ty}
    (hu : M.get? (t, x) = some u) (hm : m.HasTy M L σ t u) :
    ({ σ with members := σ.members.insert (t, x) m } : Store).Fits M L := by
  have he := evolves_insertMember L σ (t, x) m 0
  refine ⟨h.frame, fun {j s F x v} hj hF hv => ?_, fun {t' x' m'} hmem => ?_, h.old⟩
  · obtain ⟨t, ht, hty⟩ := h.typed hj hF hv
    exact ⟨t, ht, he.value h.old hty⟩
  · rw [Dict.get?_insert] at hmem
    split at hmem
    · rename_i heq
      cases heq
      cases hmem
      exact ⟨u, hu, he.member h.old hm⟩
    · obtain ⟨u', hu', hty⟩ := h.members hmem
      exact ⟨u', hu', he.member h.old hty⟩

theorem evolves_bind (L : Layout) {id : Slot} {s : Scope} (hs : σ.scope? id = some s) (x : String)
    (v : Value) : Evolves L σ s.stamp [x] L (σ.bind id x v) := by
  refine ⟨.bind σ id x v, fun h => h, ?_, ?_⟩
  · intro j a b y ha hb _ hy
    rw [scope?_bind] at hb
    split at hb
    · rename_i hij
      subst hij
      rw [ha] at hb
      cases hb
      rw [Dict.contains, Dict.get?_insert]
      split
      · rfl
      · exact hy
    · rw [ha] at hb
      cases hb
      exact hy
  · intro j a b y ha hb _ hy
    rw [scope?_bind] at hb
    split at hb
    · rename_i hij
      subst hij
      rw [ha] at hb hs
      cases hb
      cases hs
      rw [Dict.contains, Dict.get?_insert] at hy
      split at hy
      · rename_i hxy
        exact .inr ⟨rfl, List.mem_singleton.2 hxy.symm⟩
      · exact .inl hy
    · rw [ha] at hb
      cases hb
      exact .inl hy

theorem evolves_rebind (hσ : σ.Tidy) {id : Slot} {s : Scope} (hs : σ.scope? id = some s)
    (hx : s.bindings.contains x = true) (v : Value) (k : Nat) :
    Evolves L σ k [] L (σ.bind id x v) := by
  have he := evolves_bind L hs x v
  refine ⟨he.continues, he.layout, he.keeps, fun {j a b y} ha hb hst hy => ?_⟩
  obtain hy | ⟨hb', hy⟩ := he.adds ha hb hst hy
  · exact .inl hy
  · cases List.mem_singleton.1 hy
    cases hσ.stamp_inj ha hs (hst.trans hb')
    rw [hs] at ha
    cases ha
    exact .inl hx

theorem binds_bind (hσ : σ.Tidy) {id : Slot} {s : Scope} (hs : σ.scope? id = some s) (x : String)
    (v : Value) : (σ.bind id x v).Binds s.stamp x := by
  intro j b hb hst
  rw [scope?_bind] at hb
  split at hb
  · rw [hs] at hb
    cases hb
    rw [Dict.contains, Dict.get?_insert_self]
    rfl
  · rename_i hij
    exact absurd (hσ.stamp_inj hs hb hst.symm) hij

theorem Fits.bind (h : σ.Fits M L) (hσ : σ.Tidy) {id : Slot} {s : Scope}
    (hs : σ.scope? id = some s) {F : Frame} (hF : L s.stamp = some F) (hx : F.names x = some t)
    {v : Value} (hv : v.HasTy M L (σ.bind id x v) t) : (σ.bind id x v).Fits M L := by
  have he := evolves_bind L hs x v
  refine ⟨fun {j b} hb => ?_, fun {j b G y w} hb hG hw => ?_, fun {t x m} hmem => ?_, h.old⟩
  · have hlt : b.stamp < σ.fresh := (hσ.bind id x v).stamp_lt hb
    exact h.frame_of_old (hσ.bind id x v) he hb hlt
  · rw [scope?_bind] at hb
    split at hb
    · rename_i hij
      subst hij
      rw [hs] at hb
      cases hb
      rw [hF] at hG
      cases hG
      rw [Dict.get?_insert] at hw
      split at hw
      · rename_i hxy
        subst hxy
        cases hw
        exact ⟨t, hx, hv⟩
      · obtain ⟨u, hu, hty⟩ := h.typed hs hF hw
        exact ⟨u, hu, he.value h.old hty⟩
    · obtain ⟨u, hu, hty⟩ := h.typed hb hG hw
      exact ⟨u, hu, he.value h.old hty⟩
  · obtain ⟨u, hu, hty⟩ := h.members (m := m) hmem
    exact ⟨u, hu, he.member h.old hty⟩

section openScope

variable {parent : Slot} {a : Scope}

theorem openScope_old (σ : Store) (parent : Slot) {j : Slot} {b : Scope}
    (hb : (σ.openScope parent).2.scope? j = some b) :
    b.bindings = .empty ∨
      ∃ s, σ.scope? j = some s ∧ s.stamp = b.stamp ∧ s.bindings = b.bindings := by
  have hold : ∀ u, (σ.modifyScope parent fun s => { s with children := s.children + 1 }).scope? j =
      some u → ∃ s, σ.scope? j = some s ∧ s.stamp = u.stamp ∧ s.bindings = u.bindings := by
    intro u hu
    rw [scope?_modifyScope] at hu
    split at hu
    · obtain ⟨s, hs, rfl⟩ := Option.map_eq_some_iff.1 hu
      exact ⟨s, ‹parent = j› ▸ hs, rfl, rfl⟩
    · exact ⟨u, hu, rfl, rfl⟩
  simp only [openScope] at hb
  split at hb <;> rw [scope?] at hb
  · rw [Array.getElem?_setIfInBounds] at hb
    split at hb
    · split at hb <;> cases hb
      exact .inl rfl
    · exact .inr (hold b hb)
  · rw [Array.getElem?_push] at hb
    split at hb
    · cases hb
      exact .inl rfl
    · exact .inr (hold b hb)

theorem openScope_bindings (σ : Store) (parent : Slot) {j : Slot} {b : Scope}
    (hb : (σ.openScope parent).2.scope? j = some b) :
    b.bindings = .empty ∨ ∃ s, σ.scope? j = some s ∧ s.bindings = b.bindings :=
  (openScope_old σ parent hb).imp id fun ⟨s, hs, _, hbind⟩ => ⟨s, hs, hbind⟩

theorem Tidy.openScope_bindings (hσ : σ.Tidy) {j : Slot} {b : Scope}
    (hb : (σ.openScope parent).2.scope? j = some b) :
    b = ⟨.empty, some parent, true, 0, σ.fresh⟩ ∨
      ∃ s, σ.scope? j = some s ∧ s.stamp = b.stamp ∧ s.bindings = b.bindings := by
  rw [scope?_openScope hσ.freeIsEmpty] at hb
  split at hb
  · cases hb
    exact .inl rfl
  · split at hb
    · rename_i hj
      subst hj
      obtain ⟨s, hs, rfl⟩ := Option.map_eq_some_iff.1 hb
      exact .inr ⟨s, hs, rfl, rfl⟩
    · exact .inr ⟨b, hb, rfl, rfl⟩

theorem evolves_openScope (hσ : σ.Tidy) (hold : L.Below σ.fresh)
    (parent : Slot) (F : Frame) (k : Nat) :
    Evolves L σ k [] (L.add σ.fresh F) (σ.openScope parent).2 := by
  refine .of_bindings (fun {j G} hG => ?_) (.openScope hσ.freeIsEmpty parent)
    (fun hs hb hst => ?_) k
  · rwa [Layout.add_of_ne L F (Nat.ne_of_lt (hold _ _ hG))]
  · obtain rfl | ⟨s', hs', -, hbind⟩ := hσ.openScope_bindings hb
    · exact absurd hst (Nat.ne_of_lt (hσ.stamp_lt hs))
    · rw [hs] at hs'
      cases hs'
      exact hbind

theorem Fits.openScope (h : σ.Fits M L) (hσ : σ.Tidy) (ha : σ.scope? parent = some a)
    (names : String → Option Ty) :
    (σ.openScope parent).2.Fits M (L.add σ.fresh ⟨names, some a.stamp⟩) := by
  have he := evolves_openScope hσ h.old parent ⟨names, some a.stamp⟩ 0
  have hσ' := hσ.openScope ha
  refine ⟨fun {j b} hb => ?_, fun {j b F y w} hb hF hw => ?_, fun {t x m} hmem => ?_,
    fun k F hF => ?_⟩
  · obtain rfl | ⟨s, hs, hst, -⟩ := hσ.openScope_bindings hb
    · obtain ⟨a', ha', -, hst⟩ := openScope_forth hσ.freeIsEmpty parent ha
      refine ⟨_, Layout.add_self _ _ _, ?_⟩
      rw [Option.bind_some, ha', Option.map_some, hst]
    · exact h.frame_of_old hσ' he hb (hst ▸ hσ.stamp_lt hs)
  · obtain rfl | ⟨s, hs, hst, hbind⟩ := hσ.openScope_bindings hb
    · cases hw
    · have hlt := hσ.stamp_lt hs
      rw [Layout.add_of_ne L _ (by omega), ← hst] at hF
      rw [← hbind] at hw
      obtain ⟨u, hu, hty⟩ := h.typed hs hF hw
      exact ⟨u, hu, he.value h.old hty⟩
  · rw [openScope_members] at hmem
    obtain ⟨u, hu, hty⟩ := h.members hmem
    exact ⟨u, hu, he.member h.old hty⟩
  · rw [openScope_fresh]
    by_cases hk : k = σ.fresh
    · omega
    · rw [Layout.add_of_ne L _ hk] at hF
      exact Nat.lt_succ_of_lt (h.old _ _ hF)

end openScope

end Store

end TypedScript
