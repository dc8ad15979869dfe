import TypedScript.Proofs.Store.Chain
import TypedScript.Proofs.Store.Prune
import TypedScript.Proofs.Value.Rename

/-! Two stores that hold the same scopes in different slots, the second perhaps with more of
them. Scopes are told by their stamps. -/

namespace TypedScript.Store

def stampOf (σ : Store) (id : Slot) : Option Nat := (σ.scope? id).map Scope.stamp

/-- What there is to see of a scope but its stamp. -/
def portrait (σ : Store) (s : Scope) : Bool × Dict String Value × Option (Option Nat) :=
  (s.active, s.bindings.mapValues Value.placeless, s.parent.map σ.stampOf)

structure Mirrors (σ τ : Store) : Prop where
  fresh : τ.fresh = σ.fresh
  cells : τ.cells = σ.cells
  members : τ.members.mapValues Member.placeless = σ.members.mapValues Member.placeless
  twin : ∀ {j s}, σ.scope? j = some s → ∃ i t, τ.scope? i = some t ∧ t.stamp = s.stamp
  alike : ∀ {j s i t}, σ.scope? j = some s → τ.scope? i = some t → t.stamp = s.stamp →
    τ.portrait t = σ.portrait s

def Twins (σ τ : Store) (p q : Slot) : Prop :=
  ∃ s t, σ.scope? p = some s ∧ τ.scope? q = some t ∧ t.stamp = s.stamp

theorem stampOf_modifyScope (σ : Store) (id j : Slot) {f : Scope → Scope}
    (hf : ∀ s, (f s).stamp = s.stamp) : (σ.modifyScope id f).stampOf j = σ.stampOf j := by
  rw [stampOf, scope?_modifyScope, stampOf]
  split
  · rename_i he
    subst he
    rw [Option.map_map]
    apply congrArg (Option.map · _)
    funext s
    exact hf s
  · rfl

namespace Mirrors

variable {σ τ : Store}

theorem refl (h : σ.Tidy) : σ.Mirrors σ where
  fresh := rfl
  cells := rfl
  members := rfl
  twin hs := ⟨_, _, hs, rfl⟩
  alike hs ht he := by
    cases h.stamp_inj hs ht he.symm
    rw [hs] at ht
    cases ht
    rfl

theorem modifyScope (h : σ.Mirrors τ) (hσ : σ.Tidy) (hτ : τ.Tidy) {p q : Slot}
    (hpq : σ.Twins τ p q) {f g : Scope → Scope}
    (hf : ∀ s, (f s).stamp = s.stamp) (hg : ∀ t, (g t).stamp = t.stamp)
    (hfg : ∀ {s t}, τ.portrait t = σ.portrait s → τ.portrait (g t) = σ.portrait (f s)) :
    (σ.modifyScope p f).Mirrors (τ.modifyScope q g) where
  fresh := h.fresh
  cells := h.cells
  members := h.members
  twin {j s} hs := by
    have back : ∃ s', σ.scope? j = some s' ∧ s'.stamp = s.stamp := by
      rw [scope?_modifyScope] at hs
      split at hs
      · rename_i he
        subst he
        obtain ⟨s', hs', rfl⟩ := Option.map_eq_some_iff.1 hs
        exact ⟨s', hs', (hf s').symm⟩
      · exact ⟨s, hs, rfl⟩
    obtain ⟨s', hs', hst⟩ := back
    obtain ⟨i, t, ht, htw⟩ := h.twin hs'
    by_cases hi : q = i
    · subst hi
      exact ⟨q, g t, by rw [scope?_modifyScope, if_pos rfl, ht]; rfl, by rw [hg, htw, hst]⟩
    · exact ⟨i, t, by rw [scope?_modifyScope, if_neg hi, ht], by rw [htw, hst]⟩
  alike {j s i t} hs ht he := by
    have hport : ∀ u, (σ.modifyScope p f).portrait u = σ.portrait u := by
      intro u
      rw [portrait, portrait]
      congr 3
      funext id
      exact stampOf_modifyScope σ p id hf
    have hport' : ∀ u, (τ.modifyScope q g).portrait u = τ.portrait u := by
      intro u
      rw [portrait, portrait]
      congr 3
      funext id
      exact stampOf_modifyScope τ q id hg
    obtain ⟨a, b, ha, hb, hab⟩ := hpq
    rw [hport, hport']
    rw [scope?_modifyScope] at hs ht
    split at hs
    · rename_i hp
      subst hp
      rw [ha] at hs
      cases hs
      split at ht
      · rename_i hq
        subst hq
        rw [hb] at ht
        cases ht
        exact hfg (h.alike ha hb hab)
      · rename_i hq
        exact absurd (hτ.stamp_inj hb ht (by rw [hab, he, hf])) hq
    · rename_i hp
      split at ht
      · rename_i hq
        subst hq
        rw [hb] at ht
        cases ht
        exact absurd (hσ.stamp_inj ha hs (by rw [← hab, ← he, hg])) hp
      · exact h.alike hs ht he

theorem bind (h : σ.Mirrors τ) (hσ : σ.Tidy) (hτ : τ.Tidy) {p q : Slot} (hpq : σ.Twins τ p q)
    (name : String) {v w : Value} (hvw : v.placeless = w.placeless) :
    (σ.bind p name v).Mirrors (τ.bind q name w) := by
  refine h.modifyScope hσ hτ hpq (fun _ => rfl) (fun _ => rfl) fun {s t} he => ?_
  simp only [portrait, Prod.mk.injEq, Dict.mapValues_insert] at he ⊢
  exact ⟨he.1, by rw [he.2.1, hvw], he.2.2⟩

theorem deactivate (h : σ.Mirrors τ) (hσ : σ.Tidy) (hτ : τ.Tidy) {p q : Slot}
    (hpq : σ.Twins τ p q) : (σ.deactivate p).Mirrors (τ.deactivate q) := by
  refine h.modifyScope hσ hτ hpq (fun _ => rfl) (fun _ => rfl) fun {s t} he => ?_
  simp only [portrait, Prod.mk.injEq] at he ⊢
  exact ⟨trivial, he.2⟩

theorem prunes {υ : Store} (h : σ.Mirrors τ) (hp : σ.Prunes υ) (hυ : υ.Tidy) : υ.Mirrors τ where
  fresh := h.fresh.trans hp.fresh.symm
  cells := h.cells.trans hp.cells.symm
  members := hp.members ▸ h.members
  twin hu := by
    obtain ⟨s, hs, he⟩ := hp.back hu
    obtain ⟨i, t, ht, hst⟩ := h.twin hs
    exact ⟨i, t, ht, by rw [hst, he]⟩
  alike {j u i t} hu ht hst := by
    obtain ⟨s, hs, he⟩ := hp.back hu
    have hparent : s.parent.map υ.stampOf = s.parent.map σ.stampOf := by
      cases hsp : s.parent with
      | none => rfl
      | some p =>
        obtain ⟨v, hv, -⟩ := hυ.parent_older (p := p) hu (by rw [he]; exact hsp)
        obtain ⟨v', hv', hvv⟩ := hp.back hv
        rw [Option.map_some, Option.map_some, stampOf, stampOf, hv, hv', hvv]
        rfl
    rw [h.alike hs ht (by rw [hst, he]), he]
    simp only [portrait, hparent]

theorem stampOf_openScope {σ : Store} (hf : σ.FreeIsEmpty) (parent : Slot) {j : Slot} {u : Scope}
    (hu : σ.scope? j = some u) : (σ.openScope parent).2.stampOf j = σ.stampOf j := by
  obtain ⟨t, ht, -, hst⟩ := openScope_forth hf parent hu
  rw [stampOf, stampOf, ht, hu, Option.map_some, Option.map_some, hst]

theorem portrait_openScope {σ : Store} (h : σ.Tidy) (parent : Slot) {j : Slot} {t : Scope}
    (ht : (σ.openScope parent).2.scope? j = some t) (hj : j ≠ (σ.openScope parent).1) :
    ∃ u, σ.scope? j = some u ∧ u.stamp = t.stamp ∧
      (σ.openScope parent).2.portrait t = σ.portrait u := by
  have hf := h.freeIsEmpty
  have hparent : ∀ {u : Scope}, σ.scope? j = some u →
      u.parent.map (σ.openScope parent).2.stampOf = u.parent.map σ.stampOf := by
    intro u hu
    cases hup : u.parent with
    | none => rfl
    | some p =>
      obtain ⟨v, hv, -⟩ := h.parent_older hu hup
      rw [Option.map_some, Option.map_some, stampOf_openScope hf parent hv]
  rw [scope?_openScope hf, if_neg (Ne.symm hj)] at ht
  split at ht
  · rename_i hp
    subst hp
    obtain ⟨u, hu, rfl⟩ := Option.map_eq_some_iff.1 ht
    exact ⟨u, hu, rfl, by simp only [portrait, hparent hu]⟩
  · exact ⟨t, ht, rfl, by simp only [portrait, hparent ht]⟩

theorem openScope (h : σ.Mirrors τ) (hσ : σ.Tidy) (hτ : τ.Tidy) {p q : Slot}
    (hpq : σ.Twins τ p q) :
    (σ.openScope p).2.Mirrors (τ.openScope q).2 ∧
      (σ.openScope p).2.Twins (τ.openScope q).2 (σ.openScope p).1 (τ.openScope q).1 := by
  have hnew : (σ.openScope p).2.scope? (σ.openScope p).1 =
      some ⟨.empty, some p, true, 0, σ.fresh⟩ := by rw [scope?_openScope hσ.freeIsEmpty, if_pos rfl]
  have hnew' : (τ.openScope q).2.scope? (τ.openScope q).1 =
      some ⟨.empty, some q, true, 0, σ.fresh⟩ := by
    rw [scope?_openScope hτ.freeIsEmpty, if_pos rfl, h.fresh]
  refine ⟨⟨?_, ?_, ?_, ?_, ?_⟩, _, _, hnew, hnew', rfl⟩
  · rw [openScope_fresh, openScope_fresh, h.fresh]
  · rw [openScope_cells, openScope_cells, h.cells]
  · rw [openScope_members, openScope_members, h.members]
  · intro j s hs
    by_cases hj : j = (σ.openScope p).1
    · subst hj
      rw [hnew] at hs
      cases hs
      exact ⟨_, _, hnew', rfl⟩
    · obtain ⟨u, hu, hst, -⟩ := portrait_openScope hσ p hs hj
      obtain ⟨i, t, ht, htu⟩ := h.twin hu
      obtain ⟨t', ht', -, hst'⟩ := openScope_forth hτ.freeIsEmpty q ht
      exact ⟨i, t', ht', by omega⟩
  · intro j s i t hs ht he
    by_cases hj : j = (σ.openScope p).1
    · subst hj
      rw [hnew] at hs
      cases hs
      by_cases hi : i = (τ.openScope q).1
      · subst hi
        rw [hnew'] at ht
        cases ht
        obtain ⟨a, b, ha, hb, hab⟩ := hpq
        simp only [portrait, Option.map_some, stampOf_openScope hσ.freeIsEmpty p ha,
          stampOf_openScope hτ.freeIsEmpty q hb]
        simp only [stampOf, ha, hb, Option.map_some, hab]
      · obtain ⟨u, hu, hst, -⟩ := portrait_openScope hτ q ht hi
        have := hτ.stamp_lt hu
        rw [h.fresh] at this
        simp only at he
        omega
    · obtain ⟨u, hu, hst, hport⟩ := portrait_openScope hσ p hs hj
      by_cases hi : i = (τ.openScope q).1
      · subst hi
        rw [hnew'] at ht
        cases ht
        have := hσ.stamp_lt hu
        simp only at he
        omega
      · obtain ⟨u', hu', hst', hport'⟩ := portrait_openScope hτ q ht hi
        rw [hport, hport', h.alike hu hu' (by omega)]

theorem withCells (h : σ.Mirrors τ) (cells : Cells) :
    ({ σ with cells } : Store).Mirrors { τ with cells } where
  fresh := h.fresh
  cells := rfl
  members := h.members
  twin := h.twin
  alike := h.alike

theorem withFresh (h : σ.Mirrors τ) (fresh : Nat) :
    ({ σ with fresh } : Store).Mirrors { τ with fresh } where
  fresh := rfl
  cells := h.cells
  members := h.members
  twin := h.twin
  alike := h.alike

theorem insertMember (h : σ.Mirrors τ) (key : Ty × String) {m m' : Member}
    (hm : m.placeless = m'.placeless) :
    ({ σ with members := σ.members.insert key m } : Store).Mirrors
      { τ with members := τ.members.insert key m' } where
  fresh := h.fresh
  cells := h.cells
  members := by rw [Dict.mapValues_insert, Dict.mapValues_insert, h.members, hm]
  twin := h.twin
  alike := h.alike

theorem binder? (h : σ.Mirrors τ) (hσ : σ.Tidy) (hτ : τ.Tidy) {p q : Slot}
    (hpq : σ.Twins τ p q) (name : String) :
    (σ.binder? p name = none ∧ τ.binder? q name = none) ∨
      ∃ a b, σ.binder? p name = some a ∧ τ.binder? q name = some b ∧ σ.Twins τ a b := by
  obtain ⟨s, t, hs, ht, hst⟩ := hpq
  induction hn : s.stamp using Nat.strong_induction_on generalizing p q s t with
  | _ n ih =>
    have hport := h.alike hs ht hst
    simp only [portrait, Prod.mk.injEq] at hport
    obtain ⟨-, hbind, hparent⟩ := hport
    have hcontains : t.bindings.contains name = s.bindings.contains name := by
      rw [← Dict.contains_mapValues Value.placeless, hbind, Dict.contains_mapValues]
    rw [hσ.binder?_eq name hs, hτ.binder?_eq name ht, hcontains]
    cases hc : s.bindings.contains name with
    | true => exact .inr ⟨p, q, by simp, by simp, s, t, hs, ht, hst⟩
    | false =>
      cases hp : s.parent with
      | none =>
        cases hq : t.parent with
        | none => exact .inl ⟨by simp, by simp⟩
        | some q' => simp [hp, hq] at hparent
      | some p' =>
        cases hq : t.parent with
        | none => simp [hp, hq] at hparent
        | some q' =>
          obtain ⟨s', hs', hlt⟩ := hσ.parent_older hs hp
          obtain ⟨t', ht', -⟩ := hτ.parent_older ht hq
          have hst' : t'.stamp = s'.stamp := by
            simpa [hp, hq, stampOf, hs', ht'] using hparent
          simpa using ih s'.stamp (hn ▸ hlt) s' t' hs' ht' hst' rfl

theorem lookup? (h : σ.Mirrors τ) (hσ : σ.Tidy) (hτ : τ.Tidy) {p q : Slot}
    (hpq : σ.Twins τ p q) (name : String) :
    (τ.lookup? q name).map Value.placeless = (σ.lookup? p name).map Value.placeless := by
  rw [Store.lookup?, Store.lookup?]
  obtain ⟨hp, hq⟩ | ⟨a, b, ha, hb, s, t, hs, ht, hst⟩ := h.binder? hσ hτ hpq name
  · rw [hp, hq]
  · have hport := h.alike hs ht hst
    simp only [portrait, Prod.mk.injEq] at hport
    have hget := congrArg (Dict.get? · name) hport.2.1
    simp only [Dict.get?_mapValues] at hget
    rw [ha, hb]
    simp only [hs, ht, Option.bind_some, hget]

end Mirrors

end TypedScript.Store
