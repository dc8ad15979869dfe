import TypedScript.Proofs.Store.Mirror

namespace TypedScript

namespace Store

/-- `τ` has the scopes of `σ` in other slots, and perhaps more of them. -/
structure Renames (σ : Store) (ρ : Slot → Slot) (τ : Store) : Prop where
  inj : ∀ {i j s t}, σ.scope? i = some s → σ.scope? j = some t → ρ i = ρ j → i = j
  scope : ∀ {j s}, σ.scope? j = some s → ∃ t, τ.scope? (ρ j) = some t ∧ t.active = s.active ∧
    t.parent = s.parent.map ρ ∧ t.bindings = s.bindings.mapValues (Value.rename ρ)
  members : τ.members = σ.members.mapValues (Member.rename ρ)
  cells : τ.cells = σ.cells

def Follows (σ τ : Store) (ρ : Slot → Slot) : Prop :=
  ∀ {j s}, σ.scope? j = some s → ∃ t, τ.scope? (ρ j) = some t ∧ t.stamp = s.stamp

theorem Mirrors.exists_follows {σ τ : Store} (h : σ.Mirrors τ) : ∃ ρ, σ.Follows τ ρ := by
  classical
  refine ⟨fun j => if hj : ∃ i s t, σ.scope? j = some s ∧ τ.scope? i = some t ∧ t.stamp = s.stamp
    then hj.choose else j, fun {j s} hs => ?_⟩
  obtain ⟨i, t, ht, hst⟩ := h.twin hs
  have hj : ∃ i s t, σ.scope? j = some s ∧ τ.scope? i = some t ∧ t.stamp = s.stamp :=
    ⟨i, s, t, hs, ht, hst⟩
  obtain ⟨s', t', hs', ht', hst'⟩ := hj.choose_spec
  rw [hs] at hs'
  cases hs'
  simp only [dif_pos hj]
  exact ⟨t', ht', hst'⟩

section

variable {σ τ : Store} {ρ : Slot → Slot} {r r' : Roots}

theorem Follows.home (hρ : σ.Follows τ ρ) (hτ : τ.Tidy) {x y : Handle} (hx : σ.Holds x)
    (hy : τ.Holds y) (hst : y.stamp = x.stamp) : y = ⟨ρ x.slot, x.stamp⟩ := by
  obtain ⟨a, ha, has⟩ := hx
  obtain ⟨b, hb, hbs⟩ := hy
  obtain ⟨t, ht, hta⟩ := hρ ha
  have hslot : y.slot = ρ x.slot := hτ.stamp_inj hb ht (by omega)
  cases y
  cases hslot
  cases hst
  rfl

theorem Follows.closure (hρ : σ.Follows τ ρ) (hσ : σ.Intact r) (hτ : τ.Intact r') {f g : Closure}
    {x y : Option Value} (hf : σ.Carries r (.ofFunction f x)) (hg : τ.Carries r' (.ofFunction g y))
    (h : (g.mapHome fun h => ⟨⟨h.stamp⟩, h.stamp⟩) = f.mapHome fun h => ⟨⟨h.stamp⟩, h.stamp⟩) :
    g = f.mapHome fun h => ⟨ρ h.slot, h.stamp⟩ := by
  have hst : g.home.stamp = f.home.stamp := congrArg (·.home.stamp) h
  have hhome := hρ.home hτ.toTidy (hσ.home_of_carries hf) (hτ.home_of_carries hg) hst
  cases f
  cases g
  simp only [Closure.mapHome, Closure.mk.injEq] at h hhome ⊢
  exact ⟨h.1, h.2.1, h.2.2.1, hhome, h.2.2.2.2⟩

theorem Follows.value (hρ : σ.Follows τ ρ) (hσ : σ.Intact r) (hτ : τ.Intact r') {v w : Value}
    (hv : σ.Carries r v) (hw : τ.Carries r' w) (h : w.placeless = v.placeless) :
    w = v.rename ρ := by
  induction v generalizing w with
  | function f =>
    cases w with
    | function g =>
      exact congrArg Value.function (hρ.closure (x := none) (y := none) hσ hτ hv hw
        (Value.function.inj h))
    | _ => cases h
  | bound f x ih =>
    cases w with
    | bound g y =>
      obtain ⟨hfg, hxy⟩ := Value.bound.inj h
      have hx := ih (fun a ha => hv a (List.mem_cons_of_mem _ ha))
        (fun a ha => hw a (List.mem_cons_of_mem _ ha)) hxy
      exact congrArg₂ Value.bound (hρ.closure (x := some x) (y := some y) hσ hτ hv hw hfg) hx
    | _ => cases h
  | _ =>
    cases w <;> cases h
    rfl

theorem Follows.member (hρ : σ.Follows τ ρ) (hσ : σ.Intact r) (hτ : τ.Intact r') {m n : Member}
    (hm : σ.Carries r m.value) (hn : τ.Carries r' n.value) (h : n.placeless = m.placeless) :
    n = m.rename ρ := by
  cases m with
  | field v =>
    cases n with
    | field w => exact congrArg Member.field (hρ.value hσ hτ hm hn (Member.field.inj h))
    | method g y => cases h
  | method f x =>
    cases n with
    | field w => cases h
    | method g y =>
      obtain ⟨hfg, hxy⟩ := Member.method.inj h
      refine congrArg₂ Member.method (hρ.closure hσ hτ hm hn hfg) ?_
      cases x with
      | none =>
        cases y <;> cases hxy
        rfl
      | some x =>
        cases y with
        | none => cases hxy
        | some y =>
          exact congrArg some (hρ.value hσ hτ (carries_receiver hm x rfl)
            (carries_receiver hn y rfl) (Option.some.inj hxy))

theorem Follows.renames (hρ : σ.Follows τ ρ) (hσ : σ.Intact r) (hτ : τ.Intact r')
    (h : σ.Mirrors τ) : σ.Renames ρ τ where
  inj {i j s t} hs ht he := by
    obtain ⟨a, ha, has⟩ := hρ hs
    obtain ⟨b, hb, hbt⟩ := hρ ht
    rw [he, hb] at ha
    cases ha
    exact hσ.stamp_inj hs ht (by omega)
  scope {j s} hs := by
    obtain ⟨t, ht, hst⟩ := hρ hs
    have hport := h.alike hs ht hst
    simp only [portrait, Prod.mk.injEq] at hport
    obtain ⟨hact, hbind, hparent⟩ := hport
    refine ⟨t, ht, hact, ?_, ?_⟩
    · cases hp : s.parent with
      | none =>
        rw [hp] at hparent
        simpa using hparent
      | some p =>
        cases hq : t.parent with
        | none => simp [hp, hq] at hparent
        | some q =>
          obtain ⟨a, ha, -⟩ := hσ.parent_older hs hp
          obtain ⟨b, hb, -⟩ := hτ.parent_older ht hq
          obtain ⟨c, hc, hca⟩ := hρ ha
          have hba : b.stamp = a.stamp := by simpa [hp, hq, stampOf, ha, hb] using hparent
          rw [hτ.stamp_inj hb hc (by omega), Option.map_some]
    · exact Dict.eq_mapValues hbind fun v hv w hw he =>
        hρ.value hσ hτ (carries_of_bound hs hv) (carries_of_bound ht hw) he
  members := Dict.eq_mapValues h.members fun _ hm _ hn he =>
    hρ.member hσ hτ (carries_of_member hm) (carries_of_member hn) he
  cells := h.cells

end

end Store

end TypedScript
