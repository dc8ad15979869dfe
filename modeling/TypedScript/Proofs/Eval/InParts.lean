import TypedScript.Proofs.Eval.Reclamation
import TypedScript.Proofs.Eval.Remains
import TypedScript.Proofs.Layout.Split
import TypedScript.Proofs.Static.Outside

namespace TypedScript

/-- Two stores show the same: the cells have the same contents, the members are the same, and so
is all that there is to see of a scope that both have. -/
structure Store.Agrees (σ τ : Store) : Prop where
  cells : τ.cells = σ.cells
  members : τ.members.mapValues Member.placeless = σ.members.mapValues Member.placeless
  alike : ∀ {i j s t}, σ.scope? i = some s → τ.scope? j = some t → t.stamp = s.stamp →
    τ.portrait t = σ.portrait s

theorem Store.Mirrors.agrees {σ τ υ : Store} (h : σ.Mirrors υ) (h' : τ.Mirrors υ) : σ.Agrees τ where
  cells := h'.cells.symm.trans h.cells
  members := h'.members.symm.trans h.members
  alike hs ht hst := by
    obtain ⟨k, u, hu, hus⟩ := h.twin hs
    rw [← h.alike hs hu hus, ← h'.alike ht hu (hus.trans hst.symm)]

namespace Program

open Eval (Remaining Simulates Level)

variable {R : Reclaimer}

theorem evaluateFrom_append {cs : List Stmt} (hcs : Stmt.returnsAll cs = []) (n : Nat) (r : Roots)
    (v : Value) (ds : List Stmt) : evaluateFrom R n r v (cs ++ ds) =
      (evaluateFrom R n r v cs >>= fun w => evaluateFrom R n r w ds) := by
  induction cs generalizing v with
  | nil => rfl
  | cons c cs ih =>
    obtain ⟨hc, hcs⟩ := List.append_eq_nil_iff.1 hcs
    funext σ
    have hremains := (Remaining.all R n).stmt (r.hold v) Store.global hc σ
    rw [List.cons_append, evaluateFrom, evaluateFrom, Eval.bind_apply, Eval.bind_apply,
      Eval.bind_apply, Eval.attempt_apply]
    rcases hrun : Eval.stmt R n (r.hold v) Store.global c σ with ⟨(w | e | _) | w, τ⟩
    · exact absurd (congrArg Prod.fst hrun) (hremains w)
    · rfl
    · rfl
    · exact congrFun (ih hcs w) τ

theorem evaluateFrom_cons_simulates (hR : R.Sound) (n : Nat) (r r' : Roots) (v w : Value) (c : Stmt)
    (cs : List Stmt) : Simulates (r.plus [v], r'.plus [w]) (r, r') Store.global Store.global
      (evaluateFrom R n r v (c :: cs)) (evaluateFrom .never n r' w (c :: cs)) := by
  refine Simulates.bind (((Level.all hR n).stmt (r.hold v) (r'.hold w) _ _ c).attempt)
    (.plus_right (.refl r) [v]) (.plus_right (.refl r') [w]) fun a b hab => ?_
  have hl (x : Value) : (r.plus [x]).Within ((r.hold v).plus [x]) :=
    .plus_same (.plus_right (.refl r) [v]) [x]
  have hr (y : Value) : (r'.plus [y]).Within ((r'.hold w).plus [y]) :=
    .plus_same (.plus_right (.refl r') [w]) [y]
  rcases a with (x | e | _) | x <;> rcases b with (y | e' | _) | y
  case ok.ok =>
    exact (Eval.evaluateFrom_simulates hR n r r' (Except.ok.inj hab) cs).within (hl x) (hr y)
      (.refl r) (.refl r')
  case error.returned.error.returned =>
    exact .pure (Exit.returned.inj (Except.error.inj hab)) (hl x) (hr y)
  case error.failed.error.failed =>
    cases hab
    exact .fail (.plus_right (.refl r) [v]) (.plus_right (.refl r') [w]) e
  case error.outOfFuel.error.outOfFuel =>
    exact .outOfFuel (.plus_right (.refl r) [v]) (.plus_right (.refl r') [w])
  all_goals cases hab

def evaluateBoth (R : Reclaimer) (n : Nat) (r : Roots) (kept : Bool) (p q : Program) : Eval Value :=
  p.evaluate R n r >>= fun v => q.evaluate R n (if kept then r.hold v else r)

theorem evaluateBoth_simulates (hR : R.Sound) (n : Nat) (r : Roots) (kept : Bool) {p q : Program}
    (hp : Stmt.returnsAll p.statements = []) (hq : q.statements ≠ []) :
    Simulates (r.plus [.void], r.plus [.void]) (r, r) Store.global Store.global
      (evaluateBoth R n r kept p q)
      (evaluateFrom .never n r .void (p.statements ++ q.statements)) := by
  rw [evaluateFrom_append hp]
  refine (Eval.evaluateFrom_simulates hR n r r rfl p.statements).bind (.refl r) (.refl r)
    fun v w _ => ?_
  obtain ⟨c, cs, hcs⟩ := List.exists_cons_of_ne_nil hq
  rw [evaluate, hcs]
  cases kept with
  | true =>
    exact (evaluateFrom_cons_simulates hR n (r.hold v) r .void w c cs).within
      (.plus_plain (.refl _) rfl) (.refl _) (.plus_right (.refl r) [v]) (.refl r)
  | false =>
    exact (evaluateFrom_cons_simulates hR n r r .void w c cs).within
      (.plus_plain (.plus_right (.refl r) [v]) rfl) (.refl _) (.refl r) (.refl r)

/-- Two runs end with the same error, or with values that are the same but for the slots of their
scopes. The stores show the same, in particular behind every name that is known globally. -/
def SameEnd (x y : Except Exit Value × Store) : Prop :=
  (match x.1, y.1 with
    | .ok v, .ok w => w.placeless = v.placeless ∧ w.text y.2.cells = v.text x.2.cells ∧ w.ty = v.ty
    | .error (.failed e), .error (.failed e') => e' = e
    | .error .outOfFuel, .error .outOfFuel => True
    | _, _ => False) ∧
  x.2.Agrees y.2 ∧
  ∀ name, (y.2.lookup? Store.global name).map Value.placeless =
    (x.2.lookup? Store.global name).map Value.placeless

theorem sameEnd_of_ends {σ : Store} {r : Roots} {x y z : Except Exit Value × Store}
    (hhere : Eval.Here σ σ Store.global Store.global) (hx : Eval.Ends σ σ (r, r) x z)
    (hy : Eval.Ends σ σ (r, r) y z) (hxr : ∀ v, x.1 ≠ .error (.returned v)) : SameEnd x y := by
  have hagrees := hx.world.mirrors.agrees hy.world.mirrors
  refine ⟨?_, hagrees, fun name => ?_⟩
  · have hcells := hagrees.cells
    have hres := hx.result.trans hy.result.symm
    revert hres hxr hcells
    obtain ⟨(v | e | _) | v, σ⟩ := x <;> obtain ⟨(w | e' | _) | w, τ⟩ := y <;> intro hxr hcells hres
    case ok.ok =>
      have hvw : v.placeless = w.placeless := Except.ok.inj hres
      refine ⟨hvw.symm, ?_, (Value.ty_eq_of_placeless hvw).symm⟩
      rw [hcells]
      simpa [Value.placeless] using congrArg (Value.text σ.cells) hvw.symm
    case error.returned.error.returned => exact hxr v rfl
    case error.failed.error.failed =>
      cases hres
      rfl
    case error.outOfFuel.error.outOfFuel => trivial
    all_goals cases hres
  · have hlook {u : Except Exit Value × Store} (hu : Eval.Ends σ σ (r, r) u z) :=
      hu.world.mirrors.lookup? hu.world.left.toTidy hu.world.right.toTidy
        (hhere.stays hu.left hu.right).twins name
    exact (hlook hy).symm.trans (hlook hx)

/-- Whether a program is given at once or in two parts cannot be told: it is read as the same
statements with the same reports into the same context, and ends the same way, whatever else is
held meanwhile and whenever scopes are given back. -/
theorem parts_unobservable {ts us : List Token} {Γ : Context} {p q : Program} {ds : List Diagnostic}
    (hΓ : Γ.returning? = none) (hts : ∀ t ∈ ts, t.kind ≠ .eof)
    (hus : ∀ t ∈ us.head?, t.kind ≠ .kwElse) (hp : ofTokens ts Γ = (p, []))
    (hq : ofTokens us p.context = (q, ds)) :
    ofTokens (ts ++ us) Γ = (⟨p.statements ++ q.statements, q.context⟩, ds) ∧
    (ds = [] → q.statements ≠ [] → ∀ n r kept, ∀ σ : Store, σ.Intact r →
      (∃ g, σ.scope? Store.global = some g ∧ g.active = true) →
      SameEnd (evaluate .standard n r ⟨p.statements ++ q.statements, q.context⟩ σ)
        (evaluateBoth .standard n r kept p q σ)) := by
  refine ⟨?_, fun _ hne n r kept σ hσ ⟨g, hg, hactive⟩ => ?_⟩
  · rw [ofTokens_append hts hus hp, hq]
  · have hstart : Eval.World σ σ (r.plus [.void], r.plus [.void]) := by
      have h := hσ.within (.plus_plain (.refl r) (v := .void) rfl)
      exact ⟨h, h, .refl h.toTidy⟩
    have hhere : Eval.Here σ σ Store.global Store.global := by
      refine ⟨⟨g, g, hg, hg, rfl⟩, fun h => ?_, fun h => ?_⟩ <;>
        cases hg.symm.trans h <;> exact hactive
    have hwhole := (Eval.evaluateFrom_simulates Reclaimer.standard_sound n r r rfl
      (p.statements ++ q.statements)).run hstart hhere
    have hparts := (evaluateBoth_simulates Reclaimer.standard_sound n r kept
      (returnsAll_of_ofTokens hΓ hp) hne).run hstart hhere
    exact sameEnd_of_ends hhere hwhole hparts fun v => evaluateFrom_ne_returned _ _ _ _ _ _ v

/-- `func f(x: bool) -> bool { return x; } if f(true) { ; }`, which an `else` could continue, and
then `let y: bool = f(false); y = true;`. -/
theorem parts_unobservable_of_openIf :
    let token : Token.Kind × String → Token := fun x => ⟨x.1, x.2, ⟨.nowhere, .nowhere⟩⟩
    let ts : List Token := [(.kwFunc, "func"), (.identifier, "f"), (.openParen, "("),
      (.identifier, "x"), (.colon, ":"), (.identifier, "bool"), (.closeParen, ")"), (.arrow, "->"),
      (.identifier, "bool"), (.openCurly, "\x7b"), (.kwReturn, "return"), (.identifier, "x"),
      (.semicolon, ";"), (.closeCurly, "\x7d"), (.kwIf, "if"), (.identifier, "f"),
      (.openParen, "("), (.kwTrue, "true"), (.closeParen, ")"), (.openCurly, "\x7b"),
      (.semicolon, ";"), (.closeCurly, "\x7d")].map token
    let us : List Token := [(.kwLet, "let"), (.identifier, "y"), (.colon, ":"),
      (.identifier, "bool"), (.assignment, "="), (.identifier, "f"), (.openParen, "("),
      (.kwFalse, "false"), (.closeParen, ")"), (.semicolon, ";"), (.identifier, "y"),
      (.assignment, "="), (.kwTrue, "true"), (.semicolon, ";")].map token
    ∃ p q, ofTokens ts .initial = (p, []) ∧ ofTokens us p.context = (q, []) ∧
      p.statements.length = 2 ∧ q.statements.length = 2 ∧
      ofTokens (ts ++ us) .initial = (⟨p.statements ++ q.statements, q.context⟩, []) ∧
      SameEnd (evaluate .standard 9 .none ⟨p.statements ++ q.statements, q.context⟩ .initial)
        (evaluateBoth .standard 9 .none true p q .initial) := by
  intro token ts us
  have hp : ofTokens ts .initial = ((ofTokens ts .initial).1, []) := ofTokens_eq (by decide +kernel)
  have hq : ofTokens us (ofTokens ts .initial).1.context =
      ((ofTokens us (ofTokens ts .initial).1.context).1, []) := ofTokens_eq (by decide +kernel)
  have hlen : (ofTokens us (ofTokens ts .initial).1.context).1.statements.length = 2 := by
    decide +kernel
  obtain ⟨hread, hrun⟩ := parts_unobservable rfl (by decide) (by decide) hp hq
  refine ⟨_, _, hp, hq, by decide +kernel, hlen, hread, ?_⟩
  refine hrun rfl (fun hnil => ?_) 9 .none true .initial .initial ⟨_, rfl, rfl⟩
  rw [hnil] at hlen
  cases hlen

end Program

end TypedScript
