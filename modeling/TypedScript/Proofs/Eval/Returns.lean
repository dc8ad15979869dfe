import TypedScript.Proofs.Eval.Blame
import TypedScript.Proofs.Eval.Simulation
import TypedScript.Proofs.Static.ReadStmt

namespace TypedScript

mutual
def Stmt.returns : Stmt → List Expr
  | .ret e _ => [e]
  | .block b => b.returns
  | .cond _ yes no _ => yes.returns ++ Stmt.returnsOption no
  | .loop _ body _ => body.returns
  | _ => []

def Stmt.returnsOption : Option Stmt → List Expr
  | none => []
  | some s => s.returns

def Block.returns : Block → List Expr
  | .mk ss _ => Stmt.returnsAll ss

def Stmt.returnsAll : List Stmt → List Expr
  | [] => []
  | s :: ss => s.returns ++ Stmt.returnsAll ss
end

mutual
/-- Every function that the statement defines, at any depth, returns on every path if it is to
return a value. -/
def Stmt.complete : Stmt → Bool
  | .func h body _ => (h.signature.result = .void || body.alwaysReturns) && body.complete
  | .block b => b.complete
  | .cond _ yes no _ => yes.complete && Stmt.completeOption no
  | .loop _ body _ => body.complete
  | _ => true

def Stmt.completeOption : Option Stmt → Bool
  | none => true
  | some s => s.complete

def Block.complete : Block → Bool
  | .mk ss _ => Stmt.completeAll ss

def Stmt.completeAll : List Stmt → Bool
  | [] => true
  | s :: ss => s.complete && Stmt.completeAll ss
end

mutual
theorem Stmt.complete_of_check : ∀ {s : Stmt} {Γ Δ : Context}, s.check Γ = some Δ →
    s.complete = true
  | .define .., _, _, _ => rfl
  | .ret .., _, _, _ => rfl
  | .func h body span, Γ, Δ, hs => by
    obtain ⟨Γ₁, Γ₂, Γ₃, hc, -⟩ := Stmt.check_func_eq_some hs
    simp [Stmt.complete, hc.returns, Block.complete_of_check hc.body]
  | .block b, Γ, Δ, hs => by
    rw [Stmt.check] at hs
    exact Block.complete_of_check hs
  | .cond c yes no span, Γ, Δ, hs => by
    obtain ⟨-, Γ₁, hyes, hno⟩ := Stmt.check_cond_eq_some hs
    simp [Stmt.complete, Stmt.complete_of_check hyes, Stmt.completeOption_of_check hno]
  | .loop c body span, Γ, Δ, hs => by
    obtain ⟨-, Γ₁, hbody, -⟩ := Stmt.check_loop_eq_some hs
    rw [Stmt.complete]
    exact Stmt.complete_of_check hbody
  | .expr .., _, _, _ => rfl
  | .typeDecl .., _, _, _ => rfl

theorem Stmt.completeOption_of_check : ∀ {s : Option Stmt} {Γ Δ : Context},
    Stmt.checkOption Γ s = some Δ → Stmt.completeOption s = true
  | none, _, _, _ => rfl
  | some s, Γ, Δ, hs => by
    rw [Stmt.checkOption] at hs
    obtain ⟨Γ₁, h₁, -⟩ := Option.map_eq_some_iff.1 hs
    exact Stmt.complete_of_check h₁

theorem Block.complete_of_check : ∀ {b : Block} {Γ Δ : Context}, b.check Γ = some Δ →
    b.complete = true
  | .mk ss span, Γ, Δ, hb => by
    obtain ⟨Γ₁, hss, -⟩ := Block.check_eq_some hb
    exact Stmt.completeAll_of_check hss

theorem Stmt.completeAll_of_check : ∀ {ss : List Stmt} {Γ Δ : Context},
    Stmt.checkList Γ ss = some Δ → Stmt.completeAll ss = true
  | [], _, _, _ => rfl
  | s :: ss, Γ, Δ, hs => by
    obtain ⟨Γ₁, h₁, hs⟩ := Stmt.checkList_cons_eq_some hs
    simp [Stmt.completeAll, Stmt.complete_of_check h₁, Stmt.completeAll_of_check hs]
end

structure Closure.Complete (f : Closure) : Prop where
  returns : f.signature.result = .void ∨ f.body.alwaysReturns = true
  body : f.body.complete = true

def Value.Complete : Value → Prop
  | .function f => f.Complete
  | .bound f receiver => f.Complete ∧ receiver.Complete
  | _ => True

def Member.Complete : Member → Prop
  | .field v => v.Complete
  | .method f _ => f.Complete

structure Store.Complete (σ : Store) : Prop where
  bound : ∀ {j s x v}, σ.scope? j = some s → s.bindings.get? x = some v → v.Complete
  members : ∀ {k m}, σ.members.get? k = some m → m.Complete

namespace Value

theorem complete_of_plain {v : Value} (h : v.functions = []) : v.Complete := by
  cases v with
  | function f => cases h
  | bound f receiver => cases h
  | _ => trivial

theorem Complete.callee {v : Value} (h : v.Complete) {f : Closure} {receiver : Option Value}
    (hf : v.asFunction? = some (f, receiver)) : f.Complete ∧ ∀ w ∈ receiver, w.Complete := by
  cases v with
  | function g =>
    cases hf
    exact ⟨h, nofun⟩
  | bound g r =>
    cases hf
    refine ⟨h.1, fun w hw => ?_⟩
    cases hw
    exact h.2
  | _ => cases hf

end Value

namespace Store.Complete

variable {σ σ' : Store}

theorem initial : Store.initial.Complete := by
  refine ⟨fun {j s x v} hs hv => ?_, nofun⟩
  obtain ⟨_ | i⟩ := j
  · cases hs
    cases hv
  · cases hs

theorem retains (h : σ.Complete) (hr : σ.Retains σ') : σ'.Complete := by
  refine ⟨fun ht hv => ?_, fun hm => h.members (hr.members ▸ hm)⟩
  obtain ⟨s, hs, -, -, hb⟩ := hr.back ht
  exact h.bound hs (hb ▸ hv)

theorem openScope (h : σ.Complete) (parent : Slot) : (σ.openScope parent).2.Complete := by
  refine ⟨fun ht hv => ?_, fun hm => h.members (openScope_members σ parent ▸ hm)⟩
  obtain he | ⟨s, hs, hb⟩ := openScope_bindings σ parent ht
  · rw [he] at hv
    cases hv
  · exact h.bound hs (hb ▸ hv)

theorem bind (h : σ.Complete) {v : Value} (hv : v.Complete) (id : Slot) (x : String) :
    (σ.bind id x v).Complete := by
  refine ⟨fun {j s y w} hs hw => ?_, h.members⟩
  rw [scope?_bind] at hs
  split at hs
  · obtain ⟨s', hs', rfl⟩ := Option.map_eq_some_iff.1 hs
    rw [Dict.get?_insert] at hw
    split at hw
    · cases hw
      exact hv
    · exact h.bound hs' hw
  · exact h.bound hs hw

theorem insertMember (h : σ.Complete) {m : Member} (hm : m.Complete) (k : Ty × String) :
    ({ σ with members := σ.members.insert k m } : Store).Complete := by
  refine ⟨h.bound, fun {k' m'} hmem => ?_⟩
  rw [Dict.get?_insert] at hmem
  split at hmem
  · cases hmem
    exact hm
  · exact h.members hmem

theorem lookup? (h : σ.Complete) {id : Slot} {x : String} {v : Value}
    (hv : σ.lookup? id x = some v) : v.Complete := by
  rw [Store.lookup?] at hv
  split at hv
  · cases hv
  · obtain ⟨s, hs, hv⟩ := Option.bind_eq_some_iff.1 hv
    exact h.bound hs hv

end Store.Complete

def Traced.body (R : Reclaimer) (n : Nat) (roots : Roots) (f : Closure) (values : List Value) :
    Recorded Visit Value :=
  (observer R).inScope roots (roots.plus values) f.home.slot fun scope => do
    (observer R).defineAll (roots.plus values) scope (f.parameters.zip values)
    (observer R).block n roots scope f.body

/-- A run of the function's body that visits `ws` is left by a `return` of the body itself, the
value of which, `v`, is the last that the run finds. -/
def Closure.Returns (f : Closure) (values : List Value) (v : Value) (ws : List Visit) : Prop :=
  ∃ n roots σ τ, Traced.body .standard n roots f values σ = ((.error (.returned v), τ), ws) ∧
    ∃ us, ∃ e ∈ f.body.returns, ws = us ++ [⟨e, v⟩]

/-- Before a call is given its value, its function is found, then the arguments are, and then
the function's body is run, which is left by a `return` unless nothing is to be returned. -/
def Visit.Follows (w : Visit) (ws : List Visit) : Prop :=
  match w.node with
  | .call _ f _ => ∃ before callee g receiver passing values during,
      ws = before ++ ⟨f, callee⟩ :: passing ++ during ∧
      callee.asFunction? = some (g, receiver) ∧
      (g.signature.result = .void ∨ g.Returns (receiver.toList ++ values) w.value during)
  | _ => True

theorem Visit.Follows.append {w : Visit} {ws : List Visit} (h : w.Follows ws) (vs : List Visit) :
    w.Follows (vs ++ ws) := by
  rw [Follows] at h ⊢
  split at h
  · obtain ⟨before, callee, g, receiver, passing, values, during, rfl, hrest⟩ := h
    exact ⟨vs ++ before, callee, g, receiver, passing, values, during, by simp, hrest⟩
  · trivial

inductive Visit.AllFollow : List Visit → Prop
  | nil : AllFollow []
  | concat {ws : List Visit} {w : Visit} (h : AllFollow ws) (hw : w.Follows ws) :
      AllFollow (ws ++ [w])

namespace Visit.AllFollow

variable {us vs : List Visit} {w : Visit}

theorem append (hus : AllFollow us) (hvs : AllFollow vs) : AllFollow (us ++ vs) := by
  induction hvs with
  | nil => simpa using hus
  | concat _ hw ih =>
    rw [← List.append_assoc]
    exact .concat ih (hw.append us)

theorem follows (h : AllFollow (us ++ w :: vs)) : w.Follows us := by
  generalize hws : us ++ w :: vs = ws at h
  induction h generalizing vs with
  | nil => simp at hws
  | @concat ws x _ hw ih =>
    obtain rfl | ⟨vs, v, rfl⟩ := List.eq_nil_or_concat vs
    · obtain ⟨rfl, hv⟩ := List.append_inj' hws rfl
      cases hv
      exact hw
    · have hws : (us ++ w :: vs) ++ [v] = ws ++ [x] := by simpa using hws
      exact ih (List.append_inj' hws rfl).1

end Visit.AllFollow

def Left (es : List Expr) (v : Value) (ws : List Visit) : Prop :=
  v.Complete ∧ ∃ us, ∃ e ∈ es, ws = us ++ [⟨e, v⟩]

namespace Left

variable {es fs : List Expr} {v : Value} {ws : List Visit}

theorem mono (h : Left es v ws) (hes : es ⊆ fs) : Left fs v ws := by
  obtain ⟨hv, us, e, he, rfl⟩ := h
  exact ⟨hv, us, e, hes he, rfl⟩

theorem behind (h : Left es v ws) (vs : List Visit) : Left es v (vs ++ ws) := by
  obtain ⟨hv, us, e, he, rfl⟩ := h
  exact ⟨hv, vs ++ us, e, he, by simp⟩

end Left

namespace Traced

variable {α β : Type}

structure Answered (good : α → List Visit → Prop) (left : Value → List Visit → Prop)
    (x : (Except Exit α × Store) × List Visit) : Prop where
  store : x.1.2.Complete
  value : ∀ a, x.1.1 = .ok a → good a x.2
  returned : ∀ v, x.1.1 = .error (.returned v) → left v x.2
  calls : Visit.AllFollow x.2

/-- A computation in which every call returns as it should. Of its value and its visits `good`
holds, or `left` if it is left by a `return`. -/
def Answers (good : α → List Visit → Prop) (left : Value → List Visit → Prop)
    (m : Recorded Visit α) :
    Prop := ∀ σ, σ.Complete → Answered good left (m σ)

namespace Answers

variable {good good₂ : α → List Visit → Prop} {good' : β → List Visit → Prop}
  {left left' : Value → List Visit → Prop} {m : Recorded Visit α} {f : α → Recorded Visit β}
  {es : List Expr}

theorem imp (hm : Answers good left m) (hg : ∀ a ws, good a ws → good₂ a ws)
    (hl : ∀ v ws, left v ws → left' v ws) : Answers good₂ left' m := fun σ hσ =>
  have he := hm σ hσ
  ⟨he.store, fun a ha => hg a _ (he.value a ha), fun v hv => hl v _ (he.returned v hv), he.calls⟩

theorem located (hm : Answers good left m) :
    Answers (fun a ws => good a ws ∧ ∃ σ τ, m σ = ((.ok a, τ), ws))
      (fun v ws => left v ws ∧ ∃ σ τ, m σ = ((.error (.returned v), τ), ws)) m := by
  intro σ hσ
  have he := hm σ hσ
  refine ⟨he.store, fun a ha => ⟨he.value a ha, σ, (m σ).1.2, ?_⟩,
    fun v hv => ⟨he.returned v hv, σ, (m σ).1.2, ?_⟩, he.calls⟩
  · rw [← ha]
  · rw [← hv]

theorem pure {a : α} (h : good a []) : Answers good left (Pure.pure a) := by
  intro σ hσ
  refine ⟨hσ, fun b hb => ?_, fun v hv => ?_, .nil⟩
  · cases hb
    exact h
  · cases hv

theorem exit {e : Exit} (h : ∀ v, e = .returned v → left v []) :
    Answers good left (Recorded.lift (Eval.exit e)) := by
  intro σ hσ
  refine ⟨hσ, fun b hb => ?_, fun v hv => h v (Except.error.inj hv), .nil⟩
  cases hb

theorem fail (e : EvalError) : Answers good left (Recorded.lift (Eval.fail e)) := exit nofun

theorem outOfFuel : Answers good left (Recorded.lift (Eval.exit .outOfFuel)) := exit nofun

theorem lift {m : Eval α} (h : ∀ σ, σ.Complete → ∀ r τ, m σ = (r, τ) → τ.Complete ∧
    (∀ a, r = .ok a → good a []) ∧ ∀ v, r ≠ .error (.returned v)) :
    Answers good left (Recorded.lift m) := by
  intro σ hσ
  obtain ⟨hτ, hgood, hreturned⟩ := h σ hσ _ _ rfl
  exact ⟨hτ, hgood, fun v hv => absurd hv (hreturned v), .nil⟩

theorem modify {f : Store → Store} (hf : ∀ σ, σ.Complete → (f σ).Complete) :
    Answers (fun _ _ => True) (Left []) (Recorded.lift (Eval.modify f)) := by
  refine .lift fun σ hσ r τ hm => ?_
  cases hm
  exact ⟨hf σ hσ, fun _ _ => trivial, fun _ => nofun⟩

theorem gets {f : Store → β} {g : β → Eval α}
    (h : ∀ σ, σ.Complete → Answers good left (Recorded.lift (g (f σ)))) :
    Answers good left (Recorded.lift (Eval.gets f >>= g)) := fun σ hσ => h σ hσ σ hσ

theorem bind (hm : Answers good left m)
    (hf : ∀ a vs, good a vs → Answers (fun b ws => good' b (vs ++ ws))
      (fun v ws => left' v (vs ++ ws)) (f a))
    (hl : ∀ v ws, left v ws → left' v ws) : Answers good' left' (m >>= f) := by
  intro σ hσ
  rw [Recorded.bind_apply]
  have he := hm σ hσ
  rcases hx : m σ with ⟨⟨e | a, τ⟩, vs⟩ <;> rw [hx] at he
  · refine ⟨he.store, fun _ => nofun, fun v hv => hl v _ (he.returned v ?_), he.calls⟩
    exact congrArg _ (Except.error.inj hv)
  · have he' := hf a vs (he.value a rfl) τ he.store
    exact ⟨he'.store, he'.value, he'.returned, he.calls.append he'.calls⟩

theorem followedBy {good' : β → Prop} {fs : List Expr} (hm : Answers good (Left fs) m)
    (hfs : fs ⊆ es) (hf : ∀ a vs, good a vs → Answers (fun b _ => good' b) (Left es) (f a)) :
    Answers (fun b _ => good' b) (Left es) (m >>= f) :=
  hm.bind (fun a vs ha => (hf a vs ha).imp (fun _ _ h => h) fun _ _ h => h.behind vs)
    fun _ _ h => h.mono hfs

theorem andThen {good' : β → Prop} (hm : Answers good (Left []) m)
    (hf : ∀ a vs, good a vs → Answers (fun b _ => good' b) (Left es) (f a)) :
    Answers (fun b _ => good' b) (Left es) (m >>= f) := hm.followedBy (List.nil_subset es) hf

theorem onExpr {m : Recorded Visit Value} {roots : Roots} {e : Expr}
    {good good₂ : Value → List Visit → Prop}
    (hm : Answers good left m)
    (hgood : ∀ v ws, good v ws → Visit.Follows ⟨e, v⟩ ws ∧ good₂ v (ws ++ [⟨e, v⟩])) :
    Answers good₂ left ((observer .standard).onExpr roots e m) := by
  intro σ hσ
  have he := hm σ hσ
  rw [onExpr_apply]
  rcases hx : m σ with ⟨⟨x | v, τ⟩, vs⟩ <;> rw [hx] at he
  · exact ⟨he.store, (fun _ h => by cases h), he.returned, he.calls⟩
  · obtain ⟨hfollows, hv⟩ := hgood v vs (he.value v rfl)
    refine ⟨he.store, fun a ha => ?_, (fun _ h => by cases h), he.calls.concat hfollows⟩
    cases ha
    exact hv

theorem inScope {good : Value → List Visit → Prop} {run : Slot → Recorded Visit Value}
    (hrun : ∀ p, Answers good left (run p)) (roots during : Roots) (parent : Slot) :
    Answers good left ((observer .standard).inScope roots during parent run) := by
  intro σ hσ
  rw [inScope_apply]
  have he := hrun (σ.openScope parent).1 _ (hσ.openScope parent)
  exact ⟨he.store.retains (.close ..), he.value, he.returned, he.calls⟩

theorem attempt (hm : Answers good left m) : Answers (fun r ws =>
    (∀ a, r = .ok a → good a ws) ∧ ∀ v, r = .error (.returned v) → left v ws) (Left [])
    m.attempt := by
  intro σ hσ
  have he := hm σ hσ
  refine ⟨he.store, fun r hr => ?_, fun _ => nofun, he.calls⟩
  cases hr
  exact ⟨he.value, he.returned⟩

end Answers

theorem body_ne_ok (R : Reclaimer) {f : Closure} (hf : f.body.alwaysReturns = true) (n : Nat)
    (roots : Roots) (values : List Value) (σ : Store) (v : Value) :
    (body R n roots f values σ).1.1 ≠ .ok v := by
  intro h
  have h : ((body R n roots f values).erase σ).1 = .ok v := h
  rw [body, erase_inScope, Eval.inScope_fst, Recorded.erase_bind] at h
  obtain ⟨_, τ, -, h⟩ := Eval.of_bind_ok h
  rw [(recorder.erases R n).block] at h
  exact Eval.block_ne_ok R hf n roots _ τ v h

end Traced

namespace Eval

open Traced (Answers)

section steps

variable {v : Value}

theorem updateCells_answers {f : Cells → Value × Cells} (h : ∀ cells, (f cells).1.functions = []) :
    Answers (fun v _ => v.Complete) (Left []) (Recorded.lift (updateCells f)) := by
  refine .lift fun σ hσ r τ hm => ?_
  cases hm
  refine ⟨hσ.retains (.withCells ..), fun a ha => ?_, fun _ => nofun⟩
  cases ha
  exact Value.complete_of_plain (h σ.cells)

theorem ofScalar_answers (x : Except EvalError Scalar) :
    Answers (fun v _ => v.Complete) (Left []) (Recorded.lift (ofScalar x)) := by
  cases x with
  | error e => exact .fail e
  | ok y => exact updateCells_answers fun cells => alloc_plain cells y

theorem truthy_answers (v : Value) :
    Answers (fun _ _ => True) (Left []) (Recorded.lift (truthy v)) := by
  refine .lift fun σ hσ r τ hm => ?_
  cases hm
  exact ⟨hσ, fun _ _ => trivial, fun _ => nofun⟩

theorem lookup_answers (s : Slot) (x : String) :
    Answers (fun v _ => v.Complete) (Left []) (Recorded.lift (lookup s x)) := by
  refine .gets fun σ hσ => ?_
  cases hv : σ.lookup? s x with
  | none => exact .fail _
  | some v => exact .pure (a := v) (hσ.lookup? hv)

theorem assign_answers (s : Slot) (x : String) (hv : v.Complete) :
    Answers (fun v _ => v.Complete) (Left []) (Recorded.lift (assign s x v)) := by
  refine .gets fun σ _ => ?_
  cases σ.binder? s x with
  | none => exact .fail _
  | some found =>
    dsimp only
    rw [Recorded.lift_bind]
    exact (Answers.modify fun σ hσ => hσ.bind hv found x).andThen fun _ _ _ => .pure hv

theorem step_answers (op : StepOp) (before : Bool) (x : String) (v : Value) :
    Answers (fun v _ => v.Complete) (Left []) (Recorded.lift (step op before x v)) := by
  cases v with
  | integer c => exact updateCells_answers fun cells => stepInteger_plain cells op before c
  | float c => exact updateCells_answers fun cells => stepFloat_plain cells op before c
  | _ => exact .fail _

theorem member_answers (hv : v.Complete) (t : Ty) (m : String) :
    Answers (fun v _ => v.Complete) (Left []) (Recorded.lift (member v t m)) := by
  refine .lift fun σ hσ r τ hrun => ?_
  cases hget : σ.members.get? (t, m) with
  | none =>
    simp only [member, Store.member?, hget] at hrun
    cases hrun
    exact ⟨hσ, (fun _ h => by cases h), fun _ h => by cases h⟩
  | some found =>
    have hfound := hσ.members hget
    cases found with
    | field w =>
      simp only [member, Store.member?, hget] at hrun
      cases hrun
      refine ⟨hσ, fun a ha => ?_, fun _ h => by cases h⟩
      cases ha
      exact hfound
    | method f receiver =>
      simp only [member, Store.member?, hget] at hrun
      cases hrun
      refine ⟨hσ.retains (.withFresh σ), fun a ha => ?_, fun _ h => by cases h⟩
      cases ha
      exact ⟨⟨hfound.returns, hfound.body⟩, hv⟩

theorem defineValue_answers (s : Slot) (receiver : Option Ty) (x : String) (hv : v.Complete) :
    Answers (fun _ _ => True) (Left []) (Recorded.lift (defineValue s receiver x v)) := by
  cases receiver with
  | some r => exact .modify fun σ hσ => hσ.insertMember (m := .field v) hv (r, x)
  | none => exact .modify fun σ hσ => hσ.bind hv s x

theorem defineFunction_answers (s : Slot) (heading : Heading) {body : Block}
    (hreturns : heading.signature.result = .void ∨ body.alwaysReturns = true)
    (hbody : body.complete = true) :
    Answers (fun _ _ => True) (Left []) (Recorded.lift (defineFunction s heading body)) := by
  have hnew : Answers (fun f _ => f.Complete) (Left [])
      (Recorded.lift (update (·.newClosure heading.boundNames body heading.signature s))) := by
    refine .lift fun σ hσ r τ hrun => ?_
    obtain ⟨id, home, υ, hnew, hr⟩ :=
      Store.newClosure_eq σ heading.boundNames body heading.signature s
    rw [update_apply, hnew] at hrun
    cases hrun
    refine ⟨hσ.retains hr, fun f hf => ?_, fun _ => nofun⟩
    cases hf
    exact ⟨hreturns, hbody⟩
  rw [defineFunction, Recorded.lift_bind]
  refine hnew.andThen fun f _ hf => ?_
  cases heading.receiver with
  | none => exact .modify fun σ hσ => hσ.bind (v := .function f) hf s heading.name
  | some r => exact .modify fun σ hσ => hσ.insertMember (m := .method f none) hf (r, heading.name)

theorem defineAll_answers (s : Slot) {bs : List (String × Value)} (hbs : ∀ b ∈ bs, b.2.Complete) :
    Answers (fun _ _ => True) (Left []) (Recorded.lift (defineAll s bs)) := by
  induction bs with
  | nil => exact .pure trivial
  | cons b bs ih =>
    rw [List.forall_mem_cons] at hbs
    rw [defineAll, Recorded.lift_bind]
    exact (Answers.modify fun σ hσ => hσ.bind hbs.1 s b.1).andThen fun _ _ _ => ih hbs.2

end steps

structure AnswersWith (n : Nat) : Prop where
  expr : ∀ r s e, Answers (fun v ws => v.Complete ∧ ∃ us, ws = us ++ [⟨e, v⟩]) (Left [])
    ((Traced.observer .standard).expr n r s e)
  logical : ∀ r s op a b, Answers (fun v _ => v.Complete) (Left [])
    ((Traced.observer .standard).logical n r s op a b)
  arguments : ∀ r s es, Answers (fun vs _ => ∀ v ∈ vs, v.Complete) (Left [])
    ((Traced.observer .standard).arguments n r s es)
  call : ∀ r {f vs}, Closure.Complete f → (∀ v ∈ vs, v.Complete) →
    Answers (fun v ws => v.Complete ∧ (f.signature.result = .void ∨ f.Returns vs v ws)) (Left [])
      ((Traced.observer .standard).call n r f vs)
  stmt : ∀ r s {c}, Stmt.complete c = true →
    Answers (fun _ _ => True) (Left c.returns) ((Traced.observer .standard).stmt n r s c)
  loop : ∀ r s e {c}, Stmt.complete c = true →
    Answers (fun _ _ => True) (Left c.returns) ((Traced.observer .standard).loop n r s e c)
  statements : ∀ r s {cs}, Stmt.completeAll cs = true →
    Answers (fun _ _ => True) (Left (Stmt.returnsAll cs))
      ((Traced.observer .standard).statements n r s cs)
  block : ∀ r s {b}, Block.complete b = true →
    Answers (fun _ _ => True) (Left b.returns) ((Traced.observer .standard).block n r s b)
  branch : ∀ r s {c}, Stmt.complete c = true →
    Answers (fun _ _ => True) (Left c.returns) ((Traced.observer .standard).branch n r s c)

namespace AnswersWith

variable {n : Nat}

theorem zero : AnswersWith 0 := by
  constructor <;> intros <;> exact .outOfFuel

theorem call_case (h : AnswersWith n) (r : Roots) (s : Slot) (a : Ann) (f : Expr)
    (args : List Expr) :
    Answers (fun v ws => v.Complete ∧ Visit.Follows ⟨.call a f args, v⟩ ws) (Left []) (do
      let callee ← (Traced.observer .standard).expr n r s f
      match callee.asFunction? with
      | none => Recorded.lift (fail (.notCallable callee.ty))
      | some (closure, receiver) =>
        let values ← (Traced.observer .standard).arguments n (r.hold callee) s args
        (Traced.observer .standard).call n (r.hold callee) closure
          (receiver.toList ++ values)) := by
  refine (h.expr r s f).bind ?_ fun _ _ hl => hl
  rintro callee _ ⟨hcallee, us, rfl⟩
  cases hfunction : callee.asFunction? with
  | none => exact .fail _
  | some c =>
    obtain ⟨g, receiver⟩ := c
    obtain ⟨hg, hreceiver⟩ := hcallee.callee hfunction
    refine (h.arguments (r.hold callee) s args).bind (fun values vs hvalues => ?_)
      fun _ _ hl => hl.behind _
    have hall : ∀ v ∈ receiver.toList ++ values, v.Complete := by
      intro v hv
      obtain hv | hv := List.mem_append.1 hv
      · exact hreceiver v (Option.mem_toList.1 hv)
      · exact hvalues v hv
    refine (h.call (r.hold callee) hg hall).imp ?_ fun _ _ hl => (hl.behind _).behind _
    rintro v ws ⟨hv, hreturns⟩
    exact ⟨hv, us, callee, g, receiver, vs, values, ws, by simp, hfunction, hreturns⟩

theorem expr_succ (h : AnswersWith n) (r : Roots) (s : Slot) (e : Expr) :
    Answers (fun v ws => v.Complete ∧ ∃ us, ws = us ++ [⟨e, v⟩]) (Left [])
      ((Traced.observer .standard).expr (n + 1) r s e) := by
  cases e <;> simp only [Observer.expr]
  case call a f args =>
    exact (h.call_case r s a f args).onExpr fun v ws hv => ⟨hv.2, hv.1, ws, rfl⟩
  all_goals refine Answers.onExpr ?_ fun v ws (hv : v.Complete) => ⟨trivial, hv, ws, rfl⟩
  case name a x => exact lookup_answers s x
  case literal a v => exact updateCells_answers fun cells => literal_plain cells v
  case unary a op e => exact (h.expr r s e).andThen fun v _ _ => .gets fun _ _ => ofScalar_answers _
  case binary a op x y =>
    split
    · exact h.logical r s op x y
    · refine (h.expr r s x).andThen fun v _ _ => (h.expr _ s y).andThen fun w _ _ => ?_
      exact .gets fun _ _ => ofScalar_answers _
  case assign a x e => exact (h.expr r s e).andThen fun v _ hv => assign_answers s x hv.1
  case step a op before x =>
    rw [Traced.act_eq, Recorded.lift_step]
    exact Answers.andThen (lookup_answers s x) fun v _ _ => step_answers op before x v
  case member a e m => exact (h.expr r s e).andThen fun v _ hv => member_answers hv.1 _ m

theorem logical_succ (h : AnswersWith n) (r : Roots) (s : Slot) (op : BinaryOp) (a b : Expr) :
    Answers (fun v _ => v.Complete) (Left [])
      ((Traced.observer .standard).logical (n + 1) r s op a b) := by
  rw [Observer.logical]
  refine (h.expr r s a).andThen fun v _ _ => (truthy_answers v).andThen fun decided _ _ => ?_
  split
  · exact .pure trivial
  · refine (h.expr r s b).andThen fun w _ _ => (truthy_answers w).andThen fun _ _ _ => ?_
    exact .pure trivial

theorem arguments_succ (h : AnswersWith n) (r : Roots) (s : Slot) (es : List Expr) :
    Answers (fun vs _ => ∀ v ∈ vs, v.Complete) (Left [])
      ((Traced.observer .standard).arguments (n + 1) r s es) := by
  cases es with
  | nil =>
    rw [Observer.arguments]
    exact .pure (List.forall_mem_nil _)
  | cons e es =>
    rw [Observer.arguments]
    refine (h.expr r s e).andThen fun v _ hv => (h.arguments _ s es).andThen fun vs _ hvs => ?_
    exact .pure (List.forall_mem_cons.2 ⟨hv.1, hvs⟩)

theorem call_succ (h : AnswersWith n) (r : Roots) {f : Closure} {vs : List Value}
    (hf : f.Complete) (hvs : ∀ v ∈ vs, v.Complete) :
    Answers (fun v ws => v.Complete ∧ (f.signature.result = .void ∨ f.Returns vs v ws)) (Left [])
      ((Traced.observer .standard).call (n + 1) r f vs) := by
  rw [Observer.call]
  split
  · have hbody : Answers (fun _ _ => True) (Left f.body.returns)
        (Traced.body .standard n r f vs) := by
      refine .inScope (fun p => ?_) r (r.plus vs) f.home.slot
      rw [Traced.defineAll_eq]
      refine (defineAll_answers p fun b hb => ?_).andThen fun _ _ _ => h.block r p hf.body
      exact hvs b.2 (List.of_mem_zip hb).2
    refine hbody.located.attempt.bind ?_ fun _ _ hl => hl
    rintro x ws ⟨hok, hreturned⟩
    rcases x with (v | e | _) | v
    · obtain ⟨⟨hv, us, e, he, rfl⟩, σ, τ, hrun⟩ := hreturned v rfl
      refine .pure ⟨hv, .inr ⟨n, r, σ, τ, ?_, us, e, he, ?_⟩⟩
      · simpa using hrun
      · simp
    · exact .fail e
    · exact .outOfFuel
    · obtain ⟨-, σ, τ, hrun⟩ := hok v rfl
      refine .pure ⟨trivial, .inl (hf.returns.resolve_right fun hreturns => ?_)⟩
      exact Traced.body_ne_ok .standard hreturns n r vs σ v (by rw [hrun])
  · exact .fail _

theorem stmt_succ (h : AnswersWith n) (r : Roots) (s : Slot) {c : Stmt} (hc : c.complete = true) :
    Answers (fun _ _ => True) (Left c.returns)
      ((Traced.observer .standard).stmt (n + 1) r s c) := by
  cases c <;> simp only [Observer.stmt, Traced.onStmt_eq, Stmt.returns]
  case define x ty e receiver span =>
    refine (h.expr r s e).andThen fun v _ hv => ?_
    rw [Traced.act_eq, Recorded.lift_define]
    exact (defineValue_answers s receiver x hv.1).andThen fun _ _ _ => .pure trivial
  case ret e span =>
    refine (h.expr r s e).bind ?_ fun _ _ hl => hl.mono (by simp)
    rintro v _ ⟨hv, us, rfl⟩
    refine .exit fun w hw => ?_
    cases hw
    exact ⟨hv, us, e, by simp, by simp⟩
  case func heading body span =>
    rw [Stmt.complete, Bool.and_eq_true, Bool.or_eq_true, decide_eq_true_eq] at hc
    rw [Traced.act_eq, Recorded.lift_func]
    exact (defineFunction_answers s heading hc.1 hc.2).andThen fun _ _ _ => .pure trivial
  case block b => exact h.block r s hc
  case cond e yes no span =>
    rw [Stmt.complete, Bool.and_eq_true] at hc
    refine (h.expr r s e).andThen fun v _ _ => (truthy_answers v).andThen fun holds _ _ => ?_
    split
    · exact (h.branch r s hc.1).imp (fun _ _ _ => trivial) fun _ _ hl => hl.mono (by simp)
    · cases no with
      | none => exact .pure trivial
      | some no =>
        refine (h.branch r s hc.2).imp (fun _ _ _ => trivial) fun _ _ hl => hl.mono ?_
        simp [Stmt.returnsOption]
  case loop e body span => exact h.loop r s e hc
  case expr e span => exact (h.expr r s e).imp (fun _ _ _ => trivial) fun _ _ hl => hl
  case typeDecl name span => exact .pure trivial

theorem loop_succ (h : AnswersWith n) (r : Roots) (s : Slot) (e : Expr) {c : Stmt}
    (hc : c.complete = true) :
    Answers (fun _ _ => True) (Left c.returns)
      ((Traced.observer .standard).loop (n + 1) r s e c) := by
  rw [Observer.loop]
  refine (h.expr r s e).andThen fun v _ _ => (truthy_answers v).andThen fun holds _ _ => ?_
  split
  · exact (h.branch r s hc).followedBy (List.Subset.refl _) fun _ _ _ => h.loop r s e hc
  · exact .pure trivial

theorem statements_succ (h : AnswersWith n) (r : Roots) (s : Slot) {cs : List Stmt}
    (hcs : Stmt.completeAll cs = true) : Answers (fun _ _ => True) (Left (Stmt.returnsAll cs))
      ((Traced.observer .standard).statements (n + 1) r s cs) := by
  cases cs with
  | nil =>
    rw [Observer.statements]
    exact .pure trivial
  | cons c cs =>
    rw [Stmt.completeAll, Bool.and_eq_true] at hcs
    rw [Observer.statements, Stmt.returnsAll]
    refine (h.stmt r s hcs.1).followedBy (by simp) fun _ _ _ => ?_
    exact (h.statements r s hcs.2).imp (fun _ _ _ => trivial) fun _ _ hl => hl.mono (by simp)

theorem succ (h : AnswersWith n) : AnswersWith (n + 1) where
  expr := h.expr_succ
  logical := h.logical_succ
  arguments := h.arguments_succ
  call r _ _ hf hvs := h.call_succ r hf hvs
  stmt r s _ hc := h.stmt_succ r s hc
  loop r s e _ hc := h.loop_succ r s e hc
  statements r s _ hcs := h.statements_succ r s hcs
  block r s b hb := by
    obtain ⟨cs, span⟩ := b
    rw [Observer.block]
    exact .inScope (fun p => h.statements r p hb) r r s
  branch r s c hc := by
    rw [Observer.branch]
    refine Answers.followedBy (.inScope (fun p => h.stmt r p hc) r r s) (List.Subset.refl _) ?_
    exact fun _ _ _ => .pure trivial

theorem all (n : Nat) : AnswersWith n := by
  induction n with
  | zero => exact zero
  | succ n ih => exact ih.succ

end AnswersWith

theorem evaluateFrom_answers (n : Nat) (r : Roots) (v : Value) {cs : List Stmt}
    (hcs : Stmt.completeAll cs = true) :
    Answers (fun _ _ => True) (Left []) ((Traced.observer .standard).evaluateFrom n r v cs) := by
  induction cs generalizing v with
  | nil => exact .pure trivial
  | cons c cs ih =>
    rw [Stmt.completeAll, Bool.and_eq_true] at hcs
    have hstmt := (AnswersWith.all n).stmt (r.hold v) Store.global hcs.1
    rw [Observer.evaluateFrom]
    refine Answers.andThen hstmt.attempt fun x _ _ => ?_
    rcases x with (u | e | _) | u
    · exact .pure trivial
    · exact .fail e
    · exact .outOfFuel
    · exact ih u hcs.2

end Eval

namespace Program

/-- A statement that returns on every path never comes to its end. In every run of a program that
is read without a report, a call that is given a value has that of a `return` in the body of the
function called, unless the function is to return nothing. -/
theorem calls_return {source : String} {file : Option String} {p : Program}
    (hp : parse source file = (p, [])) (fuel : Nat) :
    (∀ {s : Stmt}, s.alwaysReturns = true → ∀ R n roots scope σ v,
      (Eval.stmt R n roots scope s σ).1 ≠ .ok v) ∧
    (p.traced fuel).1 = p.evaluate .standard fuel .none .initial ∧
    ∀ {before after a f args v}, (p.traced fuel).2 = before ++ ⟨.call a f args, v⟩ :: after →
      ∃ earlier callee g receiver passing values during,
        before = earlier ++ ⟨f, callee⟩ :: passing ++ during ∧
        callee.asFunction? = some (g, receiver) ∧
        (g.signature.result ≠ .void → g.Returns (receiver.toList ++ values) v during) := by
  refine ⟨?_, traced_fst fuel p, ?_⟩
  · exact fun hs R n roots scope σ v => Eval.stmt_ne_ok R hs n roots scope σ v
  · intro before after a f args v hrun
    have hcomplete := Stmt.completeAll_of_check (checkList_of_parse hp)
    have hcalls := (Eval.evaluateFrom_answers fuel .none .void hcomplete .initial .initial).calls
    rw [traced] at hrun
    rw [hrun] at hcalls
    obtain ⟨earlier, callee, g, receiver, passing, values, during, hbefore, hg, hreturns⟩ :=
      hcalls.follows
    exact ⟨earlier, callee, g, receiver, passing, values, during, hbefore, hg,
      hreturns.resolve_left⟩

theorem calls_return_of_branches : ∃ p : Program,
    parse ("func f(x: int) -> int \x7b if x return x; else \x7b return 7; \x7d \x7d f(0);") none =
      (p, []) ∧
    ((p.traced 20).2.any fun w => w.node matches .call ..) = true ∧
    ∀ {before after a f args v}, (p.traced 20).2 = before ++ ⟨.call a f args, v⟩ :: after →
      ∃ earlier callee g receiver passing values during,
        before = earlier ++ ⟨f, callee⟩ :: passing ++ during ∧
        callee.asFunction? = some (g, receiver) ∧
        (g.signature.result ≠ .void → g.Returns (receiver.toList ++ values) v during) := by
  have hp : ∀ {x : Program × List Diagnostic}, x.2.isEmpty = true → x = (x.1, []) :=
    fun h => Prod.ext rfl (List.isEmpty_iff.1 h)
  refine ⟨_, hp ?_, ?_, (calls_return (hp ?_) 20).2.2⟩
  · decide +kernel
  · decide +kernel
  · decide +kernel

end Program

end TypedScript
