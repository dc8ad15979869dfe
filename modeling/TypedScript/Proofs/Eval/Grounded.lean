import TypedScript.Proofs.Eval.Effect

namespace TypedScript

open Eval (Observed)
open Eval.Observed (held)

namespace Roots

variable {P Q : Roots}

theorem refs_hold (v : Value) : (P.hold v).refs = v.refs ++ P.refs := List.flatMap_cons

theorem subset_plus (h : Q.refs ⊆ P.refs) (vs : List Value) : Q.refs ⊆ (P.plus vs).refs := by
  rw [refs_plus]
  exact List.subset_append_of_subset_right _ h

theorem plus_subset {vs : List Value} (hv : vs.flatMap Value.refs ⊆ P.refs)
    (h : Q.refs ⊆ P.refs) : (Q.plus vs).refs ⊆ P.refs := by
  rw [refs_plus]
  exact List.append_subset.2 ⟨hv, h⟩

theorem plus_subset_plus (h : Q.refs ⊆ P.refs) (vs : List Value) :
    (Q.plus vs).refs ⊆ (P.plus vs).refs := by
  refine plus_subset ?_ (subset_plus h vs)
  rw [refs_plus]
  exact List.subset_append_left _ _

end Roots

namespace Session

variable {σ : Store} {P Q : Roots} {r : Ref}

theorem mem_refs_plus {vs : List Value} : r ∈ (⟨σ, P.plus vs⟩ : Session).refs ↔
    r ∈ vs.flatMap Value.refs ∨ r ∈ (⟨σ, P⟩ : Session).refs := by
  simp only [mem_refs, Roots.refs_plus, List.mem_append]
  grind

theorem refs_subset (h : Q.refs ⊆ P.refs) : (⟨σ, Q⟩ : Session).refs ⊆ (⟨σ, P⟩ : Session).refs := by
  intro r hr
  rw [mem_refs] at hr ⊢
  exact hr.imp id (.imp id fun hr => h hr)

theorem Grounded.within (h : (⟨σ, P⟩ : Session).Grounded) (hQ : Q.refs ⊆ P.refs) :
    (⟨σ, Q⟩ : Session).Grounded := fun r hr => h r (refs_subset hQ hr)

end Session

namespace Event

variable {e : Event} {r : Ref}

theorem mem_before_of_operand {v : Value} (hv : v ∈ e.action.operands) (hr : r ∈ v.refs) :
    r ∈ e.before.refs :=
  Session.mem_refs_plus.2 (.inl (List.mem_flatMap.2 ⟨v, hv, hr⟩))

theorem refs_after (e : Event) : e.after.refs ⊆ e.before.refs := by
  intro r hr
  obtain ⟨j, t, x, v, ht, hx, hr⟩ | ⟨m, hm, hr⟩ | hr := Session.mem_refs.1 hr
  · obtain ⟨s, hs, -, hx | hx⟩ := e.effect.receives.bindings ht hx (List.ne_nil_of_mem hr)
    · exact Session.mem_refs.2 (.inl ⟨j, s, x, v, hs, hx, hr⟩)
    · exact mem_before_of_operand (mem_operands_of_binding? hx) hr
  · obtain hm | hm := e.effect.receives.members m hm
    · exact Session.mem_refs.2 (.inr (.inl ⟨m, hm, hr⟩))
    · exact Session.mem_refs_plus.2 (.inl (hm hr))
  · exact Session.mem_refs.2 (.inr (.inr hr))

theorem exists_read (e : Event) (h : ∃ x, r.read e.store.cells = some x) :
    ∃ x, r.read e.outcome.2.cells = some x := by
  obtain ⟨x, hx⟩ := h
  exact ⟨_, e.effect.cells hx⟩

theorem grounded_after (h : e.before.Grounded) :
    (⟨e.outcome.2, e.before.roots.plus (held e.outcome.1)⟩ : Session).Grounded := by
  intro r hr
  obtain hr | hr := Session.mem_refs_plus.1 hr
  · obtain ⟨v, hv, hr⟩ := List.mem_flatMap.1 hr
    obtain ⟨-, hnew⟩ | ⟨-, hold⟩ := e.effect.result v hv r hr
    · exact hnew
    · exact e.exists_read (h r hold)
  · exact e.exists_read (h r (e.refs_after hr))

end Event

/-- The events lead from the first store to the second, each beginning where the one before it has
ended. -/
inductive Chained : Store → List Event → Store → Prop
  | nil (σ : Store) : Chained σ [] σ
  | cons (e : Event) {log : List Event} {τ : Store} :
      Chained e.outcome.2 log τ → Chained e.store (e :: log) τ

namespace Chained

variable {σ τ υ : Store} {log rest : List Event} {r : Ref}

theorem append (h : Chained σ log τ) (h' : Chained τ rest υ) : Chained σ (log ++ rest) υ := by
  induction h with
  | nil σ => exact h'
  | cons e _ ih => exact .cons e (ih h')

theorem split (h : Chained σ (log ++ rest) υ) : ∃ τ, Chained σ log τ ∧ Chained τ rest υ := by
  induction log generalizing σ with
  | nil => exact ⟨σ, .nil σ, h⟩
  | cons e log ih =>
    cases h with
    | cons _ h =>
      obtain ⟨τ, hτ, hrest⟩ := ih h
      exact ⟨τ, .cons e hτ, hrest⟩

theorem exists_read (h : Chained σ log τ) (hr : ∃ x, r.read σ.cells = some x) :
    ∃ x, r.read τ.cells = some x := by
  induction h with
  | nil => exact hr
  | cons e _ ih => exact ih (e.exists_read hr)

theorem bindings (h : Chained σ log τ) {j : Slot} {t : Scope} {x : String} {v : Value}
    (ht : τ.scope? j = some t) (hx : (x, v) ∈ t.bindings.entries) (hv : v.refs ≠ []) :
    (∃ s, σ.scope? j = some s ∧ s.stamp = t.stamp ∧ (x, v) ∈ s.bindings.entries) ∨
      ∃ e ∈ log, e.binding? = some (j, x, v) ∧
        ∃ s, e.store.scope? j = some s ∧ s.stamp = t.stamp := by
  induction h with
  | nil => exact .inl ⟨t, ht, rfl, hx⟩
  | cons e _ ih =>
    obtain ⟨u, hu, hut, hx⟩ | ⟨b, hb, hgiven⟩ := ih ht
    · obtain ⟨s, hs, hsu, hx | hx⟩ := e.effect.receives.bindings hu hx hv
      · exact .inl ⟨s, hs, hsu.trans hut, hx⟩
      · exact .inr ⟨e, List.mem_cons_self, hx, s, hs, hsu.trans hut⟩
    · exact .inr ⟨b, List.mem_cons_of_mem _ hb, hgiven⟩

end Chained

namespace Logged

instance : Observed Slot := ⟨id, fun _ => []⟩

variable {α β : Type} [Observed α] [Observed β] {P Q : Roots} {σ : Store}

structure Followed (P : Roots) (σ : Store) (x : (Except Exit α × Store) × List Event) : Prop where
  chained : Chained σ x.2 x.1.2
  events : ∀ e ∈ x.2, e.before.Grounded
  ends : (⟨x.1.2, P.plus (held x.1.1)⟩ : Session).Grounded

/-- Begun while every cell that is named exists, a computation never comes to name one that does
not. -/
def Follows (P : Roots) (m : Recorded Event α) : Prop :=
  ∀ ⦃σ⦄, (⟨σ, P⟩ : Session).Grounded → Followed P σ (m σ)

theorem Followed.within {x : (Except Exit α × Store) × List Event} (h : Followed P σ x)
    (hQ : (⟨σ, Q⟩ : Session).Grounded) : Followed Q σ x := by
  refine ⟨h.chained, h.events, fun r hr => ?_⟩
  obtain hr | hr := Session.mem_refs_plus.1 hr
  · exact h.ends r (Session.mem_refs_plus.2 (.inl hr))
  · obtain hr | hr | hr := Session.mem_refs.1 hr
    · exact h.ends r (Session.mem_refs.2 (.inl hr))
    · exact h.ends r (Session.mem_refs.2 (.inr (.inl hr)))
    · exact h.chained.exists_read (hQ r (Session.mem_refs.2 (.inr (.inr hr))))

namespace Follows

variable {m : Recorded Event α} {f : α → Recorded Event β}

theorem within (h : Follows P m) (hP : P.refs ⊆ Q.refs) : Follows Q m :=
  fun _ hσ => (h (hσ.within hP)).within hσ

theorem forget (h : Follows P m) (vs : List Value) : Follows (P.plus vs) m :=
  h.within (Roots.subset_plus (.refl _) vs)

theorem read {m : Store → Except Exit α}
    (h : ∀ σ, (held (m σ)).flatMap Value.refs ⊆ P.refs) : Follows P (observer.read m) :=
  fun σ hσ => ⟨.nil σ, List.forall_mem_nil _, hσ.within (Roots.plus_subset (h σ) (.refl _))⟩

theorem pure {a : α} (h : (held a).flatMap Value.refs ⊆ P.refs) :
    Follows P (Pure.pure a : Recorded Event α) := read (m := fun _ => .ok a) fun _ => h

theorem exit {x : Exit} (h : (held (.error x : Except Exit α)).flatMap Value.refs ⊆ P.refs) :
    Follows P (observer.exit x : Recorded Event α) := read fun _ => h

theorem act (roots : Roots) (a : Action) :
    Follows (roots.plus a.operands) (observer.act roots a) := by
  intro σ hσ
  have hstep : Chained σ [⟨a, σ, roots⟩] (a.run .standard roots σ).2 :=
    .cons ⟨a, σ, roots⟩ (.nil _)
  exact ⟨hstep, List.forall_mem_singleton.2 hσ, Event.grounded_after (e := ⟨a, σ, roots⟩) hσ⟩

theorem bind (hm : Follows P m) (hf : ∀ a, Follows (P.plus (held a)) (f a)) :
    Follows P (m >>= f) := by
  intro σ hσ
  have h := hm hσ
  rw [Recorded.bind_apply]
  rcases hx : m σ with ⟨⟨x | a, τ⟩, es⟩ <;> rw [hx] at h
  · rcases x with v | e | _ <;> exact ⟨h.chained, h.events, h.ends⟩
  · have h' := hf a h.ends
    refine ⟨h.chained.append h'.chained, List.forall_mem_append.2 ⟨h.events, h'.events⟩, ?_⟩
    exact h'.ends.within (Roots.plus_subset_plus (Roots.subset_plus (.refl _) _) _)

theorem attempt (hm : Follows P m) : Follows P (observer.attempt m) := by
  intro σ hσ
  have h := hm hσ
  exact ⟨h.chained, h.events, h.ends⟩

theorem onExpr {roots : Roots} {e : Expr} {m : Recorded Event Value} (hm : Follows P m) :
    Follows P (observer.onExpr roots e m) := by
  rwa [Logged.onExpr_eq]

theorem onStmt {roots : Roots} {s : Stmt} {m : Recorded Event Value} (hm : Follows P m) :
    Follows P (observer.onStmt roots s m) := by
  rwa [Logged.onStmt_eq]

theorem test {v : Value} {f : Bool → Recorded Event β} (hf : ∀ b, Follows P (f b)) :
    Follows (P.plus [v]) (observer.truthy v >>= f) :=
  bind (read fun _ => List.nil_subset _) fun b => (hf b).forget [v]

theorem inScope {roots during : Roots} {parent : Slot} {run : Slot → Recorded Event Value}
    (hroots : roots.refs ⊆ P.refs) (hduring : during.refs ⊆ P.refs)
    (hrun : ∀ scope, Follows P (run scope)) :
    Follows P (observer.inScope roots during parent run) := by
  refine bind (read fun _ => List.nil_subset _) fun scope => ?_
  refine bind ((act during (.openScope parent)).within hduring) fun v => ?_
  refine bind ((hrun scope).forget [v]).attempt fun x => ?_
  refine bind ((act (roots.holdResult x) (.close scope)).within ?_) fun u => read fun _ => ?_
  · rw [Eval.holdResult_eq]
    exact Roots.plus_subset_plus (Roots.subset_plus (Roots.subset_plus hroots _) _) _
  · simp

theorem defineAll {roots : Roots} (scope : Slot) (names : List String) {vs : List Value}
    (hroots : roots.refs ⊆ P.refs) (hvs : vs.flatMap Value.refs ⊆ P.refs) :
    Follows P (observer.defineAll roots scope (names.zip vs)) := by
  induction names generalizing vs with
  | nil => exact pure (List.nil_subset _)
  | cons name names ih =>
    cases vs with
    | nil => exact pure (List.nil_subset _)
    | cons v vs =>
      rw [List.flatMap_cons, List.append_subset] at hvs
      refine bind ((act roots (.pass scope name v)).within ?_) fun u => (ih hvs.2).forget [u]
      exact Roots.plus_subset (by simpa [Action.operands] using hvs.1) hroots

end Follows

structure AllFollow (n : Nat) : Prop where
  expr : ∀ r s e, Follows r (observer.expr n r s e)
  logical : ∀ r s op a b, Follows r (observer.logical n r s op a b)
  arguments : ∀ r s es, Follows r (observer.arguments n r s es)
  call : ∀ r f vs, Follows (r.plus vs) (observer.call n r f vs)
  stmt : ∀ r s c, Follows r (observer.stmt n r s c)
  loop : ∀ r s e c, Follows r (observer.loop n r s e c)
  statements : ∀ r s cs, Follows r (observer.statements n r s cs)
  block : ∀ r s b, Follows r (observer.block n r s b)
  branch : ∀ r s c, Follows r (observer.branch n r s c)

namespace AllFollow

variable {n : Nat}

theorem zero : AllFollow 0 := by
  constructor <;> intros <;> exact .exit (List.nil_subset _)

theorem void : Follows P (Pure.pure Value.void : Recorded Event Value) := .pure (List.nil_subset _)

theorem call_case (h : AllFollow n) (r : Roots) (s : Slot) (args : List Expr) (v : Value) :
    Follows (r.plus [v]) (match v.asFunction? with
      | none => observer.fail (.notCallable v.ty)
      | some (closure, receiver) => do
        let values ← observer.arguments n (r.hold v) s args
        observer.call n (r.hold v) closure (receiver.toList ++ values)) := by
  rcases hv : v.asFunction? with _ | ⟨f, receiver⟩
  · exact .exit (List.nil_subset _)
  · refine (h.arguments (r.hold v) s args).bind fun vs => ?_
    refine (h.call (r.hold v) f (receiver.toList ++ vs)).within ?_
    -- The receiver is held as a part of the function.
    refine Roots.plus_subset ?_ (Roots.subset_plus (.refl _) vs)
    rw [List.flatMap_append, ← Value.refs_of_asFunction? hv, Roots.refs_plus, Roots.refs_hold]
    exact List.append_subset.2 ⟨by simp, List.subset_append_left _ _⟩

theorem expr_succ (h : AllFollow n) (r : Roots) (s : Slot) (e : Expr) :
    Follows r (observer.expr (n + 1) r s e) := by
  refine Follows.onExpr ?_
  cases e with
  | name ann x => exact .act r (.lookup s x)
  | literal ann v => exact .act r (.literal v)
  | unary ann op operand =>
    exact (h.expr r s operand).bind fun v => .act r (.unary op v)
  | binary ann op a b =>
    dsimp only
    split
    · exact h.logical r s op a b
    · refine (h.expr r s a).bind fun v => (h.expr (r.hold v) s b).bind fun u => ?_
      refine (Follows.act r (.binary op v u)).within ?_
      simp [Action.operands, held, Roots.refs_hold]
  | call ann f args => exact (h.expr r s f).bind fun v => h.call_case r s args v
  | assign ann x value => exact (h.expr r s value).bind fun v => .act r (.assign s x v)
  | step ann op before x => exact .act r (.step s op before x)
  | member ann object m => exact (h.expr r s object).bind fun v => .act r (.member v _ m)

theorem logical_succ (h : AllFollow n) (r : Roots) (s : Slot) (op : BinaryOp) (a b : Expr) :
    Follows r (observer.logical (n + 1) r s op a b) := by
  have hboolean (b : Bool) : Follows r (Pure.pure (.boolean b) : Recorded Event Value) :=
    .pure (List.nil_subset _)
  refine (h.expr r s a).bind fun v => .test fun decided => ?_
  split
  · exact hboolean decided
  · exact (h.expr r s b).bind fun u => .test hboolean

theorem arguments_succ (h : AllFollow n) (r : Roots) (s : Slot) (es : List Expr) :
    Follows r (observer.arguments (n + 1) r s es) := by
  cases es with
  | nil => exact .pure (List.nil_subset _)
  | cons e es =>
    refine (h.expr r s e).bind fun v => (h.arguments (r.hold v) s es).bind fun vs => .pure ?_
    simp [held, Roots.refs_hold]

theorem call_succ (h : AllFollow n) (r : Roots) (f : Closure) (vs : List Value) :
    Follows (r.plus vs) (observer.call (n + 1) r f vs) := by
  simp only [Observer.call]
  split
  · have hbody : Follows (r.plus vs) (observer.inScope r (r.plus vs) f.home.slot fun scope => do
        observer.defineAll (r.plus vs) scope (f.parameters.zip vs)
        observer.block n r scope f.body) := by
      refine .inScope (Roots.subset_plus (.refl _) vs) (.refl _) fun scope => ?_
      refine (Follows.defineAll scope f.parameters (.refl _) ?_).bind fun _ => ?_
      · simp
      · exact ((h.block r scope f.body).forget vs).forget []
    refine hbody.attempt.bind fun x => ?_
    rcases x with (v | e | _) | v
    · exact .pure (by simp [held])
    · exact .exit (List.nil_subset _)
    · exact .exit (List.nil_subset _)
    · exact void
  · exact .exit (List.nil_subset _)

theorem stmt_succ (h : AllFollow n) (r : Roots) (s : Slot) (c : Stmt) :
    Follows r (observer.stmt (n + 1) r s c) := by
  refine Follows.onStmt ?_
  cases c with
  | define x ty value receiver span =>
    exact (h.expr r s value).bind fun v => .act r (.define s receiver x v)
  | ret value span => exact (h.expr r s value).bind fun v => .exit (by simp [held])
  | func heading body span => exact .act r (.func s heading body)
  | block b => exact h.block r s b
  | cond condition yes no span =>
    refine (h.expr r s condition).bind fun v => .test fun holds => ?_
    split
    · exact h.branch r s yes
    · cases no with
      | some no => exact h.branch r s no
      | none => exact void
  | loop condition body span => exact h.loop r s condition body
  | expr value span => exact h.expr r s value
  | typeDecl name span => exact void

theorem loop_succ (h : AllFollow n) (r : Roots) (s : Slot) (e : Expr) (c : Stmt) :
    Follows r (observer.loop (n + 1) r s e c) := by
  refine (h.expr r s e).bind fun v => .test fun holds => ?_
  split
  · exact (h.branch r s c).bind fun u => (h.loop r s e c).forget [u]
  · exact void

theorem statements_succ (h : AllFollow n) (r : Roots) (s : Slot) (cs : List Stmt) :
    Follows r (observer.statements (n + 1) r s cs) := by
  cases cs with
  | nil => exact void
  | cons c cs => exact (h.stmt r s c).bind fun v => (h.statements r s cs).forget [v]

theorem succ (h : AllFollow n) : AllFollow (n + 1) where
  expr := h.expr_succ
  logical := h.logical_succ
  arguments := h.arguments_succ
  call := h.call_succ
  stmt := h.stmt_succ
  loop := h.loop_succ
  statements := h.statements_succ
  block r _ b := .inScope (.refl _) (.refl _) fun scope => h.statements r scope b.statements
  branch r _ c :=
    (Follows.inScope (.refl _) (.refl _) fun scope => h.stmt r scope c).bind fun _ => void

theorem all (n : Nat) : AllFollow n := by
  induction n with
  | zero => exact zero
  | succ n ih => exact ih.succ

end AllFollow

end Logged

end TypedScript
