import TypedScript.Proofs.Eval.Returns
import TypedScript.Proofs.Static.Outside

namespace TypedScript.Eval

variable {α β : Type} {m : Eval α} {f : α → Eval β}

def Remains (m : Eval α) : Prop := ∀ σ v, (m σ).1 ≠ .error (.returned v)

namespace Remains

theorem pure (a : α) : Remains (Pure.pure a : Eval α) := nofun

theorem fail (e : EvalError) : Remains (Eval.fail e : Eval α) := nofun

theorem outOfFuel : Remains (exit .outOfFuel : Eval α) := nofun

theorem bind (hm : Remains m) (hf : ∀ a, Remains (f a)) : Remains (m >>= f) := by
  intro σ v
  rw [bind_apply]
  rcases hx : m σ with ⟨(w | e | _) | a, τ⟩
  · exact absurd (congrArg Prod.fst hx) (hm σ w)
  · exact nofun
  · exact nofun
  · exact hf a τ v

theorem gets (f : Store → α) : Remains (Eval.gets f) := nofun

theorem modify (f : Store → Store) : Remains (Eval.modify f) := nofun

theorem update (f : Store → α × Store) : Remains (Eval.update f) := nofun

theorem updateCells (f : Cells → α × Cells) : Remains (Eval.updateCells f) := nofun

theorem attempt (m : Eval α) : Remains (Eval.attempt m) := nofun

theorem inScope {R : Reclaimer} {roots : Roots} {parent : Slot} {run : Slot → Eval Value}
    (h : ∀ s, Remains (run s)) : Remains (inScope R roots parent run) := by
  intro σ v
  rw [inScope_fst]
  exact h _ _ v

end Remains

section steps

variable (s : Slot)

theorem ofScalar_remains (x : Except EvalError Scalar) : Remains (ofScalar x) := by
  cases x with
  | error e => exact .fail e
  | ok x => exact .updateCells _

theorem lookup_remains (x : String) : Remains (lookup s x) := by
  refine .bind (.gets _) fun found => ?_
  cases found with
  | some v => exact .pure v
  | none => exact .fail _

theorem assign_remains (x : String) (v : Value) : Remains (assign s x v) := by
  refine .bind (.gets _) fun found => ?_
  cases found with
  | some p => exact .bind (.modify _) fun _ => .pure v
  | none => exact .fail _

theorem step_remains (op : StepOp) (before : Bool) (x : String) (v : Value) :
    Remains (step op before x v) := by
  cases v with
  | integer c => exact .updateCells _
  | float c => exact .updateCells _
  | _ => exact .fail _

theorem member_remains (v : Value) (t : Ty) (x : String) : Remains (member v t x) := by
  intro σ w
  rw [member]
  split <;> exact fun h => by cases h

theorem defineFunction_remains (heading : Heading) (body : Block) :
    Remains (defineFunction s heading body) := by
  refine .bind (.update _) fun f => ?_
  cases heading.receiver with
  | some t => exact .modify _
  | none => exact .modify _

theorem defineValue_remains (receiver : Option Ty) (x : String) (v : Value) :
    Remains (defineValue s receiver x v) := by
  cases receiver with
  | some t => exact .modify _
  | none => exact .modify _

theorem ofBody_remains (r : Except Exit Value) : Remains (ofBody r) := by
  rcases r with (v | e | _) | v <;> exact nofun

end steps

structure Remaining (R : Reclaimer) (n : Nat) : Prop where
  expr : ∀ r s e, Remains (expr R n r s e)
  logical : ∀ r s op a b, Remains (logical R n r s op a b)
  arguments : ∀ r s es, Remains (arguments R n r s es)
  call : ∀ r f vs, Remains (call R n r f vs)
  stmt : ∀ r s {c}, c.returns = [] → Remains (stmt R n r s c)
  loop : ∀ r s e {c}, c.returns = [] → Remains (loop R n r s e c)
  statements : ∀ r s {cs}, Stmt.returnsAll cs = [] → Remains (statements R n r s cs)
  block : ∀ r s {b}, b.returns = [] → Remains (block R n r s b)
  branch : ∀ r s {c}, c.returns = [] → Remains (branch R n r s c)

namespace Remaining

variable {R : Reclaimer} {n : Nat}

theorem zero : Remaining R 0 where
  expr _ _ _ := .outOfFuel
  logical _ _ _ _ _ := .outOfFuel
  arguments _ _ _ := .outOfFuel
  call _ _ _ := .outOfFuel
  stmt _ _ _ _ := .outOfFuel
  loop _ _ _ _ _ := .outOfFuel
  statements _ _ _ _ := .outOfFuel
  block _ _ _ _ := .outOfFuel
  branch _ _ _ _ := .outOfFuel

theorem expr_succ (h : Remaining R n) (r : Roots) (s : Slot) (e : Expr) :
    Remains (Eval.expr R (n + 1) r s e) := by
  cases e with
  | name ann x =>
    simp only [Eval.expr]
    exact lookup_remains s x
  | literal ann v =>
    simp only [Eval.expr]
    exact .updateCells _
  | unary ann op operand =>
    simp only [Eval.expr]
    exact (h.expr r s operand).bind fun v => .bind (.gets _) ofScalar_remains
  | binary ann op a b =>
    simp only [Eval.expr]
    split
    · exact h.logical r s op a b
    · refine (h.expr r s a).bind fun v => (h.expr (r.hold v) s b).bind fun w => ?_
      exact .bind (.gets _) ofScalar_remains
  | call ann f args =>
    simp only [Eval.expr]
    refine (h.expr r s f).bind fun v => ?_
    cases v.asFunction? with
    | none => exact .fail _
    | some g => exact (h.arguments (r.hold v) s args).bind fun vs => h.call (r.hold v) g.1 _
  | assign ann x value =>
    simp only [Eval.expr]
    exact (h.expr r s value).bind fun v => assign_remains s x v
  | step ann op before x =>
    simp only [Eval.expr]
    exact (lookup_remains s x).bind fun v => step_remains op before x v
  | member ann object m =>
    simp only [Eval.expr]
    exact (h.expr r s object).bind fun v => member_remains v _ m

theorem logical_succ (h : Remaining R n) (r : Roots) (s : Slot) (op : BinaryOp) (a b : Expr) :
    Remains (Eval.logical R (n + 1) r s op a b) := by
  simp only [Eval.logical]
  refine (h.expr r s a).bind fun v => .bind (.gets _) fun decided => ?_
  split
  · exact .pure _
  · exact (h.expr r s b).bind fun w => .bind (.gets _) fun result => .pure _

theorem arguments_succ (h : Remaining R n) (r : Roots) (s : Slot) (es : List Expr) :
    Remains (Eval.arguments R (n + 1) r s es) := by
  cases es with
  | nil =>
    simp only [Eval.arguments]
    exact .pure _
  | cons e es =>
    simp only [Eval.arguments]
    exact (h.expr r s e).bind fun v => (h.arguments (r.hold v) s es).bind fun vs => .pure _

theorem call_succ (r : Roots) (f : Closure) (vs : List Value) :
    Remains (Eval.call R (n + 1) r f vs) := by
  simp only [Eval.call]
  split
  · exact .bind (.attempt _) ofBody_remains
  · exact .fail _

theorem stmt_succ (h : Remaining R n) (r : Roots) (s : Slot) {c : Stmt} (hc : c.returns = []) :
    Remains (Eval.stmt R (n + 1) r s c) := by
  cases c with
  | define x ty value receiver span =>
    simp only [Eval.stmt]
    refine (h.expr r s value).bind fun v => ?_
    exact (defineValue_remains s receiver x v).bind fun _ => .pure _
  | ret value span => cases hc
  | func heading body span =>
    simp only [Eval.stmt]
    exact (defineFunction_remains s heading body).bind fun _ => .pure _
  | block b =>
    simp only [Eval.stmt]
    exact h.block r s hc
  | cond condition yes no span =>
    obtain ⟨hyes, hno⟩ := List.append_eq_nil_iff.1 hc
    simp only [Eval.stmt]
    refine (h.expr r s condition).bind fun v => .bind (.gets _) fun holds => ?_
    split
    · exact h.branch r s hyes
    · cases no with
      | some no => exact h.branch r s hno
      | none => exact .pure _
  | loop condition body span =>
    simp only [Eval.stmt]
    exact h.loop r s condition hc
  | expr value span =>
    simp only [Eval.stmt]
    exact h.expr r s value
  | typeDecl name span =>
    simp only [Eval.stmt]
    exact .pure _

theorem loop_succ (h : Remaining R n) (r : Roots) (s : Slot) (e : Expr) {c : Stmt}
    (hc : c.returns = []) : Remains (Eval.loop R (n + 1) r s e c) := by
  simp only [Eval.loop]
  refine (h.expr r s e).bind fun v => .bind (.gets _) fun holds => ?_
  split
  · exact (h.branch r s hc).bind fun _ => h.loop r s e hc
  · exact .pure _

theorem statements_succ (h : Remaining R n) (r : Roots) (s : Slot) {cs : List Stmt}
    (hcs : Stmt.returnsAll cs = []) : Remains (Eval.statements R (n + 1) r s cs) := by
  cases cs with
  | nil =>
    simp only [Eval.statements]
    exact .pure _
  | cons c cs =>
    obtain ⟨hc, hcs⟩ := List.append_eq_nil_iff.1 hcs
    simp only [Eval.statements]
    exact (h.stmt r s hc).bind fun _ => h.statements r s hcs

theorem succ (h : Remaining R n) : Remaining R (n + 1) where
  expr := h.expr_succ
  logical := h.logical_succ
  arguments := h.arguments_succ
  call := call_succ
  stmt := h.stmt_succ
  loop := h.loop_succ
  statements := h.statements_succ
  block r s b hb := by
    simp only [Eval.block]
    cases b
    exact .inScope fun s => h.statements r s hb
  branch r s c hc := by
    simp only [Eval.branch]
    exact .bind (.inScope fun s => h.stmt r s hc) fun _ => .pure _

theorem all (R : Reclaimer) (n : Nat) : Remaining R n := by
  induction n with
  | zero => exact zero
  | succ n ih => exact ih.succ

end Remaining

end TypedScript.Eval

namespace TypedScript

theorem Stmt.returns_of_mem {cs : List Stmt} (hcs : returnsAll cs = []) {c : Stmt} (hc : c ∈ cs) :
    c.returns = [] := by
  induction cs with
  | nil => cases hc
  | cons d cs ih =>
    obtain ⟨hd, hcs⟩ := List.append_eq_nil_iff.1 hcs
    obtain rfl | hc := List.mem_cons.1 hc
    · exact hd
    · exact ih hcs hc

namespace Program

theorem evaluateFrom_eq_foldlM {cs : List Stmt} (hcs : Stmt.returnsAll cs = []) (R : Reclaimer)
    (n : Nat) (r : Roots) (v : Value) : evaluateFrom R n r v cs =
      cs.foldlM (fun last c => Eval.stmt R n (r.hold last) Store.global c) v := by
  induction cs generalizing v with
  | nil => rfl
  | cons c cs ih =>
    obtain ⟨hc, hcs⟩ := List.append_eq_nil_iff.1 hcs
    funext σ
    have hremains := (Eval.Remaining.all R n).stmt (r.hold v) Store.global hc σ
    rw [evaluateFrom, List.foldlM_cons, Eval.bind_apply, Eval.bind_apply, Eval.attempt_apply]
    rcases hrun : Eval.stmt R n (r.hold v) Store.global c σ with ⟨(w | e | _) | w, τ⟩
    · exact absurd (congrArg Prod.fst hrun) (hremains w)
    · rfl
    · rfl
    · exact congrFun (ih hcs w) τ

/-- A `return` never escapes its call: no expression and no call is left by one, whatever it
evaluates. In a program that is read without a report no statement is, in whatever store and scope
it runs, so that the run is that of all the statements in order, until one of them fails. -/
theorem returns_contained :
    (∀ R n roots scope e σ v, (Eval.expr R n roots scope e σ).1 ≠ .error (.returned v)) ∧
    (∀ R n roots f values σ v, (Eval.call R n roots f values σ).1 ≠ .error (.returned v)) ∧
    ∀ {source file p}, parse source file = (p, []) →
      (∀ s ∈ p.statements, ∀ R n roots scope σ v,
        (Eval.stmt R n roots scope s σ).1 ≠ .error (.returned v)) ∧
      ∀ R n roots, p.evaluate R n roots = p.statements.foldlM
        (fun last s => Eval.stmt R n (roots.hold last) Store.global s) .void := by
  refine ⟨?_, ?_, fun {source file p} hp => ?_⟩
  · exact fun R n roots scope e => (Eval.Remaining.all R n).expr roots scope e
  · exact fun R n roots f values => (Eval.Remaining.all R n).call roots f values
  · have hreturns : Stmt.returnsAll p.statements = [] := by
      rw [parse] at hp
      split at hp
      · exact returnsAll_of_ofTokens rfl hp
      · cases hp
    refine ⟨fun s hs R n roots scope => ?_, fun R n roots => ?_⟩
    · exact (Eval.Remaining.all R n).stmt roots scope (Stmt.returns_of_mem hreturns hs)
    · exact evaluateFrom_eq_foldlM hreturns R n roots .void

/-- A `return` inside a loop, a branch and two blocks, in a function that is defined in another:
`func f(x: int) -> int { func g() -> int { while true { if x { return 1; } x = 1; } return 2; }
return g() + g(); } f(0); f(1);`. -/
theorem returns_contained_of_nested : ∃ p : Program,
    parse ("func f(x: int) -> int \x7b func g() -> int \x7b while true \x7b if x " ++
      "\x7b return 1; \x7d x = 1; \x7d return 2; \x7d return g() + g(); \x7d f(0); f(1);") none =
      (p, []) ∧
    (∀ s ∈ p.statements, ∀ R n roots scope σ v,
      (Eval.stmt R n roots scope s σ).1 ≠ .error (.returned v)) ∧
    ∀ R n roots, p.evaluate R n roots =
      p.statements.foldlM (fun last s => Eval.stmt R n (roots.hold last) Store.global s) .void := by
  refine ⟨_, parse_eq ?_, returns_contained.2.2 (parse_eq ?_)⟩
  · decide +kernel
  · decide +kernel

end Program

end TypedScript
