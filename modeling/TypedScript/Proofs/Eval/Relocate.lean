import TypedScript.Program.Run
import TypedScript.Proofs.Store.Relocate

namespace TypedScript

def Exit.relocate (ρ : Relocation) : Exit → Exit
  | .returned v => .returned (v.relocate ρ)
  | s => s

namespace Eval

open Placed (relocate)

def relocateOutcome {α : Type} [Placed α] (ρ : Relocation) : Except Exit α → Except Exit α
  | .ok a => .ok (relocate ρ a)
  | .error s => .error (s.relocate ρ)

instance {α : Type} [Placed α] : Placed (Except Exit α) := ⟨relocateOutcome⟩

variable {α β : Type} [Placed α] [Placed β] {ρ : Relocation}

/-- The second computation does at other places what the first does. -/
def Moves (ρ : Relocation) (m m' : Eval α) : Prop :=
  ∀ σ : Store, m' (σ.relocate ρ) = relocate ρ (m σ)

namespace Moves

variable {m m' : Eval α} {f f' : α → Eval β}

theorem pure (a : α) : Moves ρ (Pure.pure a) (Pure.pure (relocate ρ a)) := fun _ => rfl

theorem fail (e : EvalError) : Moves ρ (Eval.fail e : Eval α) (Eval.fail e) := fun _ => rfl

theorem outOfFuel : Moves ρ (exit .outOfFuel : Eval α) (exit .outOfFuel) := fun _ => rfl

theorem returned (v : Value) :
    Moves ρ (exit (.returned v) : Eval α) (exit (.returned (v.relocate ρ))) := fun _ => rfl

theorem bind (hm : Moves ρ m m') (hf : ∀ a, Moves ρ (f a) (f' (relocate ρ a))) :
    Moves ρ (m >>= f) (m' >>= f') := by
  intro σ
  rw [bind_apply, bind_apply, hm σ]
  rcases m σ with ⟨s | a, τ⟩
  · rfl
  · exact hf a τ

theorem ask {γ : Type} {g g' : Store → γ} {k k' : γ → Eval α}
    (h : ∀ σ : Store, g' (σ.relocate ρ) = g σ) (hk : ∀ x, Moves ρ (k x) (k' x)) :
    Moves ρ (Eval.gets g >>= k) (Eval.gets g' >>= k') := by
  intro σ
  rw [bind_apply, bind_apply, gets_apply, gets_apply, h σ]
  exact hk (g σ) σ

theorem modify {g g' : Store → Store} (h : ∀ σ : Store, g' (σ.relocate ρ) = (g σ).relocate ρ) :
    Moves ρ (Eval.modify g) (Eval.modify g') := fun σ => by
  rw [modify_apply, h σ]
  rfl

theorem update {g g' : Store → α × Store} (h : ∀ σ : Store, g' (σ.relocate ρ) = relocate ρ (g σ)) :
    Moves ρ (Eval.update g) (Eval.update g') := fun σ => by
  rw [update_apply, h σ]
  rfl

theorem updateCells {g : Cells → Value × Cells} (h : ∀ c, (g c).1.relocate ρ = (g c).1) :
    Moves ρ (Eval.updateCells g) (Eval.updateCells g) := fun σ =>
  congrArg (fun v => (Except.ok v, { σ.relocate ρ with cells := (g σ.cells).2 })) (h σ.cells).symm

theorem attempt (hm : Moves ρ m m') : Moves ρ (Eval.attempt m) (Eval.attempt m') := fun σ => by
  rw [attempt_apply, hm σ]
  rfl

theorem resume (r : Except Exit α) : Moves ρ (Eval.resume r) (Eval.resume (relocate ρ r)) :=
  fun _ => rfl

theorem test (v : Value) {k k' : Bool → Eval α} (hk : ∀ b, Moves ρ (k b) (k' b)) :
    Moves ρ (truthy v >>= k) (truthy (v.relocate ρ) >>= k') :=
  .ask (fun σ => v.truthy_relocate ρ σ.cells) hk

theorem inScope {r r' : Roots} (parent : Slot) {run run' : Slot → Eval Value}
    (h : ∀ s, Moves ρ (run s) (run' s)) :
    Moves ρ (inScope .never r parent run) (inScope .never r' parent run') :=
  .bind (.update fun σ => σ.openScope_relocate ρ parent) fun s =>
    .bind (h s).attempt fun result =>
      .bind (.modify fun σ => σ.deactivate_relocate ρ s) fun _ => .resume result

end Moves

section steps

variable (s : Slot)

theorem alloc_relocate (c : Cells) (x : Scalar) : (c.alloc x).1.relocate ρ = (c.alloc x).1 := by
  cases x <;> rfl

theorem ofScalar_moves (x : Except EvalError Scalar) : Moves ρ (ofScalar x) (ofScalar x) := by
  cases x with
  | error e => exact .fail e
  | ok x => exact .updateCells fun c => alloc_relocate c x

theorem literal_moves (v : Literal) : Moves ρ (literal v) (literal v) :=
  .updateCells fun _ => by cases v <;> rfl

theorem unary_moves (op : UnaryOp) (v : Value) : Moves ρ (unary op v) (unary op (v.relocate ρ)) :=
  .ask (fun σ => v.unary_relocate ρ σ.cells op) ofScalar_moves

theorem binary_moves (hρ : ρ.Faithful) (op : BinaryOp) (v w : Value) :
    Moves ρ (binary op v w) (binary op (v.relocate ρ) (w.relocate ρ)) :=
  .ask (fun σ => Value.binary_relocate σ.cells hρ op v w) ofScalar_moves

theorem lookup_moves (x : String) : Moves ρ (lookup s x) (lookup s x) := by
  intro σ
  simp only [lookup, bind_apply, gets_apply, σ.lookup?_relocate ρ]
  cases σ.lookup? s x <;> rfl

theorem assign_moves (x : String) (v : Value) :
    Moves ρ (assign s x v) (assign s x (v.relocate ρ)) := by
  refine .ask (fun σ => σ.binder?_relocate ρ s x) fun found => ?_
  cases found with
  | some p => exact .bind (.modify fun σ => σ.bind_relocate ρ p x v) fun _ => .pure v
  | none => exact .fail _

theorem step_moves (op : StepOp) (before : Bool) (x : String) (v : Value) :
    Moves ρ (step op before x v) (step op before x (v.relocate ρ)) := by
  cases v with
  | integer c =>
    exact Moves.updateCells (g := (·.stepInteger op before c)) fun _ => by cases before <;> rfl
  | float c =>
    exact Moves.updateCells (g := (·.stepFloat op before c)) fun _ => by cases before <;> rfl
  | _ => exact .fail _

theorem member_moves (v : Value) (t : Ty) (x : String) :
    Moves ρ (member v t x) (member (v.relocate ρ) t x) := by
  intro σ
  rw [member, member, σ.member?_relocate ρ]
  cases σ.member? v t x <;> rfl

theorem defineFunction_moves (heading : Heading) (body : Block) :
    Moves ρ (defineFunction s heading body) (defineFunction s heading (body.relocate ρ)) := by
  refine .bind (.update fun σ => σ.newClosure_relocate ρ _ body _ s) fun f => ?_
  cases heading.receiver with
  | some t => exact .modify fun σ => σ.setMethod_relocate ρ t heading.name f
  | none => exact .modify fun σ => σ.bind_relocate ρ s heading.name (.function f)

theorem defineValue_moves (receiver : Option Ty) (x : String) (v : Value) :
    Moves ρ (defineValue s receiver x v) (defineValue s receiver x (v.relocate ρ)) := by
  cases receiver with
  | some t => exact .modify fun σ => σ.setField_relocate ρ t x v
  | none => exact .modify fun σ => σ.bind_relocate ρ s x v

theorem defineAll_moves (xs : List String) (vs : List Value) :
    Moves ρ (defineAll s (xs.zip vs)) (defineAll s (xs.zip (relocate ρ vs))) := by
  induction xs generalizing vs with
  | nil => exact .pure ()
  | cons x xs ih =>
    cases vs with
    | nil => exact .pure ()
    | cons v vs => exact .bind (.modify fun σ => σ.bind_relocate ρ s x v) fun _ => ih vs

theorem ofBody_moves (r : Except Exit Value) : Moves ρ (ofBody r) (ofBody (relocate ρ r)) := by
  rcases r with (v | e | _) | v <;> exact fun _ => rfl

end steps

structure Movable (ρ : Relocation) (n : Nat) : Prop where
  expr : ∀ r r' s e, Moves ρ (expr .never n r s e) (expr .never n r' s (e.relocate ρ))
  logical : ∀ r r' s op a b,
    Moves ρ (logical .never n r s op a b) (logical .never n r' s op (a.relocate ρ) (b.relocate ρ))
  arguments : ∀ r r' s es,
    Moves ρ (arguments .never n r s es) (arguments .never n r' s (Expr.relocateAll ρ es))
  call : ∀ r r' f vs,
    Moves ρ (call .never n r f vs) (call .never n r' (f.relocate ρ) (relocate ρ vs))
  stmt : ∀ r r' s c, Moves ρ (stmt .never n r s c) (stmt .never n r' s (c.relocate ρ))
  loop : ∀ r r' s e c,
    Moves ρ (loop .never n r s e c) (loop .never n r' s (e.relocate ρ) (c.relocate ρ))
  statements : ∀ r r' s cs,
    Moves ρ (statements .never n r s cs) (statements .never n r' s (Stmt.relocateAll ρ cs))
  block : ∀ r r' s b, Moves ρ (block .never n r s b) (block .never n r' s (b.relocate ρ))
  branch : ∀ r r' s c, Moves ρ (branch .never n r s c) (branch .never n r' s (c.relocate ρ))

namespace Movable

variable {n : Nat}

theorem zero : Movable ρ 0 where
  expr _ _ _ _ := .outOfFuel
  logical _ _ _ _ _ _ := .outOfFuel
  arguments _ _ _ _ := .outOfFuel
  call _ _ _ _ := .outOfFuel
  stmt _ _ _ _ := .outOfFuel
  loop _ _ _ _ _ := .outOfFuel
  statements _ _ _ _ := .outOfFuel
  block _ _ _ _ := .outOfFuel
  branch _ _ _ _ := .outOfFuel

theorem expr_succ (hρ : ρ.Faithful) (h : Movable ρ n) (r r' : Roots) (s : Slot) (e : Expr) :
    Moves ρ (Eval.expr .never (n + 1) r s e) (Eval.expr .never (n + 1) r' s (e.relocate ρ)) := by
  cases e with
  | name ann x =>
    simp only [Expr.relocate, Eval.expr]
    exact lookup_moves s x
  | literal ann v =>
    simp only [Expr.relocate, Eval.expr]
    exact literal_moves v
  | unary ann op operand =>
    simp only [Expr.relocate, Eval.expr]
    exact (h.expr r r' s operand).bind fun v => unary_moves op v
  | binary ann op a b =>
    simp only [Expr.relocate, Eval.expr]
    split
    · exact h.logical r r' s op a b
    · refine (h.expr r r' s a).bind fun v => (h.expr (r.hold v) _ s b).bind fun w => ?_
      exact binary_moves hρ op v w
  | call ann f args =>
    simp only [Expr.relocate, Eval.expr]
    refine (h.expr r r' s f).bind fun v => ?_
    have hty : (relocate ρ v).ty = v.ty := v.ty_relocate ρ
    have hv : (relocate ρ v).asFunction? = relocate ρ v.asFunction? := v.asFunction?_relocate ρ
    rw [hty, hv]
    rcases v.asFunction? with _ | ⟨g, receiver⟩
    · exact .fail _
    · refine (h.arguments (r.hold v) _ s args).bind fun vs => ?_
      have hvs : (relocate ρ receiver).toList ++ relocate ρ vs =
          relocate ρ (receiver.toList ++ vs) := by cases receiver <;> rfl
      rw [hvs]
      exact h.call _ _ g (receiver.toList ++ vs)
  | assign ann x value =>
    simp only [Expr.relocate, Eval.expr]
    exact (h.expr r r' s value).bind fun v => assign_moves s x v
  | step ann op before x =>
    simp only [Expr.relocate, Eval.expr]
    exact (lookup_moves s x).bind fun v => step_moves op before x v
  | member ann object m =>
    simp only [Expr.relocate, Eval.expr]
    refine (h.expr r r' s object).bind fun v => ?_
    have hty : memberTy (object.relocate ρ).ty (relocate ρ v) = memberTy object.ty v := by
      rw [memberTy, memberTy, Expr.ty_relocate, show (relocate ρ v).ty = v.ty from v.ty_relocate ρ]
    rw [hty]
    exact member_moves v _ m

theorem logical_succ (h : Movable ρ n) (r r' : Roots) (s : Slot) (op : BinaryOp) (a b : Expr) :
    Moves ρ (Eval.logical .never (n + 1) r s op a b)
      (Eval.logical .never (n + 1) r' s op (a.relocate ρ) (b.relocate ρ)) := by
  simp only [Eval.logical]
  refine (h.expr r r' s a).bind fun v => .test v fun decided => ?_
  split
  · exact .pure (Value.boolean decided)
  · refine (h.expr r r' s b).bind fun w => .test w fun result => ?_
    exact .pure (Value.boolean result)

theorem arguments_succ (h : Movable ρ n) (r r' : Roots) (s : Slot) (es : List Expr) :
    Moves ρ (Eval.arguments .never (n + 1) r s es)
      (Eval.arguments .never (n + 1) r' s (Expr.relocateAll ρ es)) := by
  cases es with
  | nil =>
    simp only [Expr.relocateAll, Eval.arguments]
    exact .pure []
  | cons e es =>
    simp only [Expr.relocateAll, Eval.arguments]
    refine (h.expr r r' s e).bind fun v => (h.arguments (r.hold v) _ s es).bind fun vs => ?_
    exact .pure (v :: vs)

theorem call_succ (h : Movable ρ n) (r r' : Roots) (f : Closure) (vs : List Value) :
    Moves ρ (Eval.call .never (n + 1) r f vs)
      (Eval.call .never (n + 1) r' (f.relocate ρ) (relocate ρ vs)) := by
  have hlen : (relocate ρ vs).length = vs.length := List.length_map _
  simp only [Eval.call, hlen]
  by_cases hn : vs.length = f.parameters.length
  · rw [if_pos hn, if_pos (show _ = (f.relocate ρ).parameters.length from hn)]
    refine .bind (.attempt (.inScope f.home.slot fun s => ?_)) ofBody_moves
    exact (defineAll_moves s f.parameters vs).bind fun _ => h.block r r' s f.body
  · rw [if_neg hn, if_neg (show _ ≠ (f.relocate ρ).parameters.length from hn)]
    exact .fail _

theorem void_moves : Moves ρ (Pure.pure Value.void) (Pure.pure Value.void) := .pure Value.void

theorem stmt_succ (h : Movable ρ n) (r r' : Roots) (s : Slot) (c : Stmt) :
    Moves ρ (Eval.stmt .never (n + 1) r s c) (Eval.stmt .never (n + 1) r' s (c.relocate ρ)) := by
  cases c with
  | define x ty value receiver span =>
    simp only [Stmt.relocate, Eval.stmt]
    refine (h.expr r r' s value).bind fun v => ?_
    exact (defineValue_moves s receiver x v).bind fun _ => void_moves
  | ret value span =>
    simp only [Stmt.relocate, Eval.stmt]
    exact (h.expr r r' s value).bind fun v => .returned v
  | func heading body span =>
    simp only [Stmt.relocate, Eval.stmt]
    exact (defineFunction_moves s heading body).bind fun _ => void_moves
  | block b =>
    simp only [Stmt.relocate, Eval.stmt]
    exact h.block r r' s b
  | cond condition yes no span =>
    simp only [Stmt.relocate, Eval.stmt]
    refine (h.expr r r' s condition).bind fun v => .test v fun holds => ?_
    split
    · exact h.branch r r' s yes
    · cases no with
      | some no => exact h.branch r r' s no
      | none => exact void_moves
  | loop condition body span =>
    simp only [Stmt.relocate, Eval.stmt]
    exact h.loop r r' s condition body
  | expr value span =>
    simp only [Stmt.relocate, Eval.stmt]
    exact h.expr r r' s value
  | typeDecl name span =>
    simp only [Stmt.relocate, Eval.stmt]
    exact void_moves

theorem loop_succ (h : Movable ρ n) (r r' : Roots) (s : Slot) (e : Expr) (c : Stmt) :
    Moves ρ (Eval.loop .never (n + 1) r s e c)
      (Eval.loop .never (n + 1) r' s (e.relocate ρ) (c.relocate ρ)) := by
  simp only [Eval.loop]
  refine (h.expr r r' s e).bind fun v => .test v fun holds => ?_
  split
  · exact (h.branch r r' s c).bind fun _ => h.loop r r' s e c
  · exact void_moves

theorem statements_succ (h : Movable ρ n) (r r' : Roots) (s : Slot) (cs : List Stmt) :
    Moves ρ (Eval.statements .never (n + 1) r s cs)
      (Eval.statements .never (n + 1) r' s (Stmt.relocateAll ρ cs)) := by
  cases cs with
  | nil =>
    simp only [Stmt.relocateAll, Eval.statements]
    exact void_moves
  | cons c cs =>
    simp only [Stmt.relocateAll, Eval.statements]
    exact (h.stmt r r' s c).bind fun _ => h.statements r r' s cs

theorem succ (hρ : ρ.Faithful) (h : Movable ρ n) : Movable ρ (n + 1) where
  expr := h.expr_succ hρ
  logical := h.logical_succ
  arguments := h.arguments_succ
  call := h.call_succ
  stmt := h.stmt_succ
  loop := h.loop_succ
  statements := h.statements_succ
  block r r' s b := by
    cases b with
    | mk cs span =>
      simp only [Block.relocate, Eval.block, Block.statements]
      exact .inScope s fun s => h.statements r r' s cs
  branch r r' s c := by
    simp only [Eval.branch]
    exact .bind (.inScope s fun s => h.stmt r r' s c) fun _ => void_moves

theorem all (hρ : ρ.Faithful) (n : Nat) : Movable ρ n := by
  induction n with
  | zero => exact zero
  | succ n ih => exact ih.succ hρ

end Movable

theorem evaluateFrom_moves (hρ : ρ.Faithful) (n : Nat) (r r' : Roots) (v : Value) (cs : List Stmt) :
    Moves ρ (Program.evaluateFrom .never n r v cs)
      (Program.evaluateFrom .never n r' (v.relocate ρ) (cs.map (Stmt.relocate ρ))) := by
  induction cs generalizing v with
  | nil => exact .pure v
  | cons c cs ih =>
    refine .bind ((Movable.all hρ n).stmt _ _ _ c).attempt fun result => ?_
    rcases result with (v | e | _) | v
    · exact .pure v
    · exact .fail e
    · exact .outOfFuel
    · exact ih v

end Eval

end TypedScript
