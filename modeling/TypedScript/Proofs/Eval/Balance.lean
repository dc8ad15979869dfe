import TypedScript.Proofs.Eval.Guarded
import TypedScript.Proofs.Eval.Typed
import TypedScript.Proofs.Store.Activity

namespace TypedScript

namespace Eval

open Observed (held)

variable {α β : Type}

def Steady (m : Eval α) : Prop := ∀ σ, (m σ).2.activity = σ.activity

/-- A computation that has closed every scope that it has opened, and no other. -/
structure Balances (P : Roots) (s : Slot) (m : Eval α) : Prop where
  run : ∀ {σ a}, σ.Intact P → σ.scope? s = some a → a.active → (m σ).2.activity = σ.activity

theorem Steady.bind {m : Eval α} {f : α → Eval β} (hm : Steady m) (hf : ∀ a, Steady (f a)) :
    Steady (m >>= f) := by
  intro σ
  have h := hm σ
  rw [bind_apply]
  rcases hx : m σ with ⟨_ | a, σ'⟩ <;> rw [hx] at h
  · exact h
  · exact (hf a σ').trans h

namespace Balances

variable {P Q : Roots} {s : Slot} {m : Eval α} {f : α → Eval β}

theorem steady (h : Steady m) : Balances P s m := ⟨fun _ _ _ => h _⟩

theorem within (h : Balances P s m) (hP : P.Within Q) : Balances Q s m :=
  ⟨fun hσ ha hact => h.run (hσ.within hP) ha hact⟩

theorem forget (h : Balances P s m) (vs : List Value) : Balances (P.plus vs) s m :=
  h.within (.plus_right (.refl P) vs)

theorem bind [Observed α] (hm : Balances P s m) (hk : Keeps P Q s m)
    (hf : ∀ a, Balances (Q.plus (held a)) s (f a)) : Balances P s (m >>= f) where
  run {σ a} hσ ha hact := by
    have h := hm.run hσ ha hact
    obtain ⟨hintact, hstays⟩ := hk.run hσ ha hact
    obtain ⟨b, hb, hbact, -⟩ := hstays.scope ha hact
    rw [bind_apply]
    rcases hx : m σ with ⟨_ | v, σ'⟩ <;> rw [hx] at h hintact hb
    · exact h
    · exact ((hf v).run hintact hb hbact).trans h

theorem bindSteady (hm : Balances P s m) (hf : ∀ a, Steady (f a)) : Balances P s (m >>= f) where
  run {σ _} hσ ha hact := by
    have h := hm.run hσ ha hact
    rw [bind_apply]
    rcases hx : m σ with ⟨_ | v, σ'⟩ <;> rw [hx] at h
    · exact h
    · exact (hf v σ').trans h

theorem test {v : Value} {f : Bool → Eval β} (hf : ∀ b, Balances P s (f b)) :
    Balances P s (truthy v >>= f) where
  run {σ _} hσ ha hact := by
    rw [bind_apply, truthy, gets_apply]
    exact (hf _).run hσ ha hact

theorem attempt (hm : Balances P s m) : Balances P s (attempt m) :=
  ⟨fun hσ ha hact => hm.run hσ ha hact⟩

end Balances

section steps

theorem pure_steady (a : α) : Steady (pure a : Eval α) := fun _ => rfl

theorem exit_steady (e : Exit) : Steady (exit e : Eval α) := fun _ => rfl

theorem fail_steady (e : EvalError) : Steady (fail e : Eval α) := fun _ => rfl

theorem updateCells_steady (f : Cells → α × Cells) : Steady (updateCells f) := fun _ => rfl

theorem literal_steady (v : Literal) : Steady (literal v) := updateCells_steady _

theorem ofScalar_steady (x : Except EvalError Scalar) : Steady (ofScalar x) := by
  cases x with
  | error e => exact fail_steady e
  | ok x => exact updateCells_steady _

theorem unary_steady (op : UnaryOp) (v : Value) : Steady (unary op v) :=
  fun σ => ofScalar_steady (v.unary σ.cells op) σ

theorem binary_steady (op : BinaryOp) (v w : Value) : Steady (binary op v w) :=
  fun σ => ofScalar_steady (Value.binary σ.cells op v w) σ

theorem truthy_steady (v : Value) : Steady (truthy v) := fun _ => rfl

theorem bind_steady (s : Slot) (x : String) (v : Value) :
    Steady (modify (·.bind s x v)) := fun _ => Store.activity_bind s x v

theorem lookup_steady (s : Slot) (x : String) : Steady (lookup s x) := by
  refine Steady.bind (m := gets (·.lookup? s x)) (fun _ => rfl) fun found => ?_
  cases found with
  | none => exact fail_steady _
  | some v => exact pure_steady v

theorem assign_steady (s : Slot) (x : String) (v : Value) : Steady (assign s x v) := by
  refine Steady.bind (m := gets (·.binder? s x)) (fun _ => rfl) fun found => ?_
  cases found with
  | none => exact fail_steady _
  | some p => exact (bind_steady p x v).bind fun _ => pure_steady v

theorem step_steady (op : StepOp) (before : Bool) (x : String) (v : Value) :
    Steady (step op before x v) := by
  cases v with
  | integer c => exact updateCells_steady _
  | float c => exact updateCells_steady _
  | _ => exact fail_steady _

theorem member_steady (v : Value) (ty : Ty) (x : String) : Steady (member v ty x) := by
  intro σ
  rw [member, Store.member?]
  rcases σ.members.get? (ty, x) with _ | (_ | _) <;> rfl

theorem defineValue_steady (s : Slot) (receiver : Option Ty) (x : String) (v : Value) :
    Steady (defineValue s receiver x v) := by
  cases receiver with
  | some ty => exact fun _ => rfl
  | none => exact bind_steady s x v

theorem defineFunction_steady (s : Slot) (heading : Heading) (body : Block) :
    Steady (defineFunction s heading body) := by
  refine Steady.bind (fun σ => ?_) fun f => ?_
  · rw [update_apply, Store.newClosure, Store.handleFor]
    cases σ.scope? s <;> rfl
  · cases heading.receiver with
    | some ty => exact fun _ => rfl
    | none => exact bind_steady s heading.name _

theorem defineAll_steady (s : Slot) (ds : List (String × Value)) : Steady (defineAll s ds) := by
  induction ds with
  | nil => exact pure_steady ()
  | cons d ds ih => exact (bind_steady s d.1 d.2).bind fun _ => ih

theorem ofBody_steady (r : Except Exit Value) : Steady (ofBody r) := by
  rcases r with (v | e | _) | v <;> exact fun _ => rfl

theorem inScope_activity {R : Reclaimer} (hR : R.Sound) {σ : Store} {P Q : Roots}
    (hσ : σ.Intact P) {parent : Slot} {p : Scope} (hp : σ.scope? parent = some p)
    {run : Slot → Eval Value} (hrun : ∀ s, Balances P s (run s)) (hk : ∀ s, Keeps P Q s (run s)) :
    (inScope R Q parent run σ).2.activity = σ.activity := by
  have hf := hσ.freeIsEmpty
  have hopen := hσ.openScope hp
  have hnew : (σ.openScope parent).2.scope? (σ.openScope parent).1 =
      some ⟨.empty, some parent, true, 0, σ.fresh⟩ := by
    rw [Store.scope?_openScope hf, if_pos rfl]
  have hnone : σ.activity (σ.openScope parent).1 = none :=
    Store.activity_of_none (Store.scope?_openScope_slot hf parent)
  have hbody := (hrun (σ.openScope parent).1).run hopen hnew rfl
  obtain ⟨hintact, -⟩ := (hk (σ.openScope parent).1).run hopen hnew rfl
  rw [inScope_apply]
  dsimp only
  rw [holdResult_eq, (hR.prunes _ hintact).activity_eq, Store.activity_deactivate, hbody,
    Store.activity_openScope hf, Function.update_idem, ← hnone, Function.update_eq_self]

end steps

structure Balanced (R : Reclaimer) (n : Nat) : Prop where
  expr : ∀ r s e, Balances r s (expr R n r s e)
  logical : ∀ r s op a b, Balances r s (logical R n r s op a b)
  arguments : ∀ r s es, Balances r s (arguments R n r s es)
  call : ∀ r s vs {v : Value} {f : Closure} {x : Option Value}, v ∈ r.values →
    v.asFunction? = some (f, x) → Balances (r.plus vs) s (call R n r f vs)
  stmt : ∀ r s c, Balances r s (stmt R n r s c)
  loop : ∀ r s e c, Balances r s (loop R n r s e c)
  statements : ∀ r s cs, Balances r s (statements R n r s cs)
  block : ∀ r s b, Balances r s (block R n r s b)
  branch : ∀ r s c, Balances r s (branch R n r s c)

namespace Balanced

variable {R : Reclaimer} {n : Nat}

theorem zero : Balanced R 0 where
  expr _ _ _ := .steady (exit_steady _)
  logical _ _ _ _ _ := .steady (exit_steady _)
  arguments _ _ _ := .steady (exit_steady _)
  call _ _ _ _ _ _ _ _ := .steady (exit_steady _)
  stmt _ _ _ := .steady (exit_steady _)
  loop _ _ _ _ := .steady (exit_steady _)
  statements _ _ _ := .steady (exit_steady _)
  block _ _ _ := .steady (exit_steady _)
  branch _ _ _ := .steady (exit_steady _)

theorem call_case (hl : Level R n) (h : Balanced R n) (r : Roots) (s : Slot) (args : List Expr)
    (v : Value) : Balances (r.plus [v]) s
      (match v.asFunction? with
        | none => fail (.notCallable v.ty)
        | some (closure, receiver) => do
          let values ← Eval.arguments R n (r.hold v) s args
          Eval.call R n (r.hold v) closure (receiver.toList ++ values)) := by
  rcases hv : v.asFunction? with _ | ⟨f, x⟩
  · exact .steady (fail_steady _)
  · refine (h.arguments (r.hold v) s args).bind (hl.arguments _ _ s s args).keeps fun vs => ?_
    exact (h.call (r.hold v) s (x.toList ++ vs) List.mem_cons_self hv).within
      (.plus_receiver r vs hv)

theorem expr_succ (hl : Level R n) (h : Balanced R n) (r : Roots) (s : Slot) (e : Expr) :
    Balances r s (Eval.expr R (n + 1) r s e) := by
  cases e with
  | name ann x =>
    simp only [Eval.expr]
    exact .steady (lookup_steady s x)
  | literal ann v =>
    simp only [Eval.expr]
    exact .steady (literal_steady v)
  | unary ann op operand =>
    simp only [Eval.expr]
    exact (h.expr r s operand).bindSteady (unary_steady op)
  | binary ann op a b =>
    simp only [Eval.expr]
    split
    · exact h.logical r s op a b
    · refine (h.expr r s a).bind (hl.expr r r s s a).keeps fun v => ?_
      exact (h.expr (r.hold v) s b).bindSteady (binary_steady op v)
  | call ann f args =>
    simp only [Eval.expr]
    exact (h.expr r s f).bind (hl.expr r r s s f).keeps fun v => h.call_case hl r s args v
  | assign ann x value =>
    simp only [Eval.expr]
    exact (h.expr r s value).bindSteady (assign_steady s x)
  | step ann op before x =>
    simp only [Eval.expr]
    exact .steady ((lookup_steady s x).bind (step_steady op before x))
  | member ann object m =>
    simp only [Eval.expr]
    exact (h.expr r s object).bindSteady fun v => member_steady v _ m

theorem logical_succ (hl : Level R n) (h : Balanced R n) (r : Roots) (s : Slot) (op : BinaryOp)
    (a b : Expr) : Balances r s (Eval.logical R (n + 1) r s op a b) := by
  simp only [Eval.logical]
  refine (h.expr r s a).bind (hl.expr r r s s a).keeps fun v => .test fun decided => ?_
  split
  · exact .steady (pure_steady _)
  · refine ((h.expr r s b).bindSteady fun w => ?_).forget [v]
    exact (truthy_steady w).bind fun _ => pure_steady _

theorem arguments_succ (hl : Level R n) (h : Balanced R n) (r : Roots) (s : Slot)
    (es : List Expr) : Balances r s (Eval.arguments R (n + 1) r s es) := by
  cases es with
  | nil =>
    simp only [Eval.arguments]
    exact .steady (pure_steady _)
  | cons e es =>
    simp only [Eval.arguments]
    refine (h.expr r s e).bind (hl.expr r r s s e).keeps fun v => ?_
    exact (h.arguments (r.hold v) s es).bindSteady fun _ => pure_steady _

theorem call_succ (hR : R.Sound) (hl : Level R n) (h : Balanced R n) (r : Roots) (s : Slot)
    (vs : List Value) {v : Value} {f : Closure} {x : Option Value} (hv : v ∈ r.values)
    (hf : v.asFunction? = some (f, x)) : Balances (r.plus vs) s (Eval.call R (n + 1) r f vs) := by
  have hr : r.Within (r.plus vs) := .plus_right (.refl r) vs
  have hdefine : ∀ p, Simulates (r.plus vs, r.plus vs) (r.plus vs, r.plus vs) p p
      (defineAll p (f.parameters.zip vs)) (defineAll p (f.parameters.zip vs)) := fun p =>
    defineAll_simulates f.parameters rfl (fun _ hm => List.mem_append_left _ hm)
      fun _ hm => List.mem_append_left _ hm
  rw [Eval.call]
  split
  · refine Balances.bindSteady (Balances.attempt ⟨fun {σ a} hσ _ _ => ?_⟩) ofBody_steady
    have hcarries : σ.Carries (r.plus vs) (.ofFunction f x) := by
      rw [← Value.functions_of_asFunction? hf]
      exact Store.carries_of_held (List.mem_append_right _ hv)
    obtain ⟨home, hhome, -⟩ := hσ.home_of_carries hcarries
    refine inScope_activity hR hσ hhome (fun p => ?_) fun p => ?_
    · exact Balances.bind (.steady (defineAll_steady p _)) (hdefine p).keeps fun _ =>
        ((h.block r p f.body).forget vs).forget []
    · exact Simulates.keeps ((hdefine p).bind hr hr fun _ _ _ =>
        (hl.block r r p p f.body).forget vs vs)
  · exact .steady (fail_steady _)

theorem stmt_succ (hl : Level R n) (h : Balanced R n) (r : Roots) (s : Slot) (c : Stmt) :
    Balances r s (Eval.stmt R (n + 1) r s c) := by
  cases c with
  | define x ty value receiver span =>
    simp only [Eval.stmt]
    exact (h.expr r s value).bindSteady fun v =>
      (defineValue_steady s receiver x v).bind fun _ => pure_steady _
  | ret value span =>
    simp only [Eval.stmt]
    exact (h.expr r s value).bindSteady fun _ => exit_steady _
  | func heading body span =>
    simp only [Eval.stmt]
    exact .steady ((defineFunction_steady s heading body).bind fun _ => pure_steady _)
  | block b =>
    simp only [Eval.stmt]
    exact h.block r s b
  | cond condition yes no span =>
    simp only [Eval.stmt]
    refine (h.expr r s condition).bind (hl.expr r r s s condition).keeps fun v =>
      .test fun holds => ?_
    split
    · exact (h.branch r s yes).forget [v]
    · cases no with
      | some no => exact (h.branch r s no).forget [v]
      | none => exact .steady (pure_steady _)
  | loop condition body span =>
    simp only [Eval.stmt]
    exact h.loop r s condition body
  | expr value span =>
    simp only [Eval.stmt]
    exact h.expr r s value
  | typeDecl name span =>
    simp only [Eval.stmt]
    exact .steady (pure_steady _)

theorem loop_succ (hl : Level R n) (h : Balanced R n) (r : Roots) (s : Slot) (e : Expr) (c : Stmt) :
    Balances r s (Eval.loop R (n + 1) r s e c) := by
  simp only [Eval.loop]
  refine (h.expr r s e).bind (hl.expr r r s s e).keeps fun v => .test fun holds => ?_
  split
  · refine ((h.branch r s c).bind (hl.branch r r s s c).keeps fun w => ?_).forget [v]
    exact (h.loop r s e c).forget [w]
  · exact .steady (pure_steady _)

theorem statements_succ (hl : Level R n) (h : Balanced R n) (r : Roots) (s : Slot)
    (cs : List Stmt) : Balances r s (Eval.statements R (n + 1) r s cs) := by
  cases cs with
  | nil =>
    simp only [Eval.statements]
    exact .steady (pure_steady _)
  | cons c cs =>
    simp only [Eval.statements]
    exact (h.stmt r s c).bind (hl.stmt r r s s c).keeps fun v => (h.statements r s cs).forget [v]

theorem succ (hR : R.Sound) (h : Balanced R n) : Balanced R (n + 1) := by
  have hl := Level.all hR n
  constructor
  case expr => exact h.expr_succ hl
  case logical => exact h.logical_succ hl
  case arguments => exact h.arguments_succ hl
  case call => exact h.call_succ hR hl
  case stmt => exact h.stmt_succ hl
  case loop => exact h.loop_succ hl
  case statements => exact h.statements_succ hl
  case block =>
    intro r s b
    simp only [Eval.block]
    exact ⟨fun hσ ha _ => inScope_activity hR hσ ha (fun p => h.statements r p b.statements)
      fun p => (hl.statements r r p p b.statements).keeps⟩
  case branch =>
    intro r s c
    simp only [Eval.branch]
    refine Balances.bindSteady ⟨fun hσ ha _ => ?_⟩ fun _ => pure_steady _
    exact inScope_activity hR hσ ha (fun p => h.stmt r p c) fun p => (hl.stmt r r p p c).keeps

theorem all (hR : R.Sound) (n : Nat) : Balanced R n := by
  induction n with
  | zero => exact zero
  | succ n ih => exact ih.succ hR

end Balanced

end Eval

end TypedScript
