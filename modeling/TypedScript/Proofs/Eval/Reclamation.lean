import TypedScript.Program.Run
import TypedScript.Proofs.Eval.Simulation
import TypedScript.Proofs.Store.Renaming

/-! Giving scopes back cannot be observed: a run that does so and one that keeps every scope go
through stores that mirror each other, step by step. -/

namespace TypedScript.Eval

open Observed (placeless held)

section rules

variable {α β : Type} [Observed α] [Observed β] {P Q : Roots × Roots} {s t : Slot}

theorem Simulates.seq {m m' : Eval α} {f f' : α → Eval β} (hm : Simulates P P s t m m')
    (hf : ∀ a b, placeless a = placeless b →
      Simulates (P.1.plus (held a), P.2.plus (held b)) P s t (f a) (f' b)) :
    Simulates P P s t (m >>= f) (m' >>= f') := hm.bind (.refl _) (.refl _) hf

theorem Simulates.attempt {m m' : Eval α} (hm : Simulates P Q s t m m') :
    Simulates P Q s t (attempt m) (attempt m') where
  run hw hh := by
    obtain ⟨hres, hworld, hl, hr⟩ := hm.run hw hh
    exact ⟨congrArg Except.ok hres, hworld, hl, hr⟩

theorem Simulates.test {v w : Value} (hvw : v.placeless = w.placeless) {f f' : Bool → Eval α}
    (hf : ∀ b, Simulates P P s t (f b) (f' b)) :
    Simulates (P.1.plus [v], P.2.plus [w]) P s t (truthy v >>= f) (truthy w >>= f') := by
  refine Simulates.bind ((truthy_simulates hvw).forget [v] [w]) (.refl _) (.refl _)
    fun a b hab => ?_
  cases (hab : a = b)
  exact (hf a).forget [] []

theorem returned_simulates {v w : Value} (hvw : v.placeless = w.placeless) :
    Simulates (P.1.plus [v], P.2.plus [w]) P s t (exit (.returned v) : Eval α)
      (exit (.returned w)) where
  run hworld _ := ⟨congrArg (Except.error ∘ Exit.returned) hvw, hworld, .refl _, .refl _⟩

theorem void_simulates : Simulates P P s t (Pure.pure Value.void : Eval Value) (Pure.pure .void) :=
  .pure rfl (.plus_plain (.refl _) rfl) (.plus_plain (.refl _) rfl)

theorem boolean_simulates (b : Bool) :
    Simulates P P s t (Pure.pure (Value.boolean b) : Eval Value) (Pure.pure (.boolean b)) :=
  .pure rfl (.plus_plain (.refl _) rfl) (.plus_plain (.refl _) rfl)

theorem ofBody_simulates {r r' : Except Exit Value} (h : placeless r = placeless r') :
    Simulates (P.1.plus (held r), P.2.plus (held r')) P s t (ofBody r) (ofBody r') := by
  rcases r with (v | e | _) | v <;> rcases r' with (w | e' | _) | w
  case ok.ok => exact void_simulates.forget [v] [w]
  case error.returned.error.returned =>
    exact .pure (Exit.returned.inj (Except.error.inj h)) (.refl _) (.refl _)
  case error.failed.error.failed =>
    cases h
    exact .fail (.refl _) (.refl _) e
  case error.outOfFuel.error.outOfFuel => exact .outOfFuel (.refl _) (.refl _)
  all_goals cases h

end rules

/-- With this much fuel, everything that is run with a reclaimer is mirrored by the run that
keeps every scope. -/
structure Level (R : Reclaimer) (n : Nat) : Prop where
  expr : ∀ (r r' : Roots) (s t : Slot) (e : Expr),
    Simulates (r, r') (r, r') s t (expr R n r s e) (expr .never n r' t e)
  logical : ∀ (r r' : Roots) (s t : Slot) (op : BinaryOp) (a b : Expr),
    Simulates (r, r') (r, r') s t (logical R n r s op a b) (logical .never n r' t op a b)
  arguments : ∀ (r r' : Roots) (s t : Slot) (es : List Expr),
    Simulates (r, r') (r, r') s t (arguments R n r s es) (arguments .never n r' t es)
  call : ∀ (r r' : Roots) (s t : Slot) (vs ws : List Value) {v w : Value} {f g : Closure}
    {x y : Option Value}, v ∈ r.values → w ∈ r'.values → v.placeless = w.placeless →
    v.asFunction? = some (f, x) → w.asFunction? = some (g, y) →
    vs.map Value.placeless = ws.map Value.placeless →
    Simulates (r.plus vs, r'.plus ws) (r, r') s t (call R n r f vs) (call .never n r' g ws)
  stmt : ∀ (r r' : Roots) (s t : Slot) (c : Stmt),
    Simulates (r, r') (r, r') s t (stmt R n r s c) (stmt .never n r' t c)
  loop : ∀ (r r' : Roots) (s t : Slot) (e : Expr) (c : Stmt),
    Simulates (r, r') (r, r') s t (loop R n r s e c) (loop .never n r' t e c)
  statements : ∀ (r r' : Roots) (s t : Slot) (cs : List Stmt),
    Simulates (r, r') (r, r') s t (statements R n r s cs) (statements .never n r' t cs)
  block : ∀ (r r' : Roots) (s t : Slot) (b : Block),
    Simulates (r, r') (r, r') s t (block R n r s b) (block .never n r' t b)
  branch : ∀ (r r' : Roots) (s t : Slot) (c : Stmt),
    Simulates (r, r') (r, r') s t (branch R n r s c) (branch .never n r' t c)

namespace Level

variable {R : Reclaimer} {n : Nat}

theorem zero : Level R 0 where
  expr _ _ _ _ _ := .outOfFuel (.refl _) (.refl _)
  logical _ _ _ _ _ _ _ := .outOfFuel (.refl _) (.refl _)
  arguments _ _ _ _ _ := .outOfFuel (.refl _) (.refl _)
  call r r' _ _ vs ws _ _ _ _ _ _ _ _ _ _ _ _ :=
    .outOfFuel (.plus_right (.refl r) vs) (.plus_right (.refl r') ws)
  stmt _ _ _ _ _ := .outOfFuel (.refl _) (.refl _)
  loop _ _ _ _ _ _ := .outOfFuel (.refl _) (.refl _)
  statements _ _ _ _ _ := .outOfFuel (.refl _) (.refl _)
  block _ _ _ _ _ := .outOfFuel (.refl _) (.refl _)
  branch _ _ _ _ _ := .outOfFuel (.refl _) (.refl _)

theorem asFunction?_mirrors {v w : Value} (h : v.placeless = w.placeless) :
    (v.asFunction? = none ∧ w.asFunction? = none) ∨
      ∃ f g x y, v.asFunction? = some (f, x) ∧ w.asFunction? = some (g, y) ∧
        x.map Value.placeless = y.map Value.placeless ∧ f.parameters = g.parameters ∧
        f.body = g.body ∧ f.home.stamp = g.home.stamp := by
  have hf := congrArg Value.asFunction? h
  rw [Value.placeless, Value.placeless, Value.asFunction?_mapHomes,
    Value.asFunction?_mapHomes] at hf
  cases hv : v.asFunction? with
  | none =>
    rw [hv, Option.map_none, eq_comm, Option.map_eq_none_iff] at hf
    exact .inl ⟨rfl, hf⟩
  | some e =>
    rw [hv, Option.map_some, eq_comm, Option.map_eq_some_iff] at hf
    obtain ⟨e', hw, he⟩ := hf
    simp only [Prod.mk.injEq, Closure.mapHome, Closure.mk.injEq, Handle.mk.injEq] at he
    exact .inr ⟨e.1, e'.1, e.2, e'.2, rfl, hw, he.2.symm, he.1.2.1.symm, he.1.2.2.1.symm,
      he.1.2.2.2.1.2.symm⟩

theorem call_case (h : Level R n) (r r' : Roots) (s t : Slot) (args : List Expr) {v w : Value}
    (hvw : v.placeless = w.placeless) :
    Simulates (r.plus [v], r'.plus [w]) (r, r') s t
      (match v.asFunction? with
        | none => fail (.notCallable v.ty)
        | some (closure, receiver) => do
          let values ← Eval.arguments R n (r.hold v) s args
          Eval.call R n (r.hold v) closure (receiver.toList ++ values))
      (match w.asFunction? with
        | none => fail (.notCallable w.ty)
        | some (closure, receiver) => do
          let values ← Eval.arguments .never n (r'.hold w) t args
          Eval.call .never n (r'.hold w) closure (receiver.toList ++ values)) := by
  have hr : r.Within (r.plus [v]) := .plus_right (.refl r) [v]
  have hr' : r'.Within (r'.plus [w]) := .plus_right (.refl r') [w]
  obtain ⟨hv, hw⟩ | ⟨f, g, x, y, hv, hw, hxy, -⟩ := asFunction?_mirrors hvw
  · rw [hv, hw, Value.ty_eq_of_placeless hvw]
    exact .fail hr hr' _
  · rw [hv, hw]
    refine (h.arguments (r.hold v) (r'.hold w) s t args).bind hr hr' fun vs ws hvs => ?_
    have hcall := h.call (r.hold v) (r'.hold w) s t (x.toList ++ vs) (y.toList ++ ws)
      List.mem_cons_self List.mem_cons_self hvw hv hw (by
        have hx : x.toList.map Value.placeless = y.toList.map Value.placeless := by
          cases x <;> cases y <;> simp_all
        have hvs' : vs.map Value.placeless = ws.map Value.placeless := hvs
        rw [List.map_append, List.map_append, hx, hvs'])
    exact hcall.within (.plus_receiver r vs hv) (.plus_receiver r' ws hw) hr hr'

theorem expr_succ (h : Level R n) (r r' : Roots) (s t : Slot) (e : Expr) :
    Simulates (r, r') (r, r') s t (Eval.expr R (n + 1) r s e)
      (Eval.expr .never (n + 1) r' t e) := by
  cases e with
  | name ann x =>
    simp only [Eval.expr]
    exact lookup_simulates x
  | literal ann v =>
    simp only [Eval.expr]
    exact literal_simulates v
  | unary ann op operand =>
    simp only [Eval.expr]
    exact (h.expr r r' s t operand).seq fun v w hvw => (unary_simulates op hvw).forget [v] [w]
  | binary ann op a b =>
    simp only [Eval.expr]
    split
    · exact h.logical r r' s t op a b
    · refine (h.expr r r' s t a).seq fun v w hvw => ?_
      refine (h.expr (r.hold v) (r'.hold w) s t b).bind (.plus_right (.refl r) [v])
        (.plus_right (.refl r') [w]) fun v' w' hvw' => ?_
      exact binary_simulates (P := (r, r')) op hvw hvw'
  | call ann f args =>
    simp only [Eval.expr]
    exact (h.expr r r' s t f).seq fun v w hvw => h.call_case r r' s t args hvw
  | assign ann x value =>
    simp only [Eval.expr]
    exact (h.expr r r' s t value).seq fun v w hvw => assign_simulates x hvw
  | step ann op before x =>
    simp only [Eval.expr]
    exact (lookup_simulates x).seq fun v w hvw => (step_simulates op before x hvw).forget [v] [w]
  | member ann object m =>
    simp only [Eval.expr]
    refine (h.expr r r' s t object).seq fun v w hvw => ?_
    have hty : memberTy object.ty v = memberTy object.ty w := by
      rw [memberTy, memberTy, Value.ty_eq_of_placeless hvw]
    rw [hty]
    exact member_simulates hvw _ m

theorem logical_succ (h : Level R n) (r r' : Roots) (s t : Slot) (op : BinaryOp) (a b : Expr) :
    Simulates (r, r') (r, r') s t (Eval.logical R (n + 1) r s op a b)
      (Eval.logical .never (n + 1) r' t op a b) := by
  simp only [Eval.logical]
  refine (h.expr r r' s t a).seq fun v w hvw => ?_
  refine Simulates.test hvw fun decided => ?_
  split
  · exact boolean_simulates decided
  · exact (h.expr r r' s t b).seq fun v w hvw => .test hvw boolean_simulates

theorem arguments_succ (h : Level R n) (r r' : Roots) (s t : Slot) (es : List Expr) :
    Simulates (r, r') (r, r') s t (Eval.arguments R (n + 1) r s es)
      (Eval.arguments .never (n + 1) r' t es) := by
  cases es with
  | nil =>
    simp only [Eval.arguments]
    exact .pure rfl (.refl _) (.refl _)
  | cons e es =>
    simp only [Eval.arguments]
    refine (h.expr r r' s t e).seq fun v w hvw => ?_
    refine (h.arguments (r.hold v) (r'.hold w) s t es).bind (.plus_right (.refl r) [v])
      (.plus_right (.refl r') [w]) fun vs ws hvs => ?_
    have hall : ∀ (q : Roots) (u : Value) (us : List Value),
        (q.plus (u :: us)).Within ((q.hold u).plus us) := by
      intro q u us
      refine .plus_left (.plus_right (.plus_right (.refl q) [u]) us) fun x hx => ?_
      obtain rfl | hx := List.mem_cons.1 hx
      · exact List.mem_append_right _ List.mem_cons_self
      · exact List.mem_append_left _ hx
    exact .pure (congrArg₂ List.cons hvw hvs) (hall r v vs) (hall r' w ws)

theorem home_twins {σ τ : Store} {P : Roots × Roots} (hw : World σ τ P) {v w : Value}
    {f g : Closure} {x y : Option Value} (hv : v ∈ P.1.values) (hw' : w ∈ P.2.values)
    (hf : v.asFunction? = some (f, x)) (hg : w.asFunction? = some (g, y))
    (hst : f.home.stamp = g.home.stamp) : σ.Twins τ f.home.slot g.home.slot := by
  have hcv : σ.Carries P.1 v := Store.carries_of_held hv
  have hcw : τ.Carries P.2 w := Store.carries_of_held hw'
  rw [Value.functions_of_asFunction? hf] at hcv
  rw [Value.functions_of_asFunction? hg] at hcw
  obtain ⟨a, ha, has⟩ := hw.left.home_of_carries hcv
  obtain ⟨b, hb, hbs⟩ := hw.right.home_of_carries hcw
  exact ⟨a, b, ha, hb, by omega⟩

theorem call_succ (hR : R.Sound) (h : Level R n) (r r' : Roots) (s t : Slot) (vs ws : List Value)
    {v w : Value} {f g : Closure} {x y : Option Value} (hv : v ∈ r.values)
    (hw : w ∈ r'.values) (hvw : v.placeless = w.placeless) (hf : v.asFunction? = some (f, x))
    (hg : w.asFunction? = some (g, y)) (hvs : vs.map Value.placeless = ws.map Value.placeless) :
    Simulates (r.plus vs, r'.plus ws) (r, r') s t (Eval.call R (n + 1) r f vs)
      (Eval.call .never (n + 1) r' g ws) := by
  obtain ⟨hnone, -⟩ | ⟨f', g', x', y', hf', hg', -, hparams, hbody, hst⟩ := asFunction?_mirrors hvw
  · rw [hf] at hnone
    cases hnone
  rw [hf] at hf'
  rw [hg] at hg'
  cases hf'
  cases hg'
  have hlen : vs.length = ws.length := by simpa using congrArg List.length hvs
  have hr : r.Within (r.plus vs) := .plus_right (.refl r) vs
  have hr' : r'.Within (r'.plus ws) := .plus_right (.refl r') ws
  rw [Eval.call, Eval.call, ← hparams, ← hbody, ← hlen]
  split
  · refine Simulates.bind (M := (r, r')) (Simulates.attempt ⟨fun hworld hh => ?_⟩)
      (.refl _) (.refl _) fun a b hab => ofBody_simulates hab
    refine inScope_ends hR hworld (home_twins hworld ?_ ?_ hf hg hst) fun p q => ?_
    · exact List.mem_append_right _ hv
    · exact List.mem_append_right _ hw
    · refine (defineAll_simulates f.parameters hvs (fun _ hm => List.mem_append_left _ hm)
        fun _ hm => List.mem_append_left _ hm).bind hr hr' fun _ _ _ => ?_
      exact (h.block r r' p q f.body).forget vs ws
  · exact .fail hr hr' _

theorem stmt_succ (h : Level R n) (r r' : Roots) (s t : Slot) (c : Stmt) :
    Simulates (r, r') (r, r') s t (Eval.stmt R (n + 1) r s c)
      (Eval.stmt .never (n + 1) r' t c) := by
  cases c with
  | define x ty value receiver span =>
    simp only [Eval.stmt]
    refine (h.expr r r' s t value).seq fun v w hvw => ?_
    exact Simulates.bind (defineValue_simulates receiver x hvw) (.refl _) (.refl _)
      fun _ _ _ => void_simulates
  | ret value span =>
    simp only [Eval.stmt]
    exact (h.expr r r' s t value).seq fun v w hvw => returned_simulates hvw
  | func heading body span =>
    simp only [Eval.stmt]
    exact (defineFunction_simulates heading body).seq fun _ _ _ => void_simulates
  | block b =>
    simp only [Eval.stmt]
    exact h.block r r' s t b
  | cond condition yes no span =>
    simp only [Eval.stmt]
    refine (h.expr r r' s t condition).seq fun v w hvw => ?_
    refine Simulates.test hvw fun holds => ?_
    split
    · exact h.branch r r' s t yes
    · cases no with
      | some no => exact h.branch r r' s t no
      | none => exact void_simulates
  | loop condition body span =>
    simp only [Eval.stmt]
    exact h.loop r r' s t condition body
  | expr value span =>
    simp only [Eval.stmt]
    exact h.expr r r' s t value
  | typeDecl name span =>
    simp only [Eval.stmt]
    exact void_simulates

theorem loop_succ (h : Level R n) (r r' : Roots) (s t : Slot) (e : Expr) (c : Stmt) :
    Simulates (r, r') (r, r') s t (Eval.loop R (n + 1) r s e c)
      (Eval.loop .never (n + 1) r' t e c) := by
  simp only [Eval.loop]
  refine (h.expr r r' s t e).seq fun v w hvw => ?_
  refine Simulates.test hvw fun holds => ?_
  split
  · exact (h.branch r r' s t c).seq fun a b _ => (h.loop r r' s t e c).forget [a] [b]
  · exact void_simulates

theorem statements_succ (h : Level R n) (r r' : Roots) (s t : Slot) (cs : List Stmt) :
    Simulates (r, r') (r, r') s t (Eval.statements R (n + 1) r s cs)
      (Eval.statements .never (n + 1) r' t cs) := by
  cases cs with
  | nil =>
    simp only [Eval.statements]
    exact void_simulates
  | cons c cs =>
    simp only [Eval.statements]
    exact (h.stmt r r' s t c).seq fun a b _ => (h.statements r r' s t cs).forget [a] [b]

theorem succ (hR : R.Sound) (h : Level R n) : Level R (n + 1) where
  expr := h.expr_succ
  logical := h.logical_succ
  arguments := h.arguments_succ
  call := h.call_succ hR
  stmt := h.stmt_succ
  loop := h.loop_succ
  statements := h.statements_succ
  block r r' s t b := by
    simp only [Eval.block]
    exact ⟨fun hw hh => inScope_ends hR hw hh.twins fun p q => h.statements r r' p q b.statements⟩
  branch r r' s t c := by
    simp only [Eval.branch]
    refine Simulates.seq ⟨fun hw hh => inScope_ends hR hw hh.twins fun p q => h.stmt r r' p q c⟩ ?_
    exact fun a b _ => void_simulates.forget [a] [b]

theorem all (hR : R.Sound) (n : Nat) : Level R n := by
  induction n with
  | zero => exact zero
  | succ n ih => exact ih.succ hR

end Level

theorem evaluateFrom_simulates {R : Reclaimer} (hR : R.Sound) (n : Nat) (r r' : Roots)
    {v w : Value} (hvw : v.placeless = w.placeless) (cs : List Stmt) :
    Simulates (r.plus [v], r'.plus [w]) (r, r') Store.global Store.global
      (Program.evaluateFrom R n r v cs) (Program.evaluateFrom .never n r' w cs) := by
  induction cs generalizing v w with
  | nil => exact .pure hvw (.refl _) (.refl _)
  | cons c cs ih =>
    refine Simulates.bind (((Level.all hR n).stmt (r.hold v) (r'.hold w) _ _ c).attempt)
      (.plus_right (.refl r) [v]) (.plus_right (.refl r') [w]) fun a b hab => ?_
    rcases a with (x | e | _) | x <;> rcases b with (y | e' | _) | y
    case ok.ok =>
      refine (ih (Except.ok.inj hab)).within ?_ ?_ (.refl r) (.refl r')
      · exact .plus_same (.plus_right (.refl r) [v]) [x]
      · exact .plus_same (.plus_right (.refl r') [w]) [y]
    case error.returned.error.returned =>
      refine .pure (Exit.returned.inj (Except.error.inj hab)) ?_ ?_
      · exact .plus_same (.plus_right (.refl r) [v]) [x]
      · exact .plus_same (.plus_right (.refl r') [w]) [y]
    case error.failed.error.failed =>
      cases hab
      exact .fail (.plus_right (.refl r) [v]) (.plus_right (.refl r') [w]) e
    case error.outOfFuel.error.outOfFuel =>
      exact .outOfFuel (.plus_right (.refl r) [v]) (.plus_right (.refl r') [w])
    all_goals cases hab

end TypedScript.Eval

namespace TypedScript.Program

theorem evaluateFrom_ne_returned (R : Reclaimer) (n : Nat) (r : Roots) (v : Value) (cs : List Stmt)
    (σ : Store) (w : Value) : (evaluateFrom R n r v cs σ).1 ≠ .error (.returned w) := by
  induction cs generalizing v σ with
  | nil => exact nofun
  | cons c cs ih =>
    rw [evaluateFrom, Eval.bind_apply, Eval.attempt_apply]
    rcases Eval.stmt R n (r.hold v) Store.global c σ with ⟨(_ | _ | _) | u, σ'⟩
    · exact nofun
    · exact nofun
    · exact nofun
    · exact ih u σ'

/-- Two runs end with the same error, or with values that are the same but for the slots of
their scopes, in stores that are. -/
def SameOutcome (x y : Except Exit Value × Store) : Prop :=
  ∃ ρ, x.2.Renames ρ y.2 ∧ match x.1, y.1 with
    | .ok v, .ok w => w = v.rename ρ ∧ w.text y.2.cells = v.text x.2.cells ∧ w.ty = v.ty ∧
      w.truthy y.2.cells = v.truthy x.2.cells
    | .error (.failed e), .error (.failed e') => e' = e
    | .error .outOfFuel, .error .outOfFuel => True
    | _, _ => False

theorem sameOutcome {R : Reclaimer} (hR : R.Sound) (n : Nat) (cs : List Stmt) :
    SameOutcome (evaluateFrom R n .none .void cs .initial)
      (evaluateFrom .never n .none .void cs .initial) := by
  have hstart : Eval.World .initial .initial
      (Roots.none.plus [.void], Roots.none.plus [.void]) := by
    have h := Store.Intact.initial.within (.plus_plain (.refl Roots.none) (v := .void) rfl)
    exact ⟨h, h, .refl h.toTidy⟩
  have hhere : Eval.Here .initial .initial Store.global Store.global := by
    refine ⟨⟨_, _, rfl, rfl, rfl⟩, fun h => ?_, fun h => ?_⟩ <;> cases h <;> rfl
  obtain ⟨hres, ⟨hσ, hτ, hmirrors⟩, -, -⟩ :=
    (Eval.evaluateFrom_simulates hR n .none .none rfl cs).run hstart hhere
  obtain ⟨ρ, hρ⟩ := hmirrors.exists_follows
  have hne := evaluateFrom_ne_returned R n .none .void cs .initial
  have hcells := hmirrors.cells
  refine ⟨ρ, hρ.renames hσ hτ hmirrors, ?_⟩
  revert hres hσ hτ hne
  generalize evaluateFrom R n .none .void cs .initial = x at hcells hρ ⊢
  generalize evaluateFrom .never n .none .void cs .initial = y at hcells hρ ⊢
  obtain ⟨(v | e | _) | v, σ⟩ := x <;> obtain ⟨(w | e' | _) | w, τ⟩ := y <;> intro hres hσ hτ hne
  case ok.ok =>
    have hvw : w = v.rename ρ := hρ.value hσ hτ (Store.carries_of_held List.mem_cons_self)
      (Store.carries_of_held List.mem_cons_self) (Except.ok.inj hres).symm
    dsimp only at hcells ⊢
    subst hvw
    refine ⟨rfl, ?_, Value.ty_mapHomes _ v, ?_⟩
    · rw [hcells, Value.rename, Value.text_mapHomes]
    · rw [hcells, Value.rename, Value.truthy_mapHomes]
  case error.returned.error.returned => exact hne v rfl
  case error.failed.error.failed =>
    cases hres
    rfl
  case error.outOfFuel.error.outOfFuel => trivial
  all_goals cases hres

/-- Giving scopes back, at whatever moments collections are added, changes nothing that a run
shows: at every depth of evaluation it ends as the run that keeps every scope. -/
theorem reclamation_unobservable (n : Nat) (cs : List Stmt) :
    SameOutcome (evaluateFrom .standard n .none .void cs .initial)
      (evaluateFrom .never n .none .void cs .initial) ∧
    ∀ due, SameOutcome (evaluateFrom (.eager due) n .none .void cs .initial)
      (evaluateFrom .never n .none .void cs .initial) :=
  ⟨sameOutcome Reclaimer.standard_sound n cs,
    fun due => sameOutcome (Reclaimer.eager_sound due) n cs⟩

end TypedScript.Program
