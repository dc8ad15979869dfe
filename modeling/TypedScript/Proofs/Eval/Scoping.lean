import TypedScript.Proofs.Eval.Agreement
import TypedScript.Proofs.Eval.Preservation

namespace TypedScript

namespace Guarded

open Eval (Keeps Level Observed)
open Eval.Observed (held)

variable {α : Type} {σ : Store} {s : Slot} {k : Nat} {xs : List String} {good : Store → α → Prop}

structure Faithful (R : Reclaimer) (n : Nat) : Prop where
  expr : ∀ {σ r s k Γ e}, Stage σ r s k → Expr.checks Γ e = true → σ.Reflects Γ.scopes k →
    Agrees σ k [] (fun σ' v => v.Scoped σ') ((observer R).expr n r s e σ) (Eval.expr R n r s e σ)
  logical : ∀ {σ r s k Γ op a b}, Stage σ r s k → Expr.checks Γ a = true →
    Expr.checks Γ b = true → σ.Reflects Γ.scopes k →
    Agrees σ k [] (fun σ' v => v.Scoped σ') ((observer R).logical n r s op a b σ)
      (Eval.logical R n r s op a b σ)
  arguments : ∀ {σ r s k Γ es}, Stage σ r s k → Expr.checksAll Γ es = true →
    σ.Reflects Γ.scopes k →
    Agrees σ k [] (fun σ' vs => ∀ v ∈ vs, v.Scoped σ') ((observer R).arguments n r s es σ)
      (Eval.arguments R n r s es σ)
  call : ∀ {σ r s k v f x vs}, Stage σ (Roots.plus r vs) s k → v ∈ r.values →
    v.asFunction? = some (f, x) → v.Scoped σ → (∀ w ∈ vs, w.Scoped σ) →
    Agrees σ k [] (fun σ' v => v.Scoped σ') ((observer R).call n r f vs σ) (Eval.call R n r f vs σ)
  stmt : ∀ {σ r s k Γ Δ c}, Stage σ r s k → Stmt.check Γ c = some Δ → σ.Tracks Γ k →
    Agrees σ k (c.defines.map Prod.fst) (fun σ' _ => σ'.Tracks Δ k) ((observer R).stmt n r s c σ)
      (Eval.stmt R n r s c σ)
  loop : ∀ {σ r s k} {Γ Δ : Context} {e c}, Stage σ r s k → Expr.checks Γ e = true →
    Stmt.check Γ.enter c = some Δ → σ.Reflects Γ.scopes k →
    Agrees σ k [] (fun _ _ => True) ((observer R).loop n r s e c σ) (Eval.loop R n r s e c σ)
  statements : ∀ {σ r s k Γ Δ cs}, Stage σ r s k → Stmt.checkList Γ cs = some Δ →
    σ.Tracks Γ k →
    Agrees σ k ((Stmt.definesAll cs).map Prod.fst) (fun _ _ => True)
      ((observer R).statements n r s cs σ) (Eval.statements R n r s cs σ)
  block : ∀ {σ r s k Γ Δ b}, Stage σ r s k → Block.check Γ b = some Δ → σ.Reflects Γ.scopes k →
    Agrees σ k [] (fun _ _ => True) ((observer R).block n r s b σ) (Eval.block R n r s b σ)
  branch : ∀ {σ r s k} {Γ Δ : Context} {c}, Stage σ r s k → Stmt.check Γ.enter c = some Δ →
    σ.Reflects Γ.scopes k →
    Agrees σ k [] (fun _ _ => True) ((observer R).branch n r s c σ) (Eval.branch R n r s c σ)

namespace Faithful

variable {R : Reclaimer} {n : Nat} {r : Roots} {Γ Δ : Context}

theorem zero : Faithful R 0 where
  expr hs _ _ := .outOfFuel hs
  logical hs _ _ _ := .outOfFuel hs
  arguments hs _ _ := .outOfFuel hs
  call hs _ _ _ _ := .outOfFuel hs
  stmt hs _ _ := .outOfFuel hs
  loop hs _ _ _ := .outOfFuel hs
  statements hs _ _ := .outOfFuel hs
  block hs _ _ := .outOfFuel hs
  branch hs _ _ := .outOfFuel hs

theorem test {v : Value} (hs : Stage σ (r.plus [v]) s k) {g : Bool → Guarded α}
    {f : Bool → Eval α} (hf : ∀ {σ'} b, Stage σ' r s k → σ.Advances k [] σ' →
      Agrees σ' k xs good (g b σ') (f b σ')) :
    Agrees σ k xs good ((lift (Eval.truthy v) >>= g) σ) ((Eval.truthy v >>= f) σ) := by
  have hkeeps : Keeps (r.plus [v]) (r.plus [v]) s (Eval.truthy v) :=
    (Eval.truthy_simulates rfl).keeps
  refine (truthy_agrees hs v).seq hs hkeeps fun {b _} hs' he _ => hf b (hs'.within ?_) he
  exact Roots.Within.plus_right (.plus_right (.refl r) [v]) []

theorem call_case (hR : R.Sound) (h : Faithful R n) {f : Expr} {args : List Expr}
    (hs : Stage σ r s k) (hf : f.checks Γ = true) (hargs : Expr.checksAll Γ args = true)
    (hr : σ.Reflects Γ.scopes k) :
    Agrees σ k [] (fun σ' v => v.Scoped σ')
      ((do
        let callee ← (observer R).expr n r s f
        match callee.asFunction? with
        | none => lift (Eval.fail (.notCallable callee.ty))
        | some (closure, receiver) =>
          let values ← (observer R).arguments n (r.hold callee) s args
          (observer R).call n (r.hold callee) closure
            (receiver.toList ++ values) : Guarded Value) σ)
      ((do
        let callee ← Eval.expr R n r s f
        match callee.asFunction? with
        | none => Eval.fail (.notCallable callee.ty)
        | some (closure, receiver) =>
          let values ← Eval.arguments R n (r.hold callee) s args
          Eval.call R n (r.hold callee) closure (receiver.toList ++ values) : Eval Value) σ) := by
  refine (h.expr hs hf hr).seq hs ((Level.all hR n).expr r r s s f).keeps
    fun {v σ₁} hs₁ he₁ hv => ?_
  have hr₁ := he₁.reflects hs₁.tidy hs.lt hr
  cases hcallee : v.asFunction? with
  | none => exact .fail hs₁ nofun
  | some c =>
    obtain ⟨g, receiver⟩ := c
    refine (h.arguments hs₁ hargs hr₁).seq hs₁ ((Level.all hR n).arguments _ _ s s args).keeps
      fun {vs σ₂} hs₂ he₂ hvs => ?_
    have hv₂ := he₂.value hs₂.tidy hv
    refine h.call (hs₂.within (.plus_receiver r vs hcallee)) List.mem_cons_self hcallee hv₂ ?_
    intro w hw
    obtain hw | hw := List.mem_append.1 hw
    · exact hv₂.receiver hcallee (Option.mem_toList.1 hw)
    · exact hvs w hw

theorem expr_succ (hR : R.Sound) (h : Faithful R n) {e : Expr} (hs : Stage σ r s k)
    (hc : e.checks Γ = true) (hr : σ.Reflects Γ.scopes k) :
    Agrees σ k [] (fun σ' v => v.Scoped σ') ((observer R).expr (n + 1) r s e σ)
      (Eval.expr R (n + 1) r s e σ) := by
  cases e with
  | name a x => exact lookup_agrees hs hr (Expr.checks_name.1 hc)
  | literal a v => exact updateCells_agrees hs fun cells => Eval.literal_plain cells v
  | unary a op e =>
    refine (h.expr hs (Expr.checks_unary.1 hc).1 hr).seq hs
      ((Level.all hR n).expr r r s s e).keeps fun hs' _ _ => ?_
    exact ofScalar_agrees hs' fun y => Value.unary_ne_undeclared _ op _ y
  | binary a op x y =>
    obtain ⟨hx, hy, -, -⟩ := Expr.checks_binary.1 hc
    simp only [Observer.expr, Eval.expr]
    split
    · exact h.logical hs hx hy hr
    · refine (h.expr hs hx hr).seq hs ((Level.all hR n).expr r r s s x).keeps
        fun hs₁ he₁ _ => ?_
      have hr₁ := he₁.reflects hs₁.tidy hs.lt hr
      refine (h.expr hs₁ hy hr₁).seq hs₁ ((Level.all hR n).expr _ _ s s y).keeps fun hs₂ _ _ => ?_
      exact ofScalar_agrees hs₂ fun y => Value.binary_ne_undeclared _ op _ _ y
  | call a f args =>
    obtain ⟨hf, hargs, -⟩ := Expr.checks_call.1 hc
    exact h.call_case hR hs hf hargs hr
  | assign a x e =>
    obtain ⟨hx, he, -⟩ := Expr.checks_assign.1 hc
    refine (h.expr hs he hr).seq hs ((Level.all hR n).expr r r s s e).keeps fun hs' he' hv => ?_
    exact assign_agrees hs' (he'.reflects hs'.tidy hs.lt hr) hx hv
  | step a op before x =>
    have hkeeps : Keeps r r s (Eval.lookup s x) := (Eval.lookup_simulates x).keeps
    change Agrees σ k [] _ (act R r (.step s op before x) σ) _
    rw [act_of_none rfl, Action.run, lift_bind]
    refine (lookup_agrees hs hr (Expr.checks_step.1 hc).1).seq hs hkeeps fun hs' _ _ => ?_
    exact step_agrees hs' op before x _
  | member a e m =>
    refine (h.expr hs (Expr.checks_member.1 hc).1 hr).seq hs
      ((Level.all hR n).expr r r s s e).keeps fun hs' _ hv => ?_
    exact member_agrees hs' List.mem_cons_self hv _ m

theorem logical_succ (hR : R.Sound) (h : Faithful R n) {op : BinaryOp} {a b : Expr}
    (hs : Stage σ r s k) (ha : a.checks Γ = true) (hb : b.checks Γ = true)
    (hr : σ.Reflects Γ.scopes k) :
    Agrees σ k [] (fun σ' v => v.Scoped σ') ((observer R).logical (n + 1) r s op a b σ)
      (Eval.logical R (n + 1) r s op a b σ) := by
  refine (h.expr hs ha hr).seq hs ((Level.all hR n).expr r r s s a).keeps
    fun hs₁ he₁ _ => test hs₁ fun decided hs₂ he₂ => ?_
  split
  · exact .pure hs₂ nofun
  · have hr₂ := (he₁.trans hs.tidy he₂).reflects hs₂.tidy hs.lt hr
    refine (h.expr hs₂ hb hr₂).seq hs₂ ((Level.all hR n).expr r r s s b).keeps fun hs₃ _ _ => ?_
    exact test hs₃ fun _ hs₄ _ => .pure hs₄ nofun

theorem arguments_succ (hR : R.Sound) (h : Faithful R n) {es : List Expr} (hs : Stage σ r s k)
    (hc : Expr.checksAll Γ es = true) (hr : σ.Reflects Γ.scopes k) :
    Agrees σ k [] (fun σ' vs => ∀ v ∈ vs, v.Scoped σ') ((observer R).arguments (n + 1) r s es σ)
      (Eval.arguments R (n + 1) r s es σ) := by
  cases es with
  | nil => exact .pure hs nofun
  | cons e es =>
    rw [Expr.checksAll, Bool.and_eq_true] at hc
    refine (h.expr hs hc.1 hr).seq hs ((Level.all hR n).expr r r s s e).keeps
      fun {v σ₁} hs₁ he₁ hv => ?_
    have hrest := h.arguments hs₁ hc.2 (he₁.reflects hs₁.tidy hs.lt hr)
    refine (hrest.imp fun he₂ hτ hvs => ?_).map fun _ _ hvs => hvs
    exact List.forall_mem_cons.2 ⟨he₂.value hτ hv, hvs⟩

theorem body_agrees (h : Faithful R n) {f : Closure} {vs : List Value} {bs : List (String × Ty)}
    {Γ₂ : Context} (hs : Stage σ (r.plus vs) s k) (hvs : ∀ v ∈ vs, v.Scoped σ)
    (hlen : vs.length = bs.length) (ht : σ.Tracks Γ k) (hbound : Γ.bindAll? bs = some Δ)
    (hbody : f.body.check Δ = some Γ₂) :
    Agrees σ k (bs.map Prod.fst) (fun _ _ => True)
      ((do
        (observer R).defineAll (r.plus vs) s ((bs.map Prod.fst).zip vs)
        (observer R).block n r s f.body : Guarded Value) σ)
      ((do
        Eval.defineAll s ((bs.map Prod.fst).zip vs)
        Eval.block R n r s f.body : Eval Value) σ) := by
  have hheld : ∀ w ∈ vs, w ∈ (r.plus vs).values := fun _ hw => List.mem_append_left _ hw
  have hkeeps : Keeps (r.plus vs) (r.plus vs) s (Eval.defineAll s ((bs.map Prod.fst).zip vs)) :=
    (Eval.defineAll_simulates _ rfl hheld hheld).keeps
  refine (defineAll_agrees R (r.plus vs) hs hheld hvs hlen ht hbound).bind hs hkeeps
    (fun _ hy => hy) fun hs₁ _ ht₁ => ?_
  have hs₂ := hs₁.within (.plus_right (.plus_right (.refl r) vs) [])
  exact (h.block hs₂ hbody ht₁.reflects).widen nofun

theorem call_succ (hR : R.Sound) (h : Faithful R n) {v : Value} {f : Closure} {x : Option Value}
    {vs : List Value} (hs : Stage σ (r.plus vs) s k) (hv : v ∈ r.values)
    (hx : v.asFunction? = some (f, x)) (hplace : v.Scoped σ) (hvs : ∀ w ∈ vs, w.Scoped σ) :
    Agrees σ k [] (fun σ' v => v.Scoped σ') ((observer R).call (n + 1) r f vs σ)
      (Eval.call R (n + 1) r f vs σ) := by
  have hcarries : σ.Carries (r.plus vs) (.ofFunction f x) :=
    Value.functions_of_asFunction? hx ▸ Store.carries_of_held (List.mem_append_right _ hv)
  obtain ⟨a, ha, hst⟩ := hs.intact.home_of_carries hcarries
  obtain ⟨bs, Γ, Γ₁, Γ₂, hf⟩ := hplace.closure hx
  rw [Observer.call, Eval.call]
  split
  · rename_i hlen
    have hkeeps : ∀ p, Keeps (r.plus vs) r p (do
        Eval.defineAll p (f.parameters.zip vs)
        Eval.block R n r p f.body) := fun p => by
      simpa only [Traced.defineAll_eq, Recorded.erase_bind, Recorded.erase_lift,
        (Traced.recorder.erases R n).block]
        using Eval.body_keeps hR n r p f vs
    refine ofBody_agrees R (inScope_agrees hR hs ha (Γ := Γ.enterFunction f.signature.result) rfl
      (hst ▸ hf.reflects) (bs.map Prod.fst) hkeeps fun hs₁ he₁ ht => ?_)
    rw [hf.parameters] at hlen ⊢
    rw [List.length_map] at hlen
    exact h.body_agrees hs₁ (fun w hw => he₁.value hs₁.tidy (hvs w hw)) hlen ht hf.bound hf.body
  · exact .fail hs fun _ h => by cases h

theorem cond_case (hR : R.Sound) (h : Faithful R n) {e : Expr} {yes : Stmt} {no : Option Stmt}
    {span : Span} (hs : Stage σ r s k) (hc : (Stmt.cond e yes no span).check Γ = some Δ)
    (ht : σ.Tracks Γ k) :
    Agrees σ k [] (fun _ _ => True) ((observer R).stmt (n + 1) r s (.cond e yes no span) σ)
      (Eval.stmt R (n + 1) r s (.cond e yes no span) σ) := by
  obtain ⟨he, Γ₁, hyes, hno⟩ := Stmt.check_cond_eq_some hc
  have hgrows : Γ.Grows [] Γ₁.leave := (Stmt.check_grows hyes).leave rfl rfl
  refine (h.expr hs he ht.reflects).seq hs ((Level.all hR n).expr r r s s e).keeps
    fun hs₁ he₁ _ => test hs₁ fun holds hs₂ he₂ => ?_
  have ht₂ := (he₁.trans hs.tidy he₂).still hs₂.tidy hs.lt (.refl Γ) ht
  split
  · exact h.branch hs₂ hyes ht₂.reflects
  · cases no with
    | none => exact .pure hs₂ trivial
    | some no =>
      obtain ⟨Γ₂, hno', -⟩ := Option.map_eq_some_iff.1 hno
      exact h.branch hs₂ hno' (ht₂.congr hgrows).reflects

theorem stmt_succ (hR : R.Sound) (h : Faithful R n) {c : Stmt} (hs : Stage σ r s k)
    (hc : c.check Γ = some Δ) (ht : σ.Tracks Γ k) :
    Agrees σ k (c.defines.map Prod.fst) (fun σ' _ => σ'.Tracks Δ k)
      ((observer R).stmt (n + 1) r s c σ) (Eval.stmt R (n + 1) r s c σ) := by
  -- behind a statement that defines nothing, the scope is what it was
  have hstill : ∀ {σ' : Store}, c.defines = [] → σ.Advances k [] σ' → σ'.Tidy → σ'.Tracks Δ k :=
    fun hd he hτ => he.still hτ hs.lt (hd ▸ Stmt.check_grows hc) ht
  cases c with
  | define x ty e receiver span =>
    obtain ⟨he, -, -, -, hd⟩ := Stmt.check_define_eq_some hc
    rw [Stmt.defines_define]
    refine (h.expr hs he ht.reflects).seq hs ((Level.all hR n).expr r r s s e).keeps
      fun hs' he' hv => ?_
    exact defineValue_agrees R r hs' (he'.still hs'.tidy hs.lt (.refl Γ) ht) hd hv
  | ret e span =>
    refine (h.expr hs (Stmt.check_ret_eq_some hc).2.1 ht.reflects).seq hs
      ((Level.all hR n).expr r r s s e).keeps fun {v _} hs' _ hv => ?_
    refine .exit hs' (fun w hw => ?_) nofun
    cases hw
    exact hv
  | func heading body span =>
    obtain ⟨Γ₁, Γ₂, Γ₃, hf, rfl⟩ := Stmt.check_func_eq_some hc
    rw [Stmt.defines_func]
    have hbody := (Context.Grows.bindAll? hf.bound).trans (Block.check_grows hf.body)
    have hleave : Γ₁.Grows [] Γ₃.leave := hbody.leave rfl rfl
    exact (defineFunction_agrees R r hs ht hf).imp fun _ _ ht' => ht'.congr hleave
  | block b => exact (h.block hs hc ht.reflects).imp fun he hτ _ => hstill rfl he hτ
  | cond e yes no span =>
    exact (h.cond_case hR hs hc ht).imp fun he hτ _ => hstill rfl he hτ
  | loop e body span =>
    obtain ⟨he, Γ₁, hbody, -⟩ := Stmt.check_loop_eq_some hc
    exact (h.loop hs he hbody ht.reflects).imp fun he hτ _ => hstill rfl he hτ
  | expr e span =>
    exact (h.expr hs (Stmt.check_expr_eq_some hc).2 ht.reflects).imp
      fun he hτ _ => hstill rfl he hτ
  | typeDecl name span => exact .pure hs (hstill rfl (.refl _ σ k []) hs.tidy)

theorem loop_succ (hR : R.Sound) (h : Faithful R n) {e : Expr} {c : Stmt} (hs : Stage σ r s k)
    (he : e.checks Γ = true) (hc : c.check Γ.enter = some Δ) (hr : σ.Reflects Γ.scopes k) :
    Agrees σ k [] (fun _ _ => True) ((observer R).loop (n + 1) r s e c σ)
      (Eval.loop R (n + 1) r s e c σ) := by
  refine (h.expr hs he hr).seq hs ((Level.all hR n).expr r r s s e).keeps
    fun hs₁ he₁ _ => test hs₁ fun holds hs₂ he₂ => ?_
  have hr₂ := (he₁.trans hs.tidy he₂).reflects hs₂.tidy hs.lt hr
  split
  · refine (h.branch hs₂ hc hr₂).seq hs₂ ((Level.all hR n).branch r r s s c).keeps
      fun {v _} hs₃ he₃ _ => ?_
    have hs₄ := hs₃.within (.plus_right (.refl r) [v])
    exact h.loop hs₄ he hc (he₃.reflects hs₄.tidy hs₂.lt hr₂)
  · exact .pure hs₂ trivial

theorem statements_succ (hR : R.Sound) (h : Faithful R n) {cs : List Stmt} (hs : Stage σ r s k)
    (hcs : Stmt.checkList Γ cs = some Δ) (ht : σ.Tracks Γ k) :
    Agrees σ k ((Stmt.definesAll cs).map Prod.fst) (fun _ _ => True)
      ((observer R).statements (n + 1) r s cs σ) (Eval.statements R (n + 1) r s cs σ) := by
  cases cs with
  | nil => exact .pure hs trivial
  | cons c cs =>
    obtain ⟨Γ₁, hc, hcs⟩ := Stmt.checkList_cons_eq_some hcs
    rw [Stmt.definesAll, List.flatMap_cons, List.map_append]
    refine (h.stmt hs hc ht).bind hs ((Level.all hR n).stmt r r s s c).keeps
      (fun _ hy => List.mem_append_left _ hy) fun {v _} hs₁ _ ht₁ => ?_
    exact (h.statements (hs₁.within (.plus_right (.refl r) [v])) hcs ht₁).widen
      fun _ hy => List.mem_append_right _ hy

theorem block_succ (hR : R.Sound) (h : Faithful R n) {b : Block} (hs : Stage σ r s k)
    (hb : b.check Γ = some Δ) (hr : σ.Reflects Γ.scopes k) :
    Agrees σ k [] (fun _ _ => True) ((observer R).block (n + 1) r s b σ)
      (Eval.block R (n + 1) r s b σ) := by
  obtain ⟨cs, span⟩ := b
  obtain ⟨Γ₁, hcs, -⟩ := Block.check_eq_some hb
  obtain ⟨a, ha, -, rfl⟩ := hs.here
  exact inScope_agrees hR hs ha (Γ := Γ.enter) rfl hr _
    (fun p => ((Level.all hR n).statements r r p p cs).keeps)
    fun hs₁ _ ht => h.statements hs₁ hcs ht

theorem branch_succ (hR : R.Sound) (h : Faithful R n) {c : Stmt} (hs : Stage σ r s k)
    (hc : c.check Γ.enter = some Δ) (hr : σ.Reflects Γ.scopes k) :
    Agrees σ k [] (fun _ _ => True) ((observer R).branch (n + 1) r s c σ)
      (Eval.branch R (n + 1) r s c σ) := by
  obtain ⟨a, ha, -, rfl⟩ := hs.here
  refine (inScope_agrees hR hs ha (Γ := Γ.enter) rfl hr (c.defines.map Prod.fst)
    (fun p => ((Level.all hR n).stmt r r p p c).keeps) fun hs₁ _ ht => ?_).map fun _ _ h => h
  exact (h.stmt hs₁ hc ht).imp fun _ _ _ => trivial

theorem all (hR : R.Sound) (n : Nat) : Faithful R n := by
  induction n with
  | zero => exact zero
  | succ n ih =>
    constructor
    · exact ih.expr_succ hR
    · exact ih.logical_succ hR
    · exact ih.arguments_succ hR
    · exact ih.call_succ hR
    · exact ih.stmt_succ hR
    · exact ih.loop_succ hR
    · exact ih.statements_succ hR
    · exact ih.block_succ hR
    · exact ih.branch_succ hR

end Faithful

theorem evaluateFrom_agrees {R : Reclaimer} (hR : R.Sound) (n : Nat) {r : Roots} {v : Value}
    {Γ Δ : Context} {cs : List Stmt} (hs : Stage σ (r.hold v) Store.global k)
    (hcs : Stmt.checkList Γ cs = some Δ) (ht : σ.Tracks Γ k) :
    (observer R).evaluateFrom n r v cs σ = some (Program.evaluateFrom R n r v cs σ) ∧
      ∀ x, (Program.evaluateFrom R n r v cs σ).1 ≠ .error (.failed (.variableNotDeclared x)) := by
  induction cs generalizing σ v Γ with
  | nil => exact ⟨rfl, fun _ h => by cases h⟩
  | cons c cs ih =>
    obtain ⟨Γ₁, hc, hcs⟩ := Stmt.checkList_cons_eq_some hcs
    have h := (Faithful.all hR n).stmt hs hc ht
    have hs' := hs.next ((Level.all hR n).stmt _ _ Store.global Store.global c).keeps h.store
    rw [Observer.evaluateFrom, Program.evaluateFrom, bind_apply, Eval.bind_apply, attempt_apply,
      Eval.attempt_apply, h.same, Option.map_some]
    rcases hx : Eval.stmt R n (r.hold v) Store.global c σ with ⟨(u | e | _) | u, τ⟩ <;>
      rw [hx] at h hs'
    · exact ⟨rfl, fun _ h => by cases h⟩
    · exact ⟨rfl, fun x he => h.declared x (congrArg _ (Except.error.inj he))⟩
    · exact ⟨rfl, fun _ h => by cases h⟩
    · exact ih (hs'.within (.plus_same (.plus_right (.refl r) [v]) [u])) hcs (h.value u rfl)

end Guarded

namespace Program

/-- A program that was read without diagnostics finds every name that it looks for, however far
it runs, and defines a name only in a scope that does not bind it yet: the run under guard is not
given up, so it is the run. -/
theorem scopes_faithful {source : String} {file : Option String} {p : Program}
    (hp : parse source file = (p, [])) (fuel : Nat) :
    p.guarded fuel = some (p.evaluate .standard fuel .none .initial) ∧
    (∀ x, (p.evaluate .standard fuel .none .initial).1 ≠
      .error (.failed (.variableNotDeclared x))) ∧
    ∀ x, run fuel source file ≠ .error (.failed (.variableNotDeclared x)) := by
  have hstage : Guarded.Stage .initial (Roots.none.hold .void) Store.global 0 :=
    ⟨Store.Intact.initial.within (.plus_plain (.refl Roots.none) (v := .void) rfl),
      Store.Scoped.initial, _, rfl, rfl, rfl⟩
  obtain ⟨hguard, hdeclared⟩ := Guarded.evaluateFrom_agrees Reclaimer.standard_sound fuel hstage
    (checkList_of_parse hp) .initial
  refine ⟨hguard, hdeclared, fun x hx => ?_⟩
  rw [run, hp] at hx
  simp only [start] at hx
  split at hx
  · cases hx
  · cases hx
  · rename_i e σ he
    cases hx
    exact hdeclared x (congrArg Prod.fst he)
  · cases hx

/-- Each call and each round of the loop defines `x` in a scope of its own:
`let x = 2; func f(x: int) -> int { let r = 0; while (r < x) { let x = r;
func g() -> int { return x + 1; } r = g(); } return r; } f(f(x));`. -/
def rounds : String :=
  "let x = 2; func f(x: int) -> int \x7b let r = 0; while (r < x) \x7b let x = r; " ++
    "func g() -> int \x7b return x + 1; \x7d r = g(); \x7d return r; \x7d f(f(x));"

theorem scopes_faithful_of_rounds : ∃ p : Program, parse rounds none = (p, []) ∧ ∀ fuel,
    p.guarded fuel = some (p.evaluate .standard fuel .none .initial) ∧
    (∀ x, (p.evaluate .standard fuel .none .initial).1 ≠
      .error (.failed (.variableNotDeclared x))) ∧
    ∀ x, run fuel rounds none ≠ .error (.failed (.variableNotDeclared x)) := by
  have hparse : (parse rounds none).2.isEmpty = true := by decide +kernel
  exact ⟨_, parse_eq hparse, fun fuel => scopes_faithful (parse_eq hparse) fuel⟩

end Program

end TypedScript
