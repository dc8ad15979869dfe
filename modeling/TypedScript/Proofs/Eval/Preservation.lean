import TypedScript.Proofs.Eval.Blame
import TypedScript.Proofs.Eval.Typed
import TypedScript.Proofs.Static.ReadStmt

namespace TypedScript

namespace Eval

open Observed (held)
open Store (Evolves Finds Safe)

/-- The names that code uses now have their types, and those that its functions may use later
keep them. -/
structure Ready (L : Layout) (σ : Store) (k : Nat) (us cs : List (String × Ty)) : Prop where
  finds : ∀ u ∈ us, Finds L σ u.1 u.2 k
  safe : ∀ u ∈ cs, Safe L σ u.1 u.2 k

namespace Ready

variable {M : Dict (Ty × String) Ty} {L L' : Layout} {σ σ' : Store} {k : Nat} {xs : List String}
  {us us' cs cs' : List (String × Ty)}

theorem mono (h : Ready L σ k us cs) (hu : ∀ u ∈ us', u ∈ us) (hc : ∀ u ∈ cs', u ∈ cs) :
    Ready L σ k us' cs' := ⟨fun u hm => h.finds u (hu u hm), fun u hm => h.safe u (hc u hm)⟩

theorem evolves (h : Ready L σ k us cs) (hold : L.Below σ.fresh) {k' : Nat}
    (he : Evolves L σ k' [] L' σ') : Ready L' σ' k us cs :=
  ⟨fun u hu => he.finds hold List.not_mem_nil (h.finds u hu),
   fun u hu => he.safe hold (h.safe u hu)⟩

theorem enter (h : Ready L σ k us cs) (hold : L.Below σ.fresh)
    (he : Evolves L σ k [] L' σ') {k' : Nat} {names : String → Option Ty}
    (hF : L' k' = some ⟨names, some k⟩) (hlacks : ∀ x, σ'.Lacks k' x)
    (hnames : ∀ x t u, (x, t) ∈ cs → names x = some u → u = t) : Ready L' σ' k' us cs where
  finds u hu := .outer hF (hlacks u.1) rfl (he.finds hold List.not_mem_nil (h.finds u hu))
  safe u hu := .outer hF (fun t ht => hnames u.1 u.2 t hu ht) rfl (he.safe hold (h.safe u hu))

theorem next {c : Stmt} {cs : List Stmt} {Γ Γ₁ Δ : Context} (hc : c.check Γ = some Γ₁)
    (hcs : Stmt.checkList Γ₁ cs = some Δ)
    (h : Ready L σ k (Stmt.usesList true (c :: cs)) (Stmt.usesList false (c :: cs)))
    (hold : L.Below σ.fresh)
    (he : Evolves L σ k (c.defines.map Prod.fst) L' σ') (hL : Intends L k c.defines)
    (hb : ∀ y ∈ c.defines.map Prod.fst, σ'.Binds k y) :
    Ready L' σ' k (Stmt.usesList true cs) (Stmt.usesList false cs) := by
  obtain ⟨F, hF, hnames⟩ := hL
  have hdefined : ∀ {direct u}, u ∈ Stmt.usesList direct cs → u.1 ∈ c.defines.map Prod.fst →
      F.names u.1 = some u.2 := by
    intro direct u hu hx
    obtain ⟨⟨x, t⟩, hd, he⟩ := List.mem_map.1 hx
    have ht := Stmt.usesList_typed direct hcs u hu
    rw [← he, (Stmt.check_grows hc).typeOf?_of_mem hd] at ht
    rw [← he, hnames _ hd]
    exact ht
  have hfree : ∀ {direct u}, u ∈ Stmt.usesList direct cs → u.1 ∉ c.defines.map Prod.fst →
      u ∈ Stmt.usesList direct (c :: cs) := by
    intro direct u hu hx
    rw [Stmt.usesList]
    exact List.mem_append_right _ (mem_outside.2 ⟨hu, hx⟩)
  constructor
  · intro u hu
    by_cases hx : u.1 ∈ c.defines.map Prod.fst
    · exact .here (he.layout hF) (hdefined hu hx) (hb _ hx)
    · exact he.finds hold hx (h.finds u (hfree hu hx))
  · intro u hu
    by_cases hx : u.1 ∈ c.defines.map Prod.fst
    · exact .here (he.layout hF) (hdefined hu hx) (hb _ hx)
    · exact he.safe hold (h.safe u (hfree hu hx))

end Ready

structure Preserves (R : Reclaimer) (M : Dict (Ty × String) Ty) (n : Nat) : Prop where
  expr : ∀ {L σ r s k Γ e}, Scene M L σ r s k → e.checks Γ = true → Γ.MembersIn M →
    (∀ u ∈ e.uses, Finds L σ u.1 u.2 k) →
    Outcome M L σ k [] none (fun L' σ' v => v.HasTy M L' σ' e.ty)
      ((Traced.observer R).expr n r s e σ)
  logical : ∀ {L σ r s k Γ op a b}, Scene M L σ r s k → Expr.checks Γ a = true →
    Expr.checks Γ b = true → Γ.MembersIn M → (∀ u ∈ a.uses ++ b.uses, Finds L σ u.1 u.2 k) →
    Outcome M L σ k [] none (fun L' σ' v => v.HasTy M L' σ' .bool)
      ((Traced.observer R).logical n r s op a b σ)
  arguments : ∀ {L σ r s k Γ es}, Scene M L σ r s k → Expr.checksAll Γ es = true →
    Γ.MembersIn M → (∀ u ∈ Expr.usesAll es, Finds L σ u.1 u.2 k) →
    Outcome M L σ k [] none
      (fun L' σ' vs => List.Forall₂ (fun v e => v.HasTy M L' σ' e.ty) vs es)
      ((Traced.observer R).arguments n r s es σ)
  call : ∀ {L σ r s k v f x vs bs Γ Δ}, Scene M L σ (Roots.plus r vs) s k → v ∈ r.values →
    v.asFunction? = some (f, x) → f.TypedIn M L σ bs Γ Δ →
    List.Forall₂ (fun v b => v.HasTy M L σ b.2) vs bs →
    Outcome M L σ k [] none (fun L' σ' v => v.HasTy M L' σ' f.signature.result)
      ((Traced.observer R).call n r f vs σ)
  stmt : ∀ {L σ r s k Γ Δ c}, Scene M L σ r s k → Stmt.check Γ c = some Δ → Δ.MembersIn M →
    c.settled = true → Ready L σ k (c.uses true) (c.uses false) → Intends L k c.defines →
    Outcome M L σ k (c.defines.map Prod.fst) Γ.returning?
      (fun _ σ' _ => ∀ y ∈ c.defines.map Prod.fst, σ'.Binds k y)
      ((Traced.observer R).stmt n r s c σ)
  loop : ∀ {L σ r s k} {Γ Δ : Context} {e c}, Scene M L σ r s k → Expr.checks Γ e = true →
    Stmt.check Γ.enter c = some Δ → Δ.MembersIn M → c.settled = true →
    Ready L σ k (e.uses ++ c.uses true) (c.uses false) →
    Outcome M L σ k [] Γ.returning? (fun _ _ _ => True) ((Traced.observer R).loop n r s e c σ)
  statements : ∀ {L σ r s k Γ Δ cs}, Scene M L σ r s k → Stmt.checkList Γ cs = some Δ →
    Δ.MembersIn M → Stmt.settledList cs = true →
    Ready L σ k (Stmt.usesList true cs) (Stmt.usesList false cs) →
    Intends L k (Stmt.definesAll cs) →
    Outcome M L σ k ((Stmt.definesAll cs).map Prod.fst) Γ.returning? (fun _ _ _ => True)
      ((Traced.observer R).statements n r s cs σ)
  block : ∀ {L σ r s k Γ Δ b}, Scene M L σ r s k → Block.check Γ b = some Δ → Δ.MembersIn M →
    b.settled = true → Ready L σ k (b.uses true) (b.uses false) →
    Outcome M L σ k [] Γ.returning? (fun _ _ _ => True) ((Traced.observer R).block n r s b σ)
  branch : ∀ {L σ r s k} {Γ Δ : Context} {c}, Scene M L σ r s k → Stmt.check Γ.enter c = some Δ →
    Δ.MembersIn M → c.settled = true → Ready L σ k (c.uses true) (c.uses false) →
    Outcome M L σ k [] Γ.returning? (fun _ _ _ => True) ((Traced.observer R).branch n r s c σ)

section keeps

variable {R : Reclaimer} (hR : R.Sound) (n : Nat) (r : Roots) (s : Slot)

include hR

theorem expr_keeps (e : Expr) : Keeps r r s ((Traced.observer R).expr n r s e).erase := by
  rw [(Traced.recorder.erases R n).expr]
  exact ((Level.all hR n).expr r r s s e).keeps

theorem arguments_keeps (es : List Expr) :
    Keeps r r s ((Traced.observer R).arguments n r s es).erase := by
  rw [(Traced.recorder.erases R n).arguments]
  exact ((Level.all hR n).arguments r r s s es).keeps

theorem stmt_keeps (c : Stmt) : Keeps r r s ((Traced.observer R).stmt n r s c).erase := by
  rw [(Traced.recorder.erases R n).stmt]
  exact ((Level.all hR n).stmt r r s s c).keeps

theorem statements_keeps (cs : List Stmt) :
    Keeps r r s ((Traced.observer R).statements n r s cs).erase := by
  rw [(Traced.recorder.erases R n).statements]
  exact ((Level.all hR n).statements r r s s cs).keeps

theorem branch_keeps (c : Stmt) : Keeps r r s ((Traced.observer R).branch n r s c).erase := by
  rw [(Traced.recorder.erases R n).branch]
  exact ((Level.all hR n).branch r r s s c).keeps

theorem body_keeps (f : Closure) (vs : List Value) : Keeps (r.plus vs) r s (do
    (Traced.observer R).defineAll (r.plus vs) s (f.parameters.zip vs)
    (Traced.observer R).block n r s f.body : Recorded Visit Value).erase := by
  have hheld : ∀ w ∈ vs, w ∈ (r.plus vs).values := fun _ hw => List.mem_append_left _ hw
  have hr : r.Within (r.plus vs) := .plus_right (.refl r) vs
  have hblock := ((Level.all hR n).block r r s s f.body).forget vs vs
  simp only [Traced.defineAll_eq, Recorded.erase_bind, Recorded.erase_lift,
    (Traced.recorder.erases R n).block]
  exact ((defineAll_simulates f.parameters rfl hheld hheld).bind hr hr fun _ _ _ => hblock).keeps

end keeps

namespace Preserves

variable {R : Reclaimer} {M : Dict (Ty × String) Ty} {n : Nat} {L : Layout} {σ : Store} {r : Roots}
  {s : Slot} {k : Nat} {Γ Δ : Context}

theorem zero : Preserves R M 0 where
  expr hs _ _ _ := .outOfFuel hs.fits
  logical hs _ _ _ _ := .outOfFuel hs.fits
  arguments hs _ _ _ := .outOfFuel hs.fits
  call hs _ _ _ _ := .outOfFuel hs.fits
  stmt hs _ _ _ _ _ := .outOfFuel hs.fits
  loop hs _ _ _ _ _ := .outOfFuel hs.fits
  statements hs _ _ _ _ _ := .outOfFuel hs.fits
  block hs _ _ _ _ := .outOfFuel hs.fits
  branch hs _ _ _ _ := .outOfFuel hs.fits

theorem test {α : Type} {xs : List String} {result : Option Ty} {good : Layout → Store → α → Prop}
    {v : Value} (hs : Scene M L σ (r.plus [v]) s k) {f : Bool → Recorded Visit α}
    (hf : ∀ {L' σ'} b, Scene M L' σ' r s k → Evolves L σ k [] L' σ' →
      Outcome M L' σ' k xs result good (f b σ')) :
    Outcome M L σ k xs result good ((Recorded.lift (truthy v) >>= f) σ) := by
  have hkeeps : Keeps (r.plus [v]) (r.plus [v]) s (truthy v) := (truthy_simulates rfl).keeps
  refine (truthy_outcome hs v).seq hs hkeeps fun {b _ _} hs' he _ => hf b (hs'.within ?_) he
  exact Roots.Within.plus_right (.plus_right (.refl r) [v]) []

theorem binary_succ (hR : R.Sound) (h : Preserves R M n) {a : Ann} {op : BinaryOp} {x y : Expr}
    (hs : Scene M L σ r s k) (hc : (Expr.binary a op x y).checks Γ = true) (hΓ : Γ.MembersIn M)
    (hu : ∀ u ∈ x.uses ++ y.uses, Finds L σ u.1 u.2 k) :
    Outcome M L σ k [] none (fun L' σ' v => v.HasTy M L' σ' a.ty) ((do
      let left ← (Traced.observer R).expr n r s x
      let right ← (Traced.observer R).expr n (r.hold left) s y
      Recorded.lift (binary op left right) : Recorded Visit Value) σ) := by
  obtain ⟨hx, hy, hn, ht⟩ := Expr.checks_binary.1 hc
  refine (h.expr hs hx hΓ fun u hm => hu u (List.mem_append_left _ hm)).seq hs
    (expr_keeps hR n r s x) fun {v L₁ σ₁} hs₁ he₁ hv => ?_
  have hu₁ : ∀ u ∈ y.uses, Finds L₁ σ₁ u.1 u.2 k := fun u hm =>
    he₁.finds hs.fits.old List.not_mem_nil (hu u (List.mem_append_right _ hm))
  refine (h.expr hs₁ hy hΓ hu₁).seq hs₁ (expr_keeps hR n _ s y) fun {w L₂ σ₂} hs₂ he₂ hw => ?_
  exact binary_outcome hs₂ (he₂.value hs₁.fits.old hv) hw hn ht

theorem call_case (hR : R.Sound) (h : Preserves R M n) {a : Ann} {f : Expr} {args : List Expr}
    (hs : Scene M L σ r s k) (hc : (Expr.call a f args).checks Γ = true) (hΓ : Γ.MembersIn M)
    (hu : ∀ u ∈ f.uses ++ Expr.usesAll args, Finds L σ u.1 u.2 k) :
    Outcome M L σ k [] none (fun L' σ' v => v.HasTy M L' σ' a.ty) ((do
      let callee ← (Traced.observer R).expr n r s f
      match callee.asFunction? with
      | none => Recorded.lift (fail (.notCallable callee.ty))
      | some (closure, receiver) =>
        let values ← (Traced.observer R).arguments n (r.hold callee) s args
        (Traced.observer R).call n (r.hold callee) closure (receiver.toList ++ values)
      : Recorded Visit Value) σ) := by
  obtain ⟨hf, hargs, ps, hps, haccepts⟩ := Expr.checks_call.1 hc
  refine (h.expr hs hf hΓ fun u hm => hu u (List.mem_append_left _ hm)).seq hs
    (expr_keeps hR n r s f) fun {v L₁ σ₁} hs₁ he₁ hv => ?_
  rw [hps] at hv
  cases hcallee : v.asFunction? with
  | none => exact .fail hs₁.fits _
  | some c =>
    obtain ⟨g, receiver⟩ := c
    have hu₁ : ∀ u ∈ Expr.usesAll args, Finds L₁ σ₁ u.1 u.2 k := fun u hm =>
      he₁.finds hs.fits.old List.not_mem_nil (hu u (List.mem_append_right _ hm))
    refine (h.arguments hs₁ hargs hΓ hu₁).seq hs₁ (arguments_keeps hR n _ s args)
      fun {vs L₂ σ₂} hs₂ he₂ hvs => ?_
    obtain ⟨bs, ⟨Γ', Δ', hg⟩, hresult, hall⟩ :=
      (he₂.value hs₁.fits.old hv).passes hcallee hvs haccepts
    rw [← hresult]
    exact h.call (hs₂.within (.plus_receiver r vs hcallee)) List.mem_cons_self hcallee hg hall

theorem expr_succ (hR : R.Sound) (h : Preserves R M n) {e : Expr} (hs : Scene M L σ r s k)
    (hc : e.checks Γ = true) (hΓ : Γ.MembersIn M) (hu : ∀ u ∈ e.uses, Finds L σ u.1 u.2 k) :
    Outcome M L σ k [] none (fun L' σ' v => v.HasTy M L' σ' e.ty)
      ((Traced.observer R).expr (n + 1) r s e σ) := by
  cases e <;> simp only [Observer.expr] <;> refine .onExpr ?_
  case name a x => exact lookup_outcome hs (hu (x, a.ty) List.mem_cons_self)
  case literal a v =>
    have ht : (Expr.literal a v).ty = v.ty := Expr.checks_literal.1 hc
    rw [ht]
    exact literal_outcome hs v
  case unary a op e =>
    obtain ⟨he, ht⟩ := Expr.checks_unary.1 hc
    rw [Expr.uses] at hu
    exact (h.expr hs he hΓ hu).seq hs (expr_keeps hR n r s e)
      fun hs' _ hv => unary_outcome hs' hv ht
  case binary a op x y =>
    rw [Expr.uses] at hu
    split
    · rename_i hop
      obtain ⟨hx, hy, -, ht⟩ := Expr.checks_binary.1 hc
      have hty : (Expr.binary a op x y).ty = .bool := by
        cases op with
        | and | or => exact (Option.some.inj ht).symm
        | _ => cases hop
      rw [hty]
      exact h.logical hs hx hy hΓ hu
    · exact h.binary_succ hR hs hc hΓ hu
  case call a f args =>
    rw [Expr.uses] at hu
    exact h.call_case hR hs hc hΓ hu
  case assign a x e =>
    obtain ⟨-, he, hassign⟩ := Expr.checks_assign.1 hc
    rw [Expr.uses, List.forall_mem_cons] at hu
    refine (h.expr hs he hΓ hu.2).seq hs (expr_keeps hR n r s e) fun hs' he' hv => ?_
    exact assign_outcome hs' (he'.finds hs.fits.old List.not_mem_nil hu.1)
      (hv.of_assignable hassign)
  case step a op before x =>
    have hkeeps : Keeps r r s (lookup s x) := (lookup_simulates x).keeps
    rw [Traced.act_eq, Recorded.lift_step]
    refine (lookup_outcome hs (hu (x, a.ty) List.mem_cons_self)).seq hs hkeeps fun hs' _ hv => ?_
    exact step_outcome hs' hv op before x
  case member a e m =>
    obtain ⟨he, hn, ht⟩ := Expr.checks_member.1 hc
    rw [Expr.uses] at hu
    refine (h.expr hs he hΓ hu).seq hs (expr_keeps hR n r s e) fun {v _ _} hs' _ hv => ?_
    rw [memberTy, if_neg (Bool.eq_false_iff.1 hn)]
    exact member_outcome hs' hv (hΓ _ _ ht) List.mem_cons_self

theorem logical_succ (hR : R.Sound) (h : Preserves R M n) {op : BinaryOp} {a b : Expr}
    (hs : Scene M L σ r s k) (ha : a.checks Γ = true) (hb : b.checks Γ = true)
    (hΓ : Γ.MembersIn M) (hu : ∀ u ∈ a.uses ++ b.uses, Finds L σ u.1 u.2 k) :
    Outcome M L σ k [] none (fun L' σ' v => v.HasTy M L' σ' .bool)
      ((Traced.observer R).logical (n + 1) r s op a b σ) := by
  rw [Observer.logical]
  refine (h.expr hs ha hΓ fun u hm => hu u (List.mem_append_left _ hm)).seq hs
    (expr_keeps hR n r s a) fun hs₁ he₁ _ => test hs₁ fun {L₂ σ₂} decided hs₂ he₂ => ?_
  split
  · exact .pure hs₂.fits .boolean
  · have hu₂ : ∀ u ∈ b.uses, Finds L₂ σ₂ u.1 u.2 k := fun u hm =>
      (he₁.trans hs.tidy he₂).finds hs.fits.old List.not_mem_nil (hu u (List.mem_append_right _ hm))
    refine (h.expr hs₂ hb hΓ hu₂).seq hs₂ (expr_keeps hR n r s b) fun hs₃ _ _ => ?_
    exact test hs₃ fun _ hs₄ _ => .pure hs₄.fits .boolean

theorem arguments_succ (hR : R.Sound) (h : Preserves R M n) {es : List Expr}
    (hs : Scene M L σ r s k) (hc : Expr.checksAll Γ es = true) (hΓ : Γ.MembersIn M)
    (hu : ∀ u ∈ Expr.usesAll es, Finds L σ u.1 u.2 k) :
    Outcome M L σ k [] none
      (fun L' σ' vs => List.Forall₂ (fun v e => v.HasTy M L' σ' e.ty) vs es)
      ((Traced.observer R).arguments (n + 1) r s es σ) := by
  cases es with
  | nil =>
    rw [Observer.arguments]
    exact .pure hs.fits .nil
  | cons e es =>
    rw [Expr.checksAll, Bool.and_eq_true] at hc
    rw [Expr.usesAll] at hu
    rw [Observer.arguments]
    refine (h.expr hs hc.1 hΓ fun u hm => hu u (List.mem_append_left _ hm)).seq hs
      (expr_keeps hR n r s e) fun {v L₁ σ₁} hs₁ he₁ hv => ?_
    have hu₁ : ∀ u ∈ Expr.usesAll es, Finds L₁ σ₁ u.1 u.2 k := fun u hm =>
      he₁.finds hs.fits.old List.not_mem_nil (hu u (List.mem_append_right _ hm))
    refine ((h.arguments hs₁ hc.2 hΓ hu₁).imp fun he₂ hvs => ?_).map fun _ _ _ hvs => hvs
    exact .cons (he₂.value hs₁.fits.old hv) hvs

theorem body_ready {f : Closure} {bs : List (String × Ty)} {L' : Layout} {σ' : Store} {k' : Nat}
    (hf : f.TypedIn M L' σ' bs Γ Δ) (hs : Scene M L' σ' r s k')
    (hF : L' k' = some ⟨Γ.local?, some f.home.stamp⟩) (hb : ∀ y ∈ bs.map Prod.fst, σ'.Binds k' y)
    (hl : ∀ y, y ∉ bs.map Prod.fst → σ'.Lacks k' y) :
    Ready L' σ' k' (f.body.uses true) (f.body.uses false) := by
  have hbound : ∀ u ∈ f.body.uses true, u.1 ∈ bs.map Prod.fst → Γ.local? u.1 = some u.2 := by
    intro u hu hx
    obtain ⟨b, hmem, he⟩ := List.mem_map.1 hx
    have ht := Block.uses_typed true hf.body u hu
    rw [Context.typeOf?_eq, ← he, hf.bound b hmem, Option.some_or] at ht
    rw [← he, hf.bound b hmem, ht]
  constructor
  · intro u hu
    by_cases hx : u.1 ∈ bs.map Prod.fst
    · exact .here hF (hbound u hu hx) (hb _ hx)
    · exact .outer hF (hl _ hx) rfl
        ((hf.safe u (mem_outside.2 ⟨hu, hx⟩)).finds hs.tidy hs.fits)
  · intro u hu
    have hu' := Block.mem_uses_of_false hu
    by_cases hx : u.1 ∈ bs.map Prod.fst
    · exact .here hF (hbound u hu' hx) (hb _ hx)
    · refine .outer hF (fun t ht => ?_) rfl (hf.safe u (mem_outside.2 ⟨hu', hx⟩))
      cases (hf.unbound _ hx).symm.trans ht

theorem body_outcome (h : Preserves R M n) {f : Closure} {vs : List Value}
    {bs : List (String × Ty)} (hs : Scene M L σ (r.plus vs) s k) (hf : f.TypedIn M L σ bs Γ Δ)
    (hvs : List.Forall₂ (fun v b => v.HasTy M L σ b.2) vs bs)
    (hF : L k = some ⟨Γ.local?, some f.home.stamp⟩) (hlacks : ∀ x, σ.Lacks k x) :
    Outcome M L σ k (bs.map Prod.fst) Γ.returning? (fun _ _ _ => True) ((do
      (Traced.observer R).defineAll (r.plus vs) s (f.parameters.zip vs)
      (Traced.observer R).block n r s f.body : Recorded Visit Value) σ) := by
  have hheld : ∀ w ∈ vs, w ∈ (r.plus vs).values := fun _ hw => List.mem_append_left _ hw
  have hkeeps : Keeps (r.plus vs) (r.plus vs) s (defineAll s (f.parameters.zip vs)) :=
    (defineAll_simulates f.parameters rfl hheld hheld).keeps
  rw [Traced.defineAll_eq]
  have hdefine := defineAll_outcome hs hheld hvs ⟨_, hF, hf.bound⟩
  rw [← hf.parameters] at hdefine ⊢
  refine (hdefine.returning Γ.returning?).bind hs hkeeps (fun _ hy => hy)
    fun {_ L₁ σ₁} hs₁ he₁ hbinds => ?_
  rw [hf.parameters] at he₁ hbinds
  have hf₁ := he₁.closure hs.fits.old hf
  have hlacks₁ := fun y hy => he₁.lacks (hs.fits.old _ _ hF) hy (hlacks y)
  have hs₂ : Scene M L₁ σ₁ r s k := hs₁.within (.plus_right (.plus_right (.refl r) vs) [])
  have hready := body_ready hf₁ hs₂ (he₁.layout hF) hbinds hlacks₁
  exact (h.block hs₂ hf.body hf.members hf.settled hready).widen nofun

theorem call_succ (hR : R.Sound) (h : Preserves R M n) {v : Value} {f : Closure}
    {x : Option Value} {vs : List Value} {bs : List (String × Ty)}
    (hs : Scene M L σ (r.plus vs) s k) (hv : v ∈ r.values) (hx : v.asFunction? = some (f, x))
    (hf : f.TypedIn M L σ bs Γ Δ) (hvs : List.Forall₂ (fun v b => v.HasTy M L σ b.2) vs bs) :
    Outcome M L σ k [] none (fun L' σ' v => v.HasTy M L' σ' f.signature.result)
      ((Traced.observer R).call (n + 1) r f vs σ) := by
  have hcarries : σ.Carries (r.plus vs) (.ofFunction f x) :=
    Value.functions_of_asFunction? hx ▸ Store.carries_of_held (List.mem_append_right _ hv)
  obtain ⟨a, ha, hst⟩ := hs.intact.home_of_carries hcarries
  rw [Observer.call]
  split
  · refine ofBody_outcome ?_ fun w hw => ?_
    · rw [← hf.returning]
      refine inScope_outcome hR hs.intact hs.fits ha Γ.local? (bs.map Prod.fst) (fun p => ?_)
        fun {p L₁ σ₁} hs₁ he₁ hF hlacks => ?_
      · exact body_keeps hR n r p f vs
      · exact h.body_outcome hs₁ (he₁.closure hs.fits.old hf)
          (hvs.imp fun _ _ hv => he₁.value hs.fits.old hv) (hst ▸ hF) hlacks
    · refine hf.returns.resolve_right fun hreturns => ?_
      rw [Traced.erase_inScope, inScope_fst, Recorded.erase_bind] at hw
      obtain ⟨_, τ, -, hw⟩ := of_bind_ok hw
      rw [(Traced.recorder.erases R n).block] at hw
      exact block_ne_ok R hreturns n r _ τ w hw
  · exact .fail hs.fits _

theorem cond_case (hR : R.Sound) (h : Preserves R M n) {e : Expr} {yes : Stmt} {no : Option Stmt}
    {span : Span} (hs : Scene M L σ r s k) (hc : (Stmt.cond e yes no span).check Γ = some Δ)
    (hΔ : Δ.MembersIn M) (hsettled : (Stmt.cond e yes no span).settled = true)
    (hready : Ready L σ k ((Stmt.cond e yes no span).uses true)
      ((Stmt.cond e yes no span).uses false)) :
    Outcome M L σ k [] Γ.returning? (fun _ _ _ => True) ((do
      let v ← (Traced.observer R).expr n r s e
      let holds ← (Traced.observer R).truthy v
      if holds then (Traced.observer R).branch n r s yes
      else match no with
        | some no => (Traced.observer R).branch n r s no
        | none => return .void : Recorded Visit Value) σ) := by
  obtain ⟨he, Γ₁, hyes, hno⟩ := Stmt.check_cond_eq_some hc
  have hΓ := (Stmt.check_grows hc).membersIn hΔ
  have hgrows : Γ.Grows [] Γ₁.leave := (Stmt.check_grows hyes).leave rfl rfl
  have hΓ₁ := (Stmt.checkOption_grows hno).membersIn hΔ
  rw [Stmt.settled, Bool.and_eq_true] at hsettled
  rw [Stmt.uses, Stmt.uses] at hready
  refine (h.expr hs he hΓ fun u hu => ?_).seq hs (expr_keeps hR n r s e) fun hs₁ he₁ _ => ?_
  · exact hready.finds u (List.mem_append_left _ (List.mem_append_left _ hu))
  refine test hs₁ fun {L₂ σ₂} holds hs₂ he₂ => ?_
  have hready₂ := hready.evolves hs.fits.old (he₁.trans hs.tidy he₂)
  split
  · refine h.branch hs₂ hyes hΓ₁.of_leave hsettled.1
      (hready₂.mono (fun u hu => ?_) fun u hu => ?_) <;>
      exact List.mem_append_left _ (List.mem_append_right _ hu)
  · cases no with
    | none => exact .pure hs₂.fits trivial
    | some no =>
      obtain ⟨Γ₂, hno', rfl⟩ := Option.map_eq_some_iff.1 hno
      rw [show Γ.returning? = Γ₁.leave.returning? from hgrows.returns.symm]
      refine h.branch hs₂ hno' hΔ.of_leave hsettled.2
        (hready₂.mono (fun u hu => ?_) fun u hu => ?_) <;>
        exact List.mem_append_right _ hu

theorem stmt_succ (hR : R.Sound) (h : Preserves R M n) {c : Stmt} (hs : Scene M L σ r s k)
    (hc : c.check Γ = some Δ) (hΔ : Δ.MembersIn M) (hsettled : c.settled = true)
    (hready : Ready L σ k (c.uses true) (c.uses false)) (hL : Intends L k c.defines) :
    Outcome M L σ k (c.defines.map Prod.fst) Γ.returning?
      (fun _ σ' _ => ∀ y ∈ c.defines.map Prod.fst, σ'.Binds k y)
      ((Traced.observer R).stmt (n + 1) r s c σ) := by
  have hΓ : Γ.MembersIn M := (Stmt.check_grows hc).membersIn hΔ
  refine .onStmt ?_
  cases c with
  | define x ty e receiver span =>
    obtain ⟨he, hassign, -, -, hd⟩ := Stmt.check_define_eq_some hc
    refine (h.expr hs he hΓ hready.finds).seq hs (expr_keeps hR n r s e) fun hs' he' hv => ?_
    have hmember : ∀ t ∈ receiver, M.get? (t, x) = some ty := by
      intro t ht
      cases ht
      exact hΔ _ _ (Context.member_of_declare? hd)
    rw [Traced.act_eq, Recorded.lift_define]
    exact (defineValue_outcome hs' (hv.of_assignable hassign) (Stmt.defines_define ..) hmember
      (hL.evolves he')).map fun _ _ _ hb => hb
  | ret e span =>
    obtain ⟨-, he, t, ht, hassign⟩ := Stmt.check_ret_eq_some hc
    refine (h.expr hs he hΓ hready.finds).seq hs (expr_keeps hR n r s e) fun hs' _ hv => ?_
    refine .exit hs'.fits fun v hv' => ⟨t, ht, ?_⟩
    cases hv'
    exact hv.of_assignable hassign
  | func heading body span =>
    obtain ⟨Γ₁, Γ₂, Γ₃, hf, rfl⟩ := Stmt.check_func_eq_some hc
    rw [Stmt.settled] at hsettled
    dsimp only
    rw [Traced.act_eq, Recorded.lift_func]
    exact (defineFunction_outcome hs hf hΔ.of_leave hsettled hready.safe hL).map fun _ _ _ hb => hb
  | block b =>
    rw [Stmt.check] at hc
    rw [Stmt.settled] at hsettled
    rw [Stmt.uses, Stmt.uses] at hready
    exact (h.block hs hc hΔ hsettled hready).imp fun _ _ => List.forall_mem_nil _
  | cond e yes no span =>
    exact (h.cond_case hR hs hc hΔ hsettled hready).imp fun _ _ => List.forall_mem_nil _
  | loop e body span =>
    obtain ⟨he, Γ₁, hbody, rfl⟩ := Stmt.check_loop_eq_some hc
    rw [Stmt.settled] at hsettled
    rw [Stmt.uses, Stmt.uses] at hready
    exact (h.loop hs he hbody hΔ.of_leave hsettled hready).imp fun _ _ => List.forall_mem_nil _
  | expr e span =>
    obtain ⟨rfl, he⟩ := Stmt.check_expr_eq_some hc
    exact ((h.expr hs he hΓ hready.finds).returning _).imp fun _ _ => List.forall_mem_nil _
  | typeDecl name span =>
    exact .pure hs.fits (List.forall_mem_nil _)

theorem loop_succ (hR : R.Sound) (h : Preserves R M n) {e : Expr} {c : Stmt}
    (hs : Scene M L σ r s k) (he : e.checks Γ = true) (hc : c.check Γ.enter = some Δ)
    (hΔ : Δ.MembersIn M) (hsettled : c.settled = true)
    (hready : Ready L σ k (e.uses ++ c.uses true) (c.uses false)) :
    Outcome M L σ k [] Γ.returning? (fun _ _ _ => True)
      ((Traced.observer R).loop (n + 1) r s e c σ) := by
  have hΓ : Γ.MembersIn M := (Stmt.check_grows hc).membersIn hΔ
  rw [Observer.loop]
  refine (h.expr hs he hΓ fun u hu => hready.finds u (List.mem_append_left _ hu)).seq hs
    (expr_keeps hR n r s e) fun hs₁ he₁ _ => test hs₁ fun {L₂ σ₂} holds hs₂ he₂ => ?_
  have hready₂ := hready.evolves hs.fits.old (he₁.trans hs.tidy he₂)
  split
  · have hround := hready₂.mono (fun u hu => List.mem_append_right _ hu) fun u hu => hu
    refine (h.branch hs₂ hc hΔ hsettled hround).bind hs₂ (branch_keeps hR n r s c) (fun _ hy => hy)
      fun {v _ _} hs₃ he₃ _ => ?_
    exact h.loop (hs₃.within (.plus_right (.refl r) [v])) he hc hΔ hsettled
      (hready₂.evolves hs₂.fits.old he₃)
  · exact .pure hs₂.fits trivial

theorem statements_succ (hR : R.Sound) (h : Preserves R M n) {cs : List Stmt}
    (hs : Scene M L σ r s k) (hcs : Stmt.checkList Γ cs = some Δ) (hΔ : Δ.MembersIn M)
    (hsettled : Stmt.settledList cs = true)
    (hready : Ready L σ k (Stmt.usesList true cs) (Stmt.usesList false cs))
    (hL : Intends L k (Stmt.definesAll cs)) :
    Outcome M L σ k ((Stmt.definesAll cs).map Prod.fst) Γ.returning? (fun _ _ _ => True)
      ((Traced.observer R).statements (n + 1) r s cs σ) := by
  cases cs with
  | nil =>
    rw [Observer.statements]
    exact .pure hs.fits trivial
  | cons c cs =>
    obtain ⟨Γ₁, hc, hcs⟩ := Stmt.checkList_cons_eq_some hcs
    rw [Stmt.settledList, Bool.and_eq_true] at hsettled
    obtain ⟨hL₁, hL₂⟩ := hL.append
    have hfirst := hready.mono (fun u hu => List.mem_append_left _ hu)
      fun u hu => List.mem_append_left _ hu
    have hΓ₁ := (Stmt.checkList_grows hcs).membersIn hΔ
    rw [Observer.statements, Stmt.definesAll, List.flatMap_cons, List.map_append]
    refine (h.stmt hs hc hΓ₁ hsettled.1 hfirst hL₁).bind hs (stmt_keeps hR n r s c)
      (fun _ hy => List.mem_append_left _ hy) fun {v L₁ σ₁} hs₁ he₁ hb => ?_
    have hrest := h.statements (hs₁.within (.plus_right (.refl r) [v])) hcs hΔ hsettled.2
      (hready.next hc hcs hs.fits.old he₁ hL₁ hb) (hL₂.evolves he₁)
    rw [show Γ.returning? = Γ₁.returning? from (Stmt.check_grows hc).returns.symm]
    exact hrest.widen fun _ hy => List.mem_append_right _ hy

theorem block_succ (hR : R.Sound) (h : Preserves R M n) {b : Block} (hs : Scene M L σ r s k)
    (hb : b.check Γ = some Δ) (hΔ : Δ.MembersIn M) (hsettled : b.settled = true)
    (hready : Ready L σ k (b.uses true) (b.uses false)) :
    Outcome M L σ k [] Γ.returning? (fun _ _ _ => True)
      ((Traced.observer R).block (n + 1) r s b σ) := by
  obtain ⟨cs, span⟩ := b
  obtain ⟨Γ₁, hcs, rfl⟩ := Block.check_eq_some hb
  obtain ⟨a, ha, -, rfl⟩ := hs.here
  have hgrows := Stmt.checkList_grows hcs
  rw [Block.settled, Bool.and_eq_true] at hsettled
  rw [Block.uses, Block.uses] at hready
  rw [Observer.block, show Γ.returning? = Γ.enter.returning? from rfl]
  refine inScope_outcome hR hs.intact hs.fits ha Γ₁.local? ((Stmt.definesAll cs).map Prod.fst)
    (fun p => statements_keeps hR n r p cs) fun {p L₁ σ₁} hs₁ he₁ hF hlacks => ?_
  refine h.statements hs₁ hcs hΔ.of_leave hsettled.2 ?_ ⟨_, hF, hgrows.new⟩
  refine hready.enter hs.fits.old he₁ hF hlacks fun x t u hu hx => ?_
  exact eq_of_agree hsettled.1 hu (hgrows.mem_of_local? hx rfl)

theorem branch_succ (hR : R.Sound) (h : Preserves R M n) {c : Stmt} (hs : Scene M L σ r s k)
    (hc : c.check Γ.enter = some Δ) (hΔ : Δ.MembersIn M) (hsettled : c.settled = true)
    (hready : Ready L σ k (c.uses true) (c.uses false)) :
    Outcome M L σ k [] Γ.returning? (fun _ _ _ => True)
      ((Traced.observer R).branch (n + 1) r s c σ) := by
  obtain ⟨a, ha, -, rfl⟩ := hs.here
  have hgrows := Stmt.check_grows hc
  rw [Observer.branch]
  refine Outcome.map (inScope_outcome hR hs.intact hs.fits ha Δ.local? (c.defines.map Prod.fst)
    (fun p => stmt_keeps hR n r p c) fun {p L₁ σ₁} hs₁ he₁ hF hlacks => ?_) fun _ _ _ h => h
  refine (h.stmt hs₁ hc hΔ hsettled ?_ ⟨_, hF, hgrows.new⟩).imp fun _ _ => trivial
  refine hready.enter hs.fits.old he₁ hF hlacks fun x t u hu hx => ?_
  have hmem : x ∈ c.defines.map Prod.fst := List.mem_map.2 ⟨_, hgrows.mem_of_local? hx rfl, rfl⟩
  exact absurd hmem (Stmt.not_mem_defines_of_uses hu)

theorem all (hR : R.Sound) (M : Dict (Ty × String) Ty) (n : Nat) : Preserves R M n := by
  induction n with
  | zero => exact zero
  | succ n ih =>
    constructor
    · exact ih.expr_succ hR
    · exact ih.logical_succ hR
    · exact ih.arguments_succ hR
    · exact ih.call_succ hR
    · exact ih.stmt_succ hR
    · exact ih.loop_succ hR
    · exact ih.statements_succ hR
    · exact ih.block_succ hR
    · exact ih.branch_succ hR

end Preserves

theorem evaluateFrom_visits {R : Reclaimer} (hR : R.Sound) (n : Nat) {M : Dict (Ty × String) Ty}
    {L : Layout} {σ : Store} {r : Roots} {k : Nat} {v : Value} {Γ Δ : Context} {cs : List Stmt}
    (hs : Scene M L σ (r.hold v) Store.global k) (hcs : Stmt.checkList Γ cs = some Δ)
    (hΔ : Δ.MembersIn M) (hsettled : Stmt.settledList cs = true)
    (hready : Ready L σ k (Stmt.usesList true cs) (Stmt.usesList false cs))
    (hL : Intends L k (Stmt.definesAll cs)) :
    ∀ w ∈ ((Traced.observer R).evaluateFrom n r v cs σ).2, w.Fits := by
  induction cs generalizing L σ v Γ with
  | nil => exact nofun
  | cons c cs ih =>
    obtain ⟨Γ₁, hc, hcs⟩ := Stmt.checkList_cons_eq_some hcs
    rw [Stmt.settledList, Bool.and_eq_true] at hsettled
    obtain ⟨hL₁, hL₂⟩ := hL.append
    have hfirst := hready.mono (fun u hu => List.mem_append_left _ hu)
      fun u hu => List.mem_append_left _ hu
    have hΓ₁ := (Stmt.checkList_grows hcs).membersIn hΔ
    obtain ⟨L', h⟩ := (Preserves.all hR M n).stmt hs hc hΓ₁ hsettled.1 hfirst hL₁
    have hs' := hs.next (stmt_keeps hR n (r.hold v) Store.global c) h.fits
    rw [Recorded.erase] at hs'
    rw [Observer.evaluateFrom, Recorder.attempt_eq, Recorded.bind_apply, Recorded.attempt]
    intro w hw
    rcases hx : (Traced.observer R).stmt n (r.hold v) Store.global c σ with
      ⟨⟨(u | e | _) | u, τ⟩, vs⟩ <;>
      rw [hx] at h hs' hw <;> obtain hw | hw := List.mem_append.1 hw
    case ok.inr =>
      refine ih (hs'.within ?_) hcs hsettled.2 ?_ (hL₂.evolves h.evolves) w hw
      · exact .plus_same (.plus_right (.refl r) [v]) [u]
      · exact hready.next hc hcs hs.fits.old h.evolves hL₁ (h.value u rfl)
    all_goals first | exact h.visits w hw | cases hw

end Eval

namespace Program

theorem fits_of_blameless {source : String} {file : Option String} {p : Program}
    (hp : parse source file = (p, [])) (fuel : Nat) (h : Blameless (p.traced fuel).2) :
    ∀ w ∈ (p.traced fuel).2, w.Fits := by
  have hsound := Eval.evaluateFrom_sound fuel .none .void (checkList_of_parse hp) fun _ _ h => h
  exact (hsound .initial (.initial _) h).visits

theorem fits_of_settled {source : String} {file : Option String} {p : Program}
    (hp : parse source file = (p, [])) (hsettled : Stmt.settledList p.statements = true)
    (fuel : Nat) : ∀ w ∈ (p.traced fuel).2, w.Fits := by
  have hcheck := checkList_of_parse hp
  have hgrows := Stmt.checkList_grows hcheck
  have hscene : Eval.Scene p.context.members (Layout.add (fun _ => none) 0 ⟨p.context.local?, none⟩)
      .initial (Roots.none.hold .void) Store.global 0 :=
    ⟨Store.Intact.initial.within (.plus_plain (.refl Roots.none) (v := .void) rfl),
      Store.Fits.initial _ _, _, rfl, rfl, rfl⟩
  -- nothing is defined before the program
  have hnone : ∀ {direct u}, u ∉ Stmt.usesList direct p.statements := fun hu =>
    nomatch Stmt.usesList_typed _ hcheck _ hu
  have hready : Eval.Ready (Layout.add (fun _ => none) 0 ⟨p.context.local?, none⟩) .initial 0
      (Stmt.usesList true p.statements) (Stmt.usesList false p.statements) :=
    ⟨fun _ hu => absurd hu hnone, fun _ hu => absurd hu hnone⟩
  exact Eval.evaluateFrom_visits Reclaimer.standard_sound fuel hscene hcheck (fun _ _ h => h)
    hsettled hready ⟨_, Layout.add_self _ _ _, hgrows.new⟩

/-- In a run of a program that was read without diagnostics, every expression that comes to a
value comes to one of its type, or to `null`, exactly if those do that look up a name. For a
function looks for its names in the scopes as they have become, while the types are those that
the names had when it was read. The two are the same if no block gives another type to a name
that a function in it has from outside the block. -/
theorem preservation {source : String} {file : Option String} {p : Program}
    (hp : parse source file = (p, [])) (fuel : Nat) :
    (p.traced fuel).1 = p.evaluate .standard fuel .none .initial ∧
    ((∀ w ∈ (p.traced fuel).2, w.value = .null ∨ w.value.ty = w.node.ty) ↔
      ∀ w ∈ (p.traced fuel).2, w.node.looksUp = true → w.value = .null ∨ w.value.ty = w.node.ty) ∧
    (Stmt.settledList p.statements = true →
      ∀ w ∈ (p.traced fuel).2, w.value = .null ∨ w.value.ty = w.node.ty) := by
  refine ⟨traced_fst fuel p, ⟨fun h w hw _ => h w hw, ?_⟩, fun hsettled => ?_⟩
  · exact fits_of_blameless hp fuel
  · exact fits_of_settled hp hsettled fuel

/-- The function adds to the `x` that its block has defined since it was read, which is of the
same type: `let x = 1; { func f(y: int) -> int { return x + y; } let x = 2; f(x); }`. -/
theorem preservation_of_shadowing : ∃ p : Program,
    parse ("let x = 1; \x7b func f(y: int) -> int \x7b return x + y; \x7d " ++
      "let x = 2; f(x); \x7d") none = (p, []) ∧
    ∀ fuel, ∀ w ∈ (p.traced fuel).2, w.value = .null ∨ w.value.ty = w.node.ty := by
  refine ⟨_, parse_eq ?_, fun fuel => (preservation (parse_eq ?_) fuel).2.2 ?_⟩
  · decide +kernel
  · decide +kernel
  · decide +kernel

/-- Where the type is another one, the function returns a string for an `int`:
`let x = 1; let r = 0; { func f() -> int { return x; } let x = "hi"; r = f(); } r;`. -/
theorem not_preservation : ∃ p : Program,
    parse ("let x = 1; let r = 0; \x7b func f() -> int \x7b return x; \x7d " ++
      "let x = \"hi\"; r = f(); \x7d r;") none = (p, []) ∧
    ∃ w ∈ (p.traced 20).2, ¬ (w.value = .null ∨ w.value.ty = w.node.ty) := by
  refine ⟨_, parse_eq ?_, ?_⟩
  · decide +kernel
  · decide +kernel

end Program

end TypedScript
