import TypedScript.Proofs.Eval.Reclamation
import TypedScript.Proofs.Eval.Trace
import TypedScript.Proofs.Store.Typing
import TypedScript.Proofs.Value.Operator

namespace TypedScript

namespace Eval

open Observed (held)
open Store (Evolves Finds Safe)

variable {α β : Type}

structure Keeps [Observed α] (P Q : Roots) (s : Slot) (m : Eval α) : Prop where
  run : ∀ {σ a}, σ.Intact P → σ.scope? s = some a → a.active →
    (m σ).2.Intact (Q.plus (held (m σ).1)) ∧ σ.Stays (m σ).2

theorem Simulates.keeps [Observed α] {P Q : Roots} {s : Slot} {m m' : Eval α}
    (h : Simulates (P, P) (Q, Q) s s m m') : Keeps P Q s m where
  run {σ a} hσ ha hact := by
    have hhere : Here σ σ s s := by
      refine ⟨⟨a, a, ha, ha, rfl⟩, fun {b} hb => ?_, fun {b} hb => ?_⟩ <;>
        cases ha.symm.trans hb <;> exact hact
    obtain ⟨-, hworld, hleft, -⟩ := h.run ⟨hσ, hσ, .refl hσ.toTidy⟩ hhere
    exact ⟨hworld.left, hleft⟩

/-- A store in the middle of a run, in the scope `s` with the stamp `k`, with what is held
outside of it. -/
structure Scene (M : Dict (Ty × String) Ty) (L : Layout) (σ : Store) (P : Roots) (s : Slot)
    (k : Nat) : Prop where
  intact : σ.Intact P
  fits : σ.Fits M L
  here : ∃ a, σ.scope? s = some a ∧ a.active ∧ a.stamp = k

/-- How a computation ends that was begun in `σ`: it may define `xs` in the scope with the stamp
`k`, and return a value of type `result`. -/
structure Ended (M : Dict (Ty × String) Ty) (L : Layout) (σ : Store) (k : Nat) (xs : List String)
    (result : Option Ty) (good : Layout → Store → α → Prop) (L' : Layout)
    (x : (Except Exit α × Store) × List Visit) : Prop where
  evolves : Evolves L σ k xs L' x.1.2
  fits : x.1.2.Fits M L'
  value : ∀ a, x.1.1 = .ok a → good L' x.1.2 a
  returned : ∀ v, x.1.1 = .error (.returned v) → ∃ t, result = some t ∧ v.HasTy M L' x.1.2 t
  visits : ∀ w ∈ x.2, w.Fits

def Outcome (M : Dict (Ty × String) Ty) (L : Layout) (σ : Store) (k : Nat) (xs : List String)
    (result : Option Ty) (good : Layout → Store → α → Prop)
    (x : (Except Exit α × Store) × List Visit) : Prop :=
  ∃ L', Ended M L σ k xs result good L' x

variable {M : Dict (Ty × String) Ty} {L : Layout} {σ : Store} {P Q : Roots} {s : Slot} {k : Nat}
  {xs : List String} {result : Option Ty} {good : Layout → Store → α → Prop}
  {good' : Layout → Store → β → Prop}

namespace Scene

theorem tidy (h : Scene M L σ P s k) : σ.Tidy := h.intact.toTidy

theorem next [Observed α] (h : Scene M L σ P s k) {m : Eval α} (hm : Keeps P Q s m) {L' : Layout}
    (hf : (m σ).2.Fits M L') : Scene M L' (m σ).2 (Q.plus (held (m σ).1)) s k := by
  obtain ⟨a, ha, hact, hk⟩ := h.here
  obtain ⟨hintact, hstays⟩ := hm.run h.intact ha hact
  obtain ⟨b, hb, hact', hst⟩ := hstays.scope ha hact
  exact ⟨hintact, hf, b, hb, hact', hst.trans hk⟩

theorem within (h : Scene M L σ P s k) (hQ : Q.Within P) : Scene M L σ Q s k :=
  ⟨h.intact.within hQ, h.fits, h.here⟩

end Scene

namespace Outcome

theorem imp {good₂ : Layout → Store → α → Prop} {x : (Except Exit α × Store) × List Visit}
    (h : Outcome M L σ k xs result good x)
    (hg : ∀ {L' σ' a}, Evolves L σ k xs L' σ' → good L' σ' a → good₂ L' σ' a) :
    Outcome M L σ k xs result good₂ x := by
  obtain ⟨L', h⟩ := h
  exact ⟨L', h.evolves, h.fits, fun a ha => hg h.evolves (h.value a ha), h.returned, h.visits⟩

theorem widen {x : (Except Exit α × Store) × List Visit} {ys : List String}
    (h : Outcome M L σ k xs result good x) (hxs : ∀ x ∈ xs, x ∈ ys) :
    Outcome M L σ k ys result good x := by
  obtain ⟨L', h⟩ := h
  exact ⟨L', h.evolves.mono hxs, h.fits, h.value, h.returned, h.visits⟩

theorem returning {x : (Except Exit α × Store) × List Visit}
    (h : Outcome M L σ k xs none good x) (result : Option Ty) :
    Outcome M L σ k xs result good x := by
  obtain ⟨L', h⟩ := h
  refine ⟨L', h.evolves, h.fits, h.value, fun v hv => ?_, h.visits⟩
  obtain ⟨t, ht, -⟩ := h.returned v hv
  cases ht

theorem pure (h : σ.Fits M L) {a : α} (ha : good L σ a) :
    Outcome M L σ k xs result good ((Pure.pure a : Recorded Visit α) σ) := by
  refine ⟨L, .refl L σ k xs, h, fun b hb => ?_, fun v hv => ?_, nofun⟩
  · cases hb
    exact ha
  · cases hv

theorem exit (h : σ.Fits M L) {e : Exit}
    (he : ∀ v, e = .returned v → ∃ t, result = some t ∧ v.HasTy M L σ t) :
    Outcome M L σ k xs result good (Recorded.lift (Eval.exit e : Eval α) σ) := by
  refine ⟨L, .refl L σ k xs, h, fun b hb => ?_, fun v hv => ?_, nofun⟩
  · cases hb
  · exact he v (Except.error.inj hv)

theorem fail (h : σ.Fits M L) (e : EvalError) :
    Outcome M L σ k xs result good (Recorded.lift (Eval.fail e : Eval α) σ) := exit h nofun

theorem outOfFuel (h : σ.Fits M L) :
    Outcome M L σ k xs result good (Recorded.lift (Eval.exit .outOfFuel : Eval α) σ) := exit h nofun

theorem after {σ₁ : Store} {L₁ : Layout} {x : (Except Exit α × Store) × List Visit} (hσ : σ.Tidy)
    (he : Evolves L σ k xs L₁ σ₁) (h : Outcome M L₁ σ₁ k xs result good x) :
    Outcome M L σ k xs result good x := by
  obtain ⟨L', h⟩ := h
  exact ⟨L', he.trans hσ h.evolves, h.fits, h.value, h.returned, h.visits⟩

theorem lift {m : Eval α} {a : α} {τ : Store} {L' : Layout} (hm : m σ = (.ok a, τ))
    (he : Evolves L σ k xs L' τ) (hf : τ.Fits M L') (ha : good L' τ a) :
    Outcome M L σ k xs result good (Recorded.lift m σ) := by
  rw [Recorded.lift, hm]
  refine ⟨L', he, hf, fun b hb => ?_, fun v hv => ?_, List.forall_mem_nil _⟩
  · cases hb
    exact ha
  · cases hv

theorem bind [Observed α] {m : Recorded Visit α} {f : α → Recorded Visit β} {ys : List String}
    (hs : Scene M L σ P s k) (hk : Keeps P Q s m.erase)
    (hm : Outcome M L σ k ys result good (m σ)) (hys : ∀ y ∈ ys, y ∈ xs)
    (hf : ∀ {a L' σ'}, Scene M L' σ' (Q.plus (held a)) s k → Evolves L σ k ys L' σ' →
      good L' σ' a → Outcome M L' σ' k xs result good' (f a σ')) :
    Outcome M L σ k xs result good' ((m >>= f) σ) := by
  obtain ⟨L', h⟩ := hm
  have hscene := hs.next hk h.fits
  rw [Recorded.erase] at hscene
  rw [Recorded.bind_apply]
  rcases hx : m σ with ⟨⟨e | a, τ⟩, vs⟩ <;> rw [hx] at h hscene
  · refine ⟨L', h.evolves.mono hys, h.fits, (fun _ h => by cases h), fun v hv => h.returned v ?_,
      h.visits⟩
    exact congrArg Except.error (Except.error.inj hv)
  · obtain ⟨L'', h'⟩ := hf hscene h.evolves (h.value a rfl)
    refine ⟨L'', (h.evolves.mono hys).trans hs.tidy h'.evolves, h'.fits, h'.value, h'.returned,
      fun w hw => ?_⟩
    exact (List.mem_append.1 hw).elim (h.visits w) (h'.visits w)

theorem seq [Observed α] {m : Recorded Visit α} {f : α → Recorded Visit β} (hs : Scene M L σ P s k)
    (hk : Keeps P Q s m.erase) (hm : Outcome M L σ k [] none good (m σ))
    (hf : ∀ {a L' σ'}, Scene M L' σ' (Q.plus (held a)) s k → Evolves L σ k [] L' σ' →
      good L' σ' a → Outcome M L' σ' k xs result good' (f a σ')) :
    Outcome M L σ k xs result good' ((m >>= f) σ) :=
  (hm.returning result).bind hs hk nofun hf

theorem map {m : Recorded Visit α} (hm : Outcome M L σ k xs result good (m σ)) {g : α → β}
    (hg : ∀ L' σ' a, good L' σ' a → good' L' σ' (g a)) :
    Outcome M L σ k xs result good' ((m >>= fun a => Pure.pure (g a)) σ) := by
  obtain ⟨L', h⟩ := hm
  rw [Recorded.bind_apply]
  rcases hx : m σ with ⟨⟨e | a, τ⟩, vs⟩ <;> rw [hx] at h
  · refine ⟨L', h.evolves, h.fits, fun _ => nofun, fun v hv => h.returned v ?_, h.visits⟩
    exact congrArg Except.error (Except.error.inj hv)
  · refine ⟨L', h.evolves, h.fits, fun b hb => ?_, fun _ => nofun, fun w hw => ?_⟩
    · cases hb
      exact hg _ _ a (h.value a rfl)
    · exact h.visits w ((List.mem_append.1 hw).resolve_right nofun)

theorem onExpr {R : Reclaimer} {roots : Roots} {m : Recorded Visit Value} {e : Expr}
    (hm : Outcome M L σ k xs result (fun L' σ' v => v.HasTy M L' σ' e.ty) (m σ)) :
    Outcome M L σ k xs result (fun L' σ' v => v.HasTy M L' σ' e.ty)
      ((Traced.observer R).onExpr roots e m σ) := by
  obtain ⟨L', h⟩ := hm
  rw [Traced.onExpr_apply]
  rcases hx : m σ with ⟨⟨x | v, τ⟩, vs⟩ <;> rw [hx] at h
  · exact ⟨L', h⟩
  · refine ⟨L', h.evolves, h.fits, h.value, (fun _ h => by cases h), fun w hw => ?_⟩
    obtain hw | hw := List.mem_append.1 hw
    · exact h.visits w hw
    · cases List.mem_singleton.1 hw
      exact (h.value v rfl).eq_null_or_ty

theorem onStmt {R : Reclaimer} {roots : Roots} {m : Recorded Visit Value} {c : Stmt}
    {good : Layout → Store → Value → Prop} (hm : Outcome M L σ k xs result good (m σ)) :
    Outcome M L σ k xs result good ((Traced.observer R).onStmt roots c m σ) := by
  rwa [Traced.onStmt_eq]

end Outcome

section steps

variable {t u : Ty} {v w : Value} {x : String}

theorem updateCells_outcome (hs : Scene M L σ P s k) {f : Cells → Value × Cells}
    (hv : (f σ.cells).1.HasTy M L { σ with cells := (f σ.cells).2 } t) :
    Outcome M L σ k [] none (fun L' σ' v => v.HasTy M L' σ' t)
      (Recorded.lift (updateCells f) σ) := by
  have hr := Store.Retains.withCells σ (f σ.cells).2
  exact .lift rfl (hr.evolves L k) (hr.fits hs.tidy (hs.intact.withCells _).toTidy hs.fits) hv

theorem literal_outcome (hs : Scene M L σ P s k) (v : Literal) :
    Outcome M L σ k [] none (fun L' σ' w => w.HasTy M L' σ' v.ty)
      (Recorded.lift (literal v) σ) := by
  exact updateCells_outcome hs (.literal σ.cells v)

theorem ofScalar_outcome (hs : Scene M L σ P s k) {x : Except EvalError Scalar}
    (hx : ∀ y, x = .ok y → y.ty = t) :
    Outcome M L σ k [] none (fun L' σ' v => v.HasTy M L' σ' t) (Recorded.lift (ofScalar x) σ) := by
  cases x with
  | error e => exact .fail hs.fits e
  | ok y =>
    rw [ofScalar, ← hx y rfl]
    exact updateCells_outcome hs (.alloc σ.cells y)

theorem unary_outcome (hs : Scene M L σ P s k) {op : UnaryOp} (hv : v.HasTy M L σ t)
    (ht : op.resultTy? t = some u) :
    Outcome M L σ k [] none (fun L' σ' v => v.HasTy M L' σ' u) (Recorded.lift (unary op v) σ) :=
  ofScalar_outcome hs fun _ hy => Value.ty_unary hv.eq_null_or_ty ht hy

theorem binary_outcome (hs : Scene M L σ P s k) {op : BinaryOp} {l r : Ty} (hv : v.HasTy M L σ l)
    (hw : w.HasTy M L σ r) (hn : op.isUniversal = true ∨ l.isNever = false ∧ r.isNever = false)
    (ht : op.resultTy? l r = some t) :
    Outcome M L σ k [] none (fun L' σ' v => v.HasTy M L' σ' t) (Recorded.lift (binary op v w) σ) :=
  ofScalar_outcome hs fun _ hy => Value.ty_binary hv.eq_null_or_ty hw.eq_null_or_ty hn ht hy

theorem truthy_outcome (hs : Scene M L σ P s k) (v : Value) :
    Outcome M L σ k xs result (fun _ _ _ => True) (Recorded.lift (truthy v) σ) :=
  .lift rfl (.refl L σ k xs) hs.fits trivial

theorem lookup_outcome (hs : Scene M L σ P s k) (hx : Finds L σ x t k) :
    Outcome M L σ k [] none (fun L' σ' v => v.HasTy M L' σ' t) (Recorded.lift (lookup s x) σ) := by
  obtain ⟨a, ha, -, hk⟩ := hs.here
  cases hv : σ.lookup? s x with
  | none =>
    have hm : lookup s x σ = Eval.fail (.variableNotDeclared x) σ := by simp [lookup, hv]
    rw [Recorded.lift, hm]
    exact .fail hs.fits _
  | some v =>
    refine .lift (a := v) ?_ (.refl L σ k []) hs.fits (hx.lookup? hs.tidy hs.fits ha hk hv)
    simp [lookup, hv]

theorem assign_outcome (hs : Scene M L σ P s k) (hx : Finds L σ x t k) (hv : v.HasTy M L σ t) :
    Outcome M L σ k [] none (fun L' σ' v => v.HasTy M L' σ' t)
      (Recorded.lift (assign s x v) σ) := by
  obtain ⟨a, ha, -, hk⟩ := hs.here
  cases hb : σ.binder? s x with
  | none =>
    have hm : assign s x v σ = Eval.fail (.variableNotDeclared x) σ := by simp [assign, hb]
    rw [Recorded.lift, hm]
    exact .fail hs.fits _
  | some found =>
    obtain ⟨b, F, hfound, hF, hname, hc⟩ := hx.binder? hs.tidy hs.fits ha hk hb
    have he := Store.evolves_rebind (L := L) hs.tidy hfound hc v k
    have hv' := he.value hs.fits.old hv
    refine .lift (a := v) ?_ he (hs.fits.bind hs.tidy hfound hF hname hv') hv'
    simp [assign, hb]

theorem step_outcome (hs : Scene M L σ P s k) (hv : v.HasTy M L σ t) (op : StepOp) (before : Bool)
    (x : String) : Outcome M L σ k [] none (fun L' σ' v => v.HasTy M L' σ' t)
      (Recorded.lift (step op before x v) σ) := by
  cases hv with
  | integer =>
    rw [step]
    refine updateCells_outcome hs ?_
    cases before <;> exact .integer
  | float =>
    rw [step]
    refine updateCells_outcome hs ?_
    cases before <;> exact .float
  | _ => exact .fail hs.fits _

theorem member_outcome (hs : Scene M L σ P s k) (hv : v.HasTy M L σ t) {m : String}
    (hm : M.get? (t, m) = some u) (hP : v ∈ P.values) :
    Outcome M L σ k [] none (fun L' σ' v => v.HasTy M L' σ' u)
      (Recorded.lift (member v t m) σ) := by
  cases hget : σ.members.get? (t, m) with
  | none =>
    have hfail : member v t m σ = Eval.fail (.unknownMember t m) σ := by
      simp [member, Store.member?, hget, Eval.fail]
    rw [Recorded.lift, hfail]
    exact .fail hs.fits _
  | some found =>
    obtain ⟨u', hu', hfound⟩ := hs.fits.members hget
    rw [hm] at hu'
    cases hu'
    cases hfound with
    | @field w _ hw =>
      refine .lift (a := w) ?_ (.refl L σ k []) hs.fits hw
      simp [member, Store.member?, hget]
    | @method f r bs hf hbs =>
      obtain ⟨Γ, Δ, hf⟩ := hf
      have hm : member v t m σ =
          (.ok (.bound { f with id := σ.fresh } v), { σ with fresh := σ.fresh + 1 }) := by
        simp [member, Store.member?, hget]
      have hr := Store.Retains.withFresh σ
      have he := hr.evolves L k
      have hmem : σ.member? v t m =
          some (.bound { f with id := σ.fresh } v, { σ with fresh := σ.fresh + 1 }) := by
        simp [Store.member?, hget]
      have hσ' := (hs.intact.member (Store.carries_of_held hP) hmem).toTidy
      refine .lift hm he (hr.fits hs.tidy hσ' hs.fits) ?_
      have hf' := he.closure hs.fits.old hf
      exact .bound (f := { f with id := σ.fresh }) (he.value hs.fits.old hv) ⟨Γ, Δ, { hf' with }⟩
        hbs

def Intends (L : Layout) (k : Nat) (ds : List (String × Ty)) : Prop :=
  ∃ F, L k = some F ∧ ∀ d ∈ ds, F.names d.1 = some d.2

theorem bind_outcome (hs : Scene M L σ P s k) (hL : Intends L k [(x, t)])
    (hv : v.HasTy M L (σ.bind s x v) t) : Outcome M L σ k [x] result
      (fun _ σ' _ => ∀ y ∈ [x], σ'.Binds k y) (Recorded.lift (modify (·.bind s x v)) σ) := by
  obtain ⟨a, ha, -, rfl⟩ := hs.here
  obtain ⟨F, hF, hnames⟩ := hL
  refine .lift rfl (Store.evolves_bind L ha x v)
    (hs.fits.bind hs.tidy ha hF (hnames _ List.mem_cons_self) hv) fun y hy => ?_
  cases List.mem_singleton.1 hy
  exact Store.binds_bind hs.tidy ha x v

theorem insertMember_outcome (hs : Scene M L σ P s k) {m : Member} (hx : M.get? (t, x) = some u)
    (hm : m.HasTy M L σ t u) : Outcome M L σ k [] result (fun _ _ _ => True)
      (Recorded.lift (modify fun σ => { σ with members := σ.members.insert (t, x) m }) σ) :=
  .lift rfl (Store.evolves_insertMember L σ (t, x) m k) (hs.fits.insertMember hx hm) trivial

theorem defineValue_outcome (hs : Scene M L σ P s k) {receiver : Option Ty} (hv : v.HasTy M L σ t)
    {ds : List (String × Ty)} (hds : ds = if receiver.isNone then [(x, t)] else [])
    (hm : ∀ r ∈ receiver, M.get? (r, x) = some t) (hL : Intends L k ds) :
    Outcome M L σ k (ds.map Prod.fst) result (fun _ σ' _ => ∀ y ∈ ds.map Prod.fst, σ'.Binds k y)
      (Recorded.lift (defineValue s receiver x v) σ) := by
  subst hds
  cases receiver with
  | some r =>
    exact (insertMember_outcome hs (hm r rfl) (.field hv)).imp fun _ _ => nofun
  | none =>
    obtain ⟨a, ha, -, -⟩ := hs.here
    exact bind_outcome hs hL ((Store.evolves_bind L ha x v).value hs.fits.old hv)

theorem typedIn_of_checks {heading : Heading} {body : Block} {span : Span} {Γ Γ₁ Γ₂ Γ₃ : Context}
    (hc : Stmt.FuncChecks heading body Γ Γ₁ Γ₂ Γ₃) (hm : Γ₃.MembersIn M)
    (hsettled : body.settled = true)
    (hsafe : ∀ u ∈ (Stmt.func heading body span).uses false, Safe L σ u.1 u.2 k)
    (hL : Intends L k (Stmt.func heading body span).defines)
    (hb : ∀ y ∈ (Stmt.func heading body span).defines.map Prod.fst, σ.Binds k y) (id : Nat)
    (slot : Slot) :
    Closure.TypedIn M L σ ⟨id, heading.boundNames, body, ⟨slot, k⟩, heading.signature⟩
      heading.bindings Γ₂ Γ₃ := by
  have hbind := Context.Grows.bindAll? hc.bound
  refine ⟨.of_checks hc hm id ⟨slot, k⟩, hsettled, hbind.new, fun x hx => hbind.old hx,
    fun ⟨y, t⟩ hu => ?_⟩
  obtain ⟨hu, hx⟩ := mem_outside.1 hu
  by_cases hname : y ∈ (Stmt.func heading body span).defines.map Prod.fst
  · -- the function itself, which is bound by now
    obtain ⟨F, hF, hnames⟩ := hL
    obtain ⟨⟨z, t'⟩, hd, rfl⟩ := List.mem_map.1 hname
    have hty : Γ₂.typeOf? z = some t' := by
      rw [hbind.typeOf?_of_not_mem hx, Context.typeOf?_enterFunction]
      rw [Stmt.defines_func] at hd
      exact (Context.Grows.declare? hc.declared).typeOf?_of_mem hd
    obtain rfl : t = t' := Option.some.inj ((Block.uses_typed true hc.body _ hu).symm.trans hty)
    exact .here hF (hnames _ hd) (hb _ hname)
  · refine hsafe _ ?_
    rw [Stmt.uses, mem_outside, List.map_append, List.mem_append, not_or]
    exact ⟨hu, hx, hname⟩

theorem newClosure_scene (hs : Scene M L σ P s k) (parameters : List String) (body : Block)
    (signature : Signature) :
    ∃ f σ₁, σ.newClosure parameters body signature s = (f, σ₁) ∧
      f = ⟨σ.fresh, parameters, body, ⟨s, k⟩, signature⟩ ∧ Scene M L σ₁ P s k ∧
      Evolves L σ k [] L σ₁ := by
  obtain ⟨a, ha, hact, rfl⟩ := hs.here
  have hr := Store.Retains.withFresh σ
  have hintact := (hs.intact.holdNew (f := ⟨σ.fresh, parameters, body, ⟨s, a.stamp⟩, signature⟩)
    none rfl ⟨a, ha, rfl⟩ nofun).release
  refine ⟨_, { σ with fresh := σ.fresh + 1 }, ?_, rfl, ?_, hr.evolves L _⟩
  · rw [Store.newClosure, Store.handleFor, ha]
  · exact ⟨hintact, hr.fits hs.tidy hintact.toTidy hs.fits, a, ha, hact, rfl⟩

theorem defineFunction_outcome (hs : Scene M L σ P s k) {heading : Heading} {body : Block}
    {span : Span} {Γ Γ₁ Γ₂ Γ₃ : Context} (hc : Stmt.FuncChecks heading body Γ Γ₁ Γ₂ Γ₃)
    (hm : Γ₃.MembersIn M) (hsettled : body.settled = true)
    (hsafe : ∀ u ∈ (Stmt.func heading body span).uses false, Safe L σ u.1 u.2 k)
    (hL : Intends L k (Stmt.func heading body span).defines) :
    Outcome M L σ k ((Stmt.func heading body span).defines.map Prod.fst) result
      (fun _ σ' _ => ∀ y ∈ (Stmt.func heading body span).defines.map Prod.fst, σ'.Binds k y)
      (Recorded.lift (defineFunction s heading body) σ) := by
  obtain ⟨f, σ₁, hnew, hf, hs', he⟩ := newClosure_scene hs heading.boundNames body heading.signature
  have htypes := hc.types
  obtain ⟨name, receiver, ps, signature⟩ := heading
  cases receiver with
  | none =>
    have hrun : defineFunction s ⟨name, none, ps, signature⟩ body σ =
        modify (·.bind s name (.function f)) σ₁ := by
      simp [defineFunction, hnew]
    obtain ⟨a, ha, -, rfl⟩ := hs'.here
    have he' := Store.evolves_bind L ha name (.function f)
    have hty : (Value.function f).HasTy M L (σ₁.bind s name (.function f)) signature.toTy := by
      subst hf
      refine .function ⟨Γ₂, Γ₃, typedIn_of_checks hc hm hsettled (fun u hu => ?_) hL
        (fun y hy => ?_)
        _ _⟩ htypes
      · exact he'.safe hs'.fits.old (he.safe hs.fits.old (hsafe u hu))
      · cases List.mem_singleton.1 hy
        exact Store.binds_bind hs'.tidy ha name _
    rw [Recorded.lift, hrun]
    exact .after hs.tidy (he.elsewhere _ _) (bind_outcome hs' hL hty)
  | some r =>
    have hrun : defineFunction s ⟨name, some r, ps, signature⟩ body σ =
        modify (·.setMethod r name f none) σ₁ := by
      simp [defineFunction, hnew]
    rw [Recorded.lift, hrun]
    subst hf
    refine .after hs.tidy (he.elsewhere _ _) ?_
    refine (insertMember_outcome hs' (hc.member hm r rfl) ?_).imp fun _ _ => List.forall_mem_nil _
    refine .method ⟨Γ₂, Γ₃, typedIn_of_checks hc hm hsettled (fun u hu => ?_) hL
      (List.forall_mem_nil _) _ _⟩ htypes
    exact he.safe hs.fits.old (hsafe u hu)

theorem bind_keeps (x : String) (hv : v ∈ P.values) : Keeps P P s (modify (·.bind s x v)) where
  run hσ _ _ := ⟨hσ.bind s x (Store.carries_of_held hv), .bind _ _ _ _⟩

theorem Intends.evolves {ds : List (String × Ty)} (h : Intends L k ds) {L' : Layout} {σ' : Store}
    {k' : Nat} (he : Evolves L σ k' xs L' σ') : Intends L' k ds := by
  obtain ⟨F, hF, hnames⟩ := h
  exact ⟨F, he.layout hF, hnames⟩

theorem Intends.append {ds es : List (String × Ty)} (h : Intends L k (ds ++ es)) :
    Intends L k ds ∧ Intends L k es := by
  obtain ⟨F, hF, hnames⟩ := h
  exact ⟨⟨F, hF, fun d hd => hnames d (List.mem_append_left _ hd)⟩,
    F, hF, fun d hd => hnames d (List.mem_append_right _ hd)⟩

theorem defineAll_outcome {bs : List (String × Ty)} {vs : List Value} (hs : Scene M L σ P s k)
    (hP : ∀ v ∈ vs, v ∈ P.values)
    (hvs : List.Forall₂ (fun v b => v.HasTy M L σ b.2) vs bs) (hL : Intends L k bs) :
    Outcome M L σ k (bs.map Prod.fst) none (fun _ σ' _ => ∀ y ∈ bs.map Prod.fst, σ'.Binds k y)
      (Recorded.lift (defineAll s ((bs.map Prod.fst).zip vs)) σ) := by
  induction bs generalizing L σ vs with
  | nil =>
    cases hvs
    exact .pure hs.fits nofun
  | cons b bs ih =>
    obtain ⟨x, t⟩ := b
    cases hvs with
    | @cons v _ vs _ hv hvs =>
    obtain ⟨F, hF, hnames⟩ := hL
    rw [List.forall_mem_cons] at hP hnames
    obtain ⟨a, ha, -, -⟩ := hs.here
    have hfirst : Outcome M L σ k [x] none _ _ :=
      bind_outcome hs ⟨F, hF, List.forall_mem_singleton.2 hnames.1⟩
        ((Store.evolves_bind L ha x v).value hs.fits.old hv)
    rw [List.map_cons, List.zip_cons_cons, defineAll, Recorded.lift_bind]
    refine hfirst.bind hs (bind_keeps x hP.1)
      (fun y hy => List.mem_cons.2 (.inl (List.mem_singleton.1 hy))) fun {_ L' σ'} hs' he hx => ?_
    have hrest := ih hs' hP.2 (hvs.imp fun _ _ h => he.value hs.fits.old h)
      ⟨F, he.layout hF, hnames.2⟩
    refine (hrest.widen fun y hy => List.mem_cons_of_mem _ hy).imp fun he' hy y hmem => ?_
    obtain rfl | hmem := List.mem_cons.1 hmem
    · exact he'.binds (hs'.fits.old _ _ (he.layout hF)) (hx _ List.mem_cons_self)
    · exact hy y hmem

theorem inScope_outcome {R : Reclaimer} (hR : R.Sound) {during : Roots} (hσ : σ.Intact P)
    (hf : σ.Fits M L)
    {parent : Slot} {a : Scope} (ha : σ.scope? parent = some a) (names : String → Option Ty)
    (xs : List String) {run : Slot → Recorded Visit Value} (hkeeps : ∀ p, Keeps P Q p (run p).erase)
    (hrun : ∀ {p L₁ σ₁}, Scene M L₁ σ₁ P p σ.fresh → Evolves L σ k [] L₁ σ₁ →
      L₁ σ.fresh = some ⟨names, some a.stamp⟩ → (∀ x, σ₁.Lacks σ.fresh x) →
      Outcome M L₁ σ₁ σ.fresh xs result (fun _ _ _ => True) (run p σ₁)) :
    Outcome M L σ k [] result (fun _ _ _ => True)
      ((Traced.observer R).inScope Q during parent run σ) := by
  have hfree := hσ.freeIsEmpty
  have hnew : (σ.openScope parent).2.scope? (σ.openScope parent).1 =
      some ⟨.empty, some parent, true, 0, σ.fresh⟩ := by
    rw [Store.scope?_openScope hfree, if_pos rfl]
  have he₁ := Store.evolves_openScope hσ.toTidy hf.old parent ⟨names, some a.stamp⟩ k
  have hscene : Scene M (L.add σ.fresh ⟨names, some a.stamp⟩) (σ.openScope parent).2 P
      (σ.openScope parent).1 σ.fresh :=
    ⟨hσ.openScope ha, hf.openScope hσ.toTidy ha names, _, hnew, rfl, rfl⟩
  have hlacks : ∀ x, (σ.openScope parent).2.Lacks σ.fresh x := by
    intro x j b hb hst
    obtain rfl | ⟨s, hs, hsb, -⟩ := hσ.toTidy.openScope_bindings hb
    · rfl
    · exact absurd (hsb.trans hst) (Nat.ne_of_lt (hσ.stamp_lt hs))
  obtain ⟨L', h⟩ := hrun hscene he₁ (Layout.add_self _ _ _) hlacks
  have hend := (hkeeps _).run hscene.intact hnew rfl
  rw [Traced.inScope_apply]
  dsimp only
  rw [holdResult_eq]
  rw [Recorded.erase] at hend
  generalize run (σ.openScope parent).1 (σ.openScope parent).2 = x at h hend
  have hr := Store.Retains.of_close hR hend.1 (σ.openScope parent).1
  have he := (he₁.elsewhere σ.fresh xs).trans hσ.toTidy h.evolves
  have hclosed := hr.evolves L' k
  refine ⟨L', ?_, ?_, fun _ _ => trivial, fun v hv => ?_, h.visits⟩
  · exact (he.of_new hσ.toTidy (Nat.le_refl _) k).trans hσ.toTidy hclosed
  · exact hr.fits hend.1.toTidy (hR.intact _ hend.1).toTidy h.fits
  · obtain ⟨t, ht, hty⟩ := h.returned v hv
    exact ⟨t, ht, hclosed.value h.fits.old hty⟩

theorem ofBody_outcome {R : Reclaimer} {m : Recorded Visit Value}
    (hm : Outcome M L σ k [] (some t) (fun _ _ _ => True) (m σ))
    (hvoid : ∀ v, (m.erase σ).1 = .ok v → t = .void) :
    Outcome M L σ k [] none (fun L' σ' v => v.HasTy M L' σ' t)
      (((Traced.observer R).attempt m >>= (Traced.observer R).ofBody) σ) := by
  obtain ⟨L', h⟩ := hm
  rw [Recorded.erase] at hvoid
  rw [Recorder.attempt_eq, Recorded.bind_apply, Recorded.attempt]
  rcases hx : m σ with ⟨⟨(v | e | _) | v, τ⟩, vs⟩ <;> rw [hx] at h hvoid <;>
    refine ⟨L', h.evolves, h.fits, fun a ha => ?_, (fun _ h => by cases h), fun w hw => ?_⟩
  case error.returned.refine_1 =>
    cases ha
    obtain ⟨u, hu, hty⟩ := h.returned _ rfl
    cases hu
    exact hty
  case ok.refine_1 =>
    cases ha
    rw [hvoid v rfl]
    exact .void
  case error.failed.refine_1 => cases ha
  case error.outOfFuel.refine_1 => cases ha
  all_goals exact h.visits w ((List.mem_append.1 hw).resolve_right List.not_mem_nil)

end steps

end Eval

end TypedScript
