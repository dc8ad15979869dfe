import TypedScript.Proofs.Eval.Guarded
import TypedScript.Proofs.Eval.Typed
import TypedScript.Proofs.Store.Scoping

namespace TypedScript

namespace Value

theorem arithmetic_error {cells : Cells} {op : BinaryOp} {l r : Value} {e : EvalError}
    (h : arithmetic cells op l r = .error e) : e = .divisionByZero := by
  have hints : ∀ a b, Scalar.ofIntegers op a b = .error e → e = .divisionByZero := by
    intro a b h
    cases op with
    | divide =>
      rw [Scalar.ofIntegers] at h
      split at h <;> cases h
      rfl
    | _ => cases h
  have hfloats : ∀ a b, Scalar.ofFloats op a b = .error e → e = .divisionByZero := by
    intro a b h
    cases op with
    | divide =>
      rw [Scalar.ofFloats] at h
      split at h <;> cases h
      rfl
    | _ => cases h
  rw [arithmetic.eq_def] at h
  split at h
  · exact hints _ _ h
  · exact hfloats _ _ h
  · exact hfloats _ _ h
  · exact hfloats _ _ h
  · cases h

theorem binary_ne_undeclared (cells : Cells) (op : BinaryOp) (l r : Value) (x : String) :
    binary cells op l r ≠ .error (.variableNotDeclared x) := by
  rw [binary]
  intro h
  split at h
  · cases h
  · split at h
    · cases h
    · split at h
      · cases h
      · split at h <;> cases h
        cases arithmetic_error ‹_›

theorem unary_ne_undeclared (cells : Cells) (op : UnaryOp) (v : Value) (x : String) :
    unary cells op v ≠ .error (.variableNotDeclared x) := by
  cases op <;> cases v <;> simp [unary]

end Value

namespace Guarded

open Eval (Keeps Level Observed)
open Eval.Observed (held)

variable {α β : Type}

structure Stage (σ : Store) (P : Roots) (s : Slot) (k : Nat) : Prop where
  intact : σ.Intact P
  store : σ.Scoped
  here : ∃ a, σ.scope? s = some a ∧ a.active ∧ a.stamp = k

/-- How a computation ends that was begun in `σ`: under guard it is not given up, every name it
looks for is found, and it defines `xs` at most in the scope with the stamp `k`. -/
structure Agrees (σ : Store) (k : Nat) (xs : List String) (good : Store → α → Prop)
    (c : Option (Except Exit α × Store)) (x : Except Exit α × Store) : Prop where
  same : c = some x
  advances : σ.Advances k xs x.2
  tidy : x.2.Tidy
  store : x.2.Scoped
  value : ∀ a, x.1 = .ok a → good x.2 a
  returned : ∀ v, x.1 = .error (.returned v) → v.Scoped x.2
  declared : ∀ y, x.1 ≠ .error (.failed (.variableNotDeclared y))

variable {σ : Store} {P Q : Roots} {s : Slot} {k : Nat} {xs : List String}
  {good : Store → α → Prop} {good' : Store → β → Prop} {g : Guarded α} {m : Eval α}

namespace Stage

theorem tidy (h : Stage σ P s k) : σ.Tidy := h.intact.toTidy

theorem lt (h : Stage σ P s k) : k < σ.fresh := by
  obtain ⟨a, ha, -, rfl⟩ := h.here
  exact h.tidy.stamp_lt ha

theorem next [Observed α] (h : Stage σ P s k) (hm : Keeps P Q s m) (hs : (m σ).2.Scoped) :
    Stage (m σ).2 (Q.plus (held (m σ).1)) s k := by
  obtain ⟨a, ha, hact, hk⟩ := h.here
  obtain ⟨hintact, hstays⟩ := hm.run h.intact ha hact
  obtain ⟨b, hb, hact', hst⟩ := hstays.scope ha hact
  exact ⟨hintact, hs, b, hb, hact', hst.trans hk⟩

theorem within (h : Stage σ P s k) (hQ : Q.Within P) : Stage σ Q s k :=
  ⟨h.intact.within hQ, h.store, h.here⟩

theorem scoped_bind (h : Stage σ P s k) {v : Value} (hv : v.Scoped σ) (x : String) (w : Value) :
    v.Scoped (σ.bind s x w) := by
  obtain ⟨a, ha, -, -⟩ := h.here
  have he : σ.Advances a.stamp [x] _ := Store.evolves_bind _ ha x w
  exact he.value (h.tidy.bind s x w) hv

end Stage

namespace Agrees

variable {c : Option (Except Exit α × Store)} {x : Except Exit α × Store}

theorem imp {good₂ : Store → α → Prop} (h : Agrees σ k xs good c x)
    (hg : ∀ {σ' a}, σ.Advances k xs σ' → σ'.Tidy → good σ' a → good₂ σ' a) :
    Agrees σ k xs good₂ c x :=
  { h with value := fun a ha => hg h.advances h.tidy (h.value a ha) }

theorem widen {ys : List String} (h : Agrees σ k xs good c x) (hxs : ∀ x ∈ xs, x ∈ ys) :
    Agrees σ k ys good c x :=
  { h with advances := h.advances.mono hxs }

theorem ok {a : α} {τ : Store} (he : σ.Advances k xs τ) (hτ : τ.Tidy) (hs : τ.Scoped)
    (ha : good τ a) : Agrees σ k xs good (some (.ok a, τ)) (.ok a, τ) := by
  refine ⟨rfl, he, hτ, hs, ?_, fun _ => nofun, fun _ => nofun⟩
  rintro b ⟨⟩
  exact ha

theorem error {e : Exit} {τ : Store} (h : Agrees σ k xs good c (.error e, τ)) :
    Agrees σ k xs good' (some (.error e, τ)) (.error e, τ) where
  same := rfl
  advances := h.advances
  tidy := h.tidy
  store := h.store
  value _ hb := nomatch hb
  returned v hv := h.returned v (congrArg _ (Except.error.inj hv))
  declared y hy := h.declared y (congrArg _ (Except.error.inj hy))

theorem pure (h : Stage σ P s k) {a : α} (ha : good σ a) :
    Agrees σ k xs good ((Pure.pure a : Guarded α) σ) ((Pure.pure a : Eval α) σ) :=
  .ok (.refl _ σ k xs) h.tidy h.store ha

theorem exit (h : Stage σ P s k) {e : Exit} (he : ∀ v, e = .returned v → v.Scoped σ)
    (hd : ∀ y, e ≠ .failed (.variableNotDeclared y)) :
    Agrees σ k xs good (lift (Eval.exit e : Eval α) σ) (Eval.exit e σ) := by
  refine ⟨rfl, .refl _ σ k xs, h.tidy, h.store, fun _ => nofun, fun v hv => ?_, fun y hy => ?_⟩
  · exact he v (Except.error.inj hv)
  · exact hd y (Except.error.inj hy)

theorem fail (h : Stage σ P s k) {e : EvalError} (he : ∀ y, e ≠ .variableNotDeclared y) :
    Agrees σ k xs good (lift (Eval.fail e : Eval α) σ) (Eval.fail e σ) :=
  exit h nofun fun y hy => he y (Exit.failed.inj hy)

theorem outOfFuel (h : Stage σ P s k) :
    Agrees σ k xs good (lift (Eval.exit .outOfFuel : Eval α) σ) (Eval.exit .outOfFuel σ) :=
  exit h nofun nofun

theorem bind [Observed α] {g' : α → Guarded β} {f : α → Eval β} {ys : List String}
    (hs : Stage σ P s k) (hk : Keeps P Q s m) (hm : Agrees σ k ys good (g σ) (m σ))
    (hys : ∀ y ∈ ys, y ∈ xs)
    (hf : ∀ {a σ'}, Stage σ' (Q.plus (held a)) s k → σ.Advances k ys σ' → good σ' a →
      Agrees σ' k xs good' (g' a σ') (f a σ')) :
    Agrees σ k xs good' ((g >>= g') σ) ((m >>= f) σ) := by
  have hnext := hs.next hk hm.store
  rw [Eval.bind_apply, bind_apply]
  rcases hx : m σ with ⟨e | a, τ⟩ <;> rw [hx] at hm hnext <;> rw [hm.same]
  · exact (hm.widen hys).error
  · have h := hf hnext hm.advances (hm.value a rfl)
    exact { h with advances := (hm.advances.mono hys).trans hs.tidy h.advances }

theorem seq [Observed α] {g' : α → Guarded β} {f : α → Eval β} (hs : Stage σ P s k)
    (hk : Keeps P Q s m) (hm : Agrees σ k [] good (g σ) (m σ))
    (hf : ∀ {a σ'}, Stage σ' (Q.plus (held a)) s k → σ.Advances k [] σ' → good σ' a →
      Agrees σ' k xs good' (g' a σ') (f a σ')) :
    Agrees σ k xs good' ((g >>= g') σ) ((m >>= f) σ) := hm.bind hs hk nofun hf

theorem map (hm : Agrees σ k xs good (g σ) (m σ)) {f : α → β}
    (hf : ∀ σ' a, good σ' a → good' σ' (f a)) :
    Agrees σ k xs good' ((g >>= fun a => Pure.pure (f a)) σ)
      ((m >>= fun a => Pure.pure (f a)) σ) := by
  rw [Eval.bind_apply, bind_apply]
  rcases hx : m σ with ⟨e | a, τ⟩ <;> rw [hx] at hm <;> rw [hm.same]
  · exact hm.error
  · exact .ok hm.advances hm.tidy hm.store (hf τ a (hm.value a rfl))

end Agrees

section steps

variable {v w : Value} {x : String} {t : Ty} {Γ Δ : Context}

theorem updateCells_agrees (hs : Stage σ P s k) {f : Cells → Value × Cells}
    (hf : ∀ cells, (f cells).1.functions = []) :
    Agrees σ k [] (fun σ' v => v.Scoped σ') (lift (Eval.updateCells f) σ)
      (Eval.updateCells f σ) := by
  have hr := Store.Retains.withCells σ (f σ.cells).2
  have hτ := (hs.intact.withCells (f σ.cells).2).toTidy
  exact .ok (hr.evolves _ k) hτ (hs.store.retains hτ hr) (Value.scoped_of_plain (hf _))

theorem ofScalar_agrees (hs : Stage σ P s k) {x : Except EvalError Scalar}
    (hx : ∀ y, x ≠ .error (.variableNotDeclared y)) :
    Agrees σ k [] (fun σ' v => v.Scoped σ') (lift (Eval.ofScalar x) σ) (Eval.ofScalar x σ) := by
  cases x with
  | error e => exact .fail hs fun y hy => hx y (congrArg _ hy)
  | ok y => exact updateCells_agrees hs fun cells => Eval.alloc_plain cells y

theorem truthy_agrees (hs : Stage σ P s k) (v : Value) :
    Agrees σ k [] (fun _ _ => True) (lift (Eval.truthy v) σ) (Eval.truthy v σ) :=
  .ok (.refl _ σ k []) hs.tidy hs.store trivial

theorem lookup_agrees (hs : Stage σ P s k) (hr : σ.Reflects Γ.scopes k)
    (hx : Γ.typeOf? x = some t) :
    Agrees σ k [] (fun σ' v => v.Scoped σ') (lift (Eval.lookup s x) σ) (Eval.lookup s x σ) := by
  obtain ⟨a, ha, -, rfl⟩ := hs.here
  obtain ⟨found, u, hb, hu, hc⟩ := hr.binder? hs.tidy ha hx
  obtain ⟨v, hv⟩ := Option.isSome_iff_exists.1 hc
  have hrun : Eval.lookup s x σ = (.ok v, σ) := by
    simp [Eval.lookup, Store.lookup?, hb, hu, hv]
  rw [lift, hrun]
  exact .ok (.refl _ σ _ []) hs.tidy hs.store (hs.store.bound hu hv)

theorem assign_agrees (hs : Stage σ P s k) (hr : σ.Reflects Γ.scopes k)
    (hx : Γ.typeOf? x = some t) (hv : v.Scoped σ) :
    Agrees σ k [] (fun σ' v => v.Scoped σ') (lift (Eval.assign s x v) σ)
      (Eval.assign s x v σ) := by
  obtain ⟨a, ha, -, rfl⟩ := hs.here
  obtain ⟨found, u, hb, hu, hc⟩ := hr.binder? hs.tidy ha hx
  have hrun : Eval.assign s x v σ = (.ok v, σ.bind found x v) := by simp [Eval.assign, hb]
  have he : σ.Advances a.stamp [] _ := Store.evolves_rebind hs.tidy hu hc v a.stamp
  have hτ := hs.tidy.bind found x v
  have hv' := he.value hτ hv
  rw [lift, hrun]
  exact .ok he hτ (hs.store.bind hs.tidy hu hv') hv'

theorem step_agrees (hs : Stage σ P s k) (op : StepOp) (before : Bool) (x : String) (v : Value) :
    Agrees σ k [] (fun σ' v => v.Scoped σ') (lift (Eval.step op before x v) σ)
      (Eval.step op before x v σ) := by
  cases v with
  | integer c => exact updateCells_agrees hs fun cells => Eval.stepInteger_plain cells op before c
  | float c => exact updateCells_agrees hs fun cells => Eval.stepFloat_plain cells op before c
  | _ => exact .fail hs nofun

theorem member_agrees (hs : Stage σ P s k) (hP : v ∈ P.values) (hv : v.Scoped σ) (ty : Ty)
    (name : String) : Agrees σ k [] (fun σ' v => v.Scoped σ') (lift (Eval.member v ty name) σ)
      (Eval.member v ty name σ) := by
  rw [lift]
  cases hget : σ.members.get? (ty, name) with
  | none =>
    have hrun : Eval.member v ty name σ = Eval.fail (.unknownMember ty name) σ := by
      simp [Eval.member, Store.member?, hget, Eval.fail]
    rw [hrun]
    exact .fail hs fun _ h => by cases h
  | some found =>
    have hfound := hs.store.members hget
    cases found with
    | field w =>
      have hrun : Eval.member v ty name σ = (.ok w, σ) := by
        simp [Eval.member, Store.member?, hget]
      rw [hrun]
      exact .ok (.refl _ σ k []) hs.tidy hs.store hfound
    | method f r =>
      have hmem : σ.member? v ty name =
          some (.bound { f with id := σ.fresh } v, { σ with fresh := σ.fresh + 1 }) := by
        simp [Store.member?, hget]
      have hrun : Eval.member v ty name σ =
          (.ok (.bound { f with id := σ.fresh } v), { σ with fresh := σ.fresh + 1 }) := by
        simp [Eval.member, hmem]
      have hr := Store.Retains.withFresh σ
      have he : σ.Advances k [] _ := hr.evolves _ k
      have hτ := (hs.intact.member (Store.carries_of_held hP) hmem).toTidy
      rw [hrun]
      refine .ok he hτ (hs.store.retains hτ hr) fun f' hf' => ?_
      obtain rfl | hf' := List.mem_cons.1 hf'
      · obtain ⟨bs, Γ, Γ₁, Γ₂, hf⟩ := hfound f (by cases r <;> exact List.mem_cons_self)
        exact ⟨bs, Γ, Γ₁, Γ₂, { he.closure hτ hf with }⟩
      · exact he.value hτ hv f' hf'

theorem tracks_bind (hs : Stage σ P s k) (ht : σ.Tracks Γ k) (hd : Γ.declare? none x t = some Δ)
    (v : Value) : (σ.bind s x v).Tracks Δ k := by
  have hlt := hs.lt
  obtain ⟨a, ha, -, rfl⟩ := hs.here
  have he : σ.Advances a.stamp [x] _ := Store.evolves_bind _ ha x v
  have hΓ : Γ.Grows [(x, t)] Δ := .declare? hd
  apply he.tracks (hs.tidy.bind s x v) hlt hΓ ht
  intro d hmem
  cases List.mem_singleton.1 hmem
  exact Store.binds_bind hs.tidy ha x v

theorem lacks_of_declare? (hs : Stage σ P s k) (ht : σ.Tracks Γ k)
    (hd : Γ.declare? none x t = some Δ) : σ.lacks s x = true := by
  obtain ⟨a, ha, -, rfl⟩ := hs.here
  have hΓ : Γ.Grows [(x, t)] Δ := .declare? hd
  have hfree : a.bindings.contains x = false :=
    ht.lacks x (hΓ.fresh (x, t) List.mem_cons_self) s a ha rfl
  rw [Store.lacks, ha]
  simp [hfree]

theorem bind_agrees (hs : Stage σ P s k) (ht : σ.Tracks Γ k)
    (hd : Γ.declare? none x t = some Δ) (hv : v.Scoped (σ.bind s x v)) (a : α) :
    Agrees σ k [x] (fun σ' _ => σ'.Tracks Δ k) (some (.ok a, σ.bind s x v))
      (.ok a, σ.bind s x v) := by
  have htracks := tracks_bind hs ht hd v
  obtain ⟨b, hb, -, rfl⟩ := hs.here
  exact .ok (Store.evolves_bind _ hb x v) (hs.tidy.bind s x v) (hs.store.bind hs.tidy hb hv) htracks

theorem pass_agrees (R : Reclaimer) (roots : Roots) (hs : Stage σ P s k) (ht : σ.Tracks Γ k)
    (hd : Γ.declare? none x t = some Δ) (hv : v.Scoped σ) :
    Agrees σ k [x] (fun σ' _ => σ'.Tracks Δ k) (act R roots (.pass s x v) σ)
      ((Action.pass s x v).run R roots σ) := by
  rw [act_of_lacks rfl (lacks_of_declare? hs ht hd)]
  exact bind_agrees hs ht hd (hs.scoped_bind hv x v) Value.void

theorem insertMember_agrees (hs : Stage σ P s k) (ht : σ.Tracks Γ k) (hΓ : Γ.Grows [] Δ)
    (key : Ty × String) {n : Member} (hn : n.value.Scoped σ) (a : α) :
    let τ := { σ with members := σ.members.insert key n }
    Agrees σ k [] (fun σ' _ => σ'.Tracks Δ k) (some (.ok a, τ)) (.ok a, τ) := by
  have he : σ.Advances k [] _ := Store.evolves_insertMember _ σ key n k
  have hτ : ({ σ with members := σ.members.insert key n } : Store).Tidy :=
    hs.tidy.congr rfl rfl rfl (Nat.le_refl _) fun _ => rfl
  exact .ok he hτ (hs.store.insertMember hτ hn) (he.still hτ hs.lt hΓ ht)

theorem defineValue_agrees (R : Reclaimer) (roots : Roots) (hs : Stage σ P s k)
    (ht : σ.Tracks Γ k) {receiver : Option Ty} (hd : Γ.declare? receiver x t = some Δ)
    (hv : v.Scoped σ) :
    Agrees σ k ((if receiver.isNone then [(x, t)] else []).map Prod.fst)
      (fun σ' _ => σ'.Tracks Δ k) (act R roots (.define s receiver x v) σ)
      ((Action.define s receiver x v).run R roots σ) := by
  cases receiver with
  | some r =>
    rw [act_of_none rfl, lift]
    exact insertMember_agrees hs ht (.declare? hd) (r, x) (n := .field v) hv Value.void
  | none =>
    rw [act_of_lacks rfl (lacks_of_declare? hs ht hd)]
    exact bind_agrees hs ht hd (hs.scoped_bind hv x v) Value.void

theorem newClosure_stage (hs : Stage σ P s k) (parameters : List String) (body : Block)
    (signature : Signature) :
    σ.newClosure parameters body signature s =
        (⟨σ.fresh, parameters, body, ⟨s, k⟩, signature⟩, { σ with fresh := σ.fresh + 1 }) ∧
      Stage { σ with fresh := σ.fresh + 1 } P s k := by
  obtain ⟨a, ha, hact, rfl⟩ := hs.here
  have hintact := (hs.intact.holdNew (f := ⟨σ.fresh, parameters, body, ⟨s, a.stamp⟩, signature⟩)
    none rfl ⟨a, ha, rfl⟩ nofun).release
  constructor
  · rw [Store.newClosure, Store.handleFor, ha]
  · exact ⟨hintact, hs.store.retains hintact.toTidy (.withFresh σ), a, ha, hact, rfl⟩

theorem defineFunction_agrees (R : Reclaimer) (roots : Roots) (hs : Stage σ P s k)
    (ht : σ.Tracks Γ k) {heading : Heading} {body : Block} {Γ₁ Γ₂ Γ₃ : Context}
    (hc : Stmt.FuncChecks heading body Γ Γ₁ Γ₂ Γ₃) :
    Agrees σ k
      ((if heading.receiver.isNone then [(heading.name, heading.signature.toTy)] else []).map
        Prod.fst)
      (fun σ' _ => σ'.Tracks Γ₁ k) (act R roots (.func s heading body) σ)
      ((Action.func s heading body).run R roots σ) := by
  obtain ⟨hnew, hs₁⟩ := newClosure_stage hs heading.boundNames body heading.signature
  generalize hf : (⟨σ.fresh, heading.boundNames, body, ⟨s, k⟩, heading.signature⟩ : Closure) = f
    at hnew
  generalize hσ₁ : ({ σ with fresh := σ.fresh + 1 } : Store) = σ₁ at hnew hs₁
  have he : σ.Advances k [] σ₁ := hσ₁ ▸ (Store.Retains.withFresh σ).evolves _ k
  have ht₁ := he.still hs₁.tidy hs.lt (.refl Γ) ht
  have hplaced : ∀ {τ : Store}, k < τ.fresh → τ.Tracks Γ₁ k →
      f.Scoped τ heading.bindings Γ₁ Γ₂ Γ₃ := fun hlt hτ =>
    hf ▸ ⟨rfl, hc.bound, hc.body, hlt, hτ.reflects⟩
  have hdeclared := hc.declared
  cases hr : heading.receiver with
  | none =>
    rw [hr] at hdeclared
    have hv : (Value.function f).Scoped (σ₁.bind s heading.name (.function f)) := by
      intro f' hf'
      cases List.mem_singleton.1 hf'
      exact ⟨_, _, _, _, hplaced hs₁.lt (tracks_bind hs₁ ht₁ hdeclared _)⟩
    have hrun : (Action.func s heading body).run R roots σ =
        (.ok .void, σ₁.bind s heading.name (.function f)) := by
      simp [Action.run, Eval.defineFunction, hnew, hr]
    have hdefinition : (Action.func s heading body).definition? = some (s, heading.name) := by
      simp [Action.definition?, hr]
    have h := bind_agrees hs₁ ht₁ hdeclared hv Value.void
    rw [act_of_lacks hdefinition (lacks_of_declare? hs ht hdeclared), hrun]
    exact { h with advances := (he.elsewhere k _).trans hs.tidy h.advances }
  | some r =>
    rw [hr] at hdeclared
    have hΓ : Γ.Grows [] Γ₁ := .declare? hdeclared
    have hn : (Member.method f none).value.Scoped σ₁ := by
      intro f' hf'
      cases List.mem_singleton.1 hf'
      exact ⟨_, _, _, _, hplaced hs₁.lt (he.still hs₁.tidy hs.lt hΓ ht)⟩
    have hrun : (Action.func s heading body).run R roots σ =
        (.ok .void, σ₁.setMethod r heading.name f none) := by
      simp [Action.run, Eval.defineFunction, hnew, hr]
    have hdefinition : (Action.func s heading body).definition? = none := by
      simp [Action.definition?, hr]
    have h := insertMember_agrees hs₁ ht₁ hΓ (r, heading.name) hn Value.void
    rw [act_of_none hdefinition, lift, hrun]
    exact { h with advances := he.trans hs.tidy h.advances }

theorem defineAll_agrees (R : Reclaimer) (roots : Roots) {bs : List (String × Ty)}
    {vs : List Value} (hs : Stage σ P s k) (hP : ∀ v ∈ vs, v ∈ P.values)
    (hvs : ∀ v ∈ vs, v.Scoped σ) (hlen : vs.length = bs.length) (ht : σ.Tracks Γ k)
    (hb : Γ.bindAll? bs = some Δ) :
    Agrees σ k (bs.map Prod.fst) (fun σ' _ => σ'.Tracks Δ k)
      ((observer R).defineAll roots s ((bs.map Prod.fst).zip vs) σ)
      (Eval.defineAll s ((bs.map Prod.fst).zip vs) σ) := by
  induction bs generalizing σ vs Γ with
  | nil =>
    cases hb
    exact .pure hs ht
  | cons b bs ih =>
    obtain ⟨x, t⟩ := b
    cases vs with
    | nil => cases hlen
    | cons v vs =>
    obtain ⟨Γ₁, hd, hb⟩ := Option.bind_eq_some_iff.1 hb
    rw [List.forall_mem_cons] at hP hvs
    have hfirst := pass_agrees R roots hs ht hd hvs.1
    have hkeeps : Keeps P P s ((Action.pass s x v).run R roots) :=
      ⟨fun hσ _ _ => ⟨(hσ.bind s x (Store.carries_of_held hP.1)).within
        (.plus_plain (.refl P) rfl), .bind _ _ _ _⟩⟩
    change Agrees σ k _ _ ((act R roots (.pass s x v) >>= fun _ => _) σ)
      (((Action.pass s x v).run R roots >>= fun _ => Eval.defineAll s _) σ)
    refine hfirst.bind hs hkeeps (fun y hy => ?_) fun {w _} hs₁ he₁ ht₁ => ?_
    · rw [List.mem_singleton.1 hy]
      exact List.mem_cons_self
    · have hvs₁ := fun w hw => he₁.value hs₁.tidy (hvs.2 w hw)
      have hs₂ := hs₁.within (.plus_right (.refl P) [w])
      exact (ih hs₂ hP.2 hvs₁ (Nat.succ.inj hlen) ht₁ hb).widen
        fun y hy => List.mem_cons_of_mem _ hy

theorem inScope_agrees {R : Reclaimer} (hR : R.Sound) {during : Roots} (hs : Stage σ P s k)
    {parent : Slot} {a : Scope} (ha : σ.scope? parent = some a) (hnew : Γ.current.names = .empty)
    (hr : σ.Reflects Γ.enclosing a.stamp) (xs : List String) {g : Slot → Guarded Value}
    {m : Slot → Eval Value} (hkeeps : ∀ p, Keeps P Q p (m p))
    (hrun : ∀ {p σ₁}, Stage σ₁ P p σ.fresh → σ.Advances k [] σ₁ → σ₁.Tracks Γ σ.fresh →
      Agrees σ₁ σ.fresh xs (fun _ _ => True) (g p σ₁) (m p σ₁)) :
    Agrees σ k [] (fun _ _ => True) ((observer R).inScope Q during parent g σ)
      (Eval.inScope R Q parent m σ) := by
  have hscope : (σ.openScope parent).2.scope? (σ.openScope parent).1 =
      some ⟨.empty, some parent, true, 0, σ.fresh⟩ := by
    rw [Store.scope?_openScope hs.tidy.freeIsEmpty, if_pos rfl]
  have he₁ := Store.advances_openScope hs.tidy parent k
  have hs₁ : Stage (σ.openScope parent).2 P (σ.openScope parent).1 σ.fresh :=
    ⟨hs.intact.openScope ha, hs.store.openScope hs.tidy ha, _, hscope, rfl, rfl⟩
  have h := hrun hs₁ he₁ (Store.tracks_openScope hs.tidy ha hnew hr)
  have hend := (hkeeps _).run hs₁.intact hscope rfl
  rw [inScope_apply, h.same, Eval.inScope_apply, Option.map_some]
  dsimp only
  generalize m (σ.openScope parent).1 (σ.openScope parent).2 = x at h hend
  rw [Eval.holdResult_eq]
  have hτ := (hR.intact (σ.openScope parent).1 hend.1).toTidy
  have hclose := Store.Retains.of_close hR hend.1 (σ.openScope parent).1
  have hclosed : Store.Advances x.2 k [] _ := hclose.evolves _ k
  have he := ((he₁.elsewhere σ.fresh xs).trans hs.tidy h.advances).of_new hs.tidy (Nat.le_refl _) k
  refine ⟨rfl, he.trans hs.tidy hclosed, hτ, h.store.retains hτ hclose, fun _ _ => trivial, ?_, ?_⟩
  · exact fun v hv => hclosed.value hτ (h.returned v hv)
  · exact h.declared

theorem ofBody_agrees (R : Reclaimer) {g : Guarded Value} {m : Eval Value}
    (hm : Agrees σ k [] (fun _ _ => True) (g σ) (m σ)) :
    Agrees σ k [] (fun σ' v => v.Scoped σ')
      (((observer R).attempt g >>= (observer R).ofBody) σ)
      ((Eval.attempt m >>= Eval.ofBody) σ) := by
  rw [bind_apply, Eval.bind_apply, Eval.attempt_apply, attempt_apply, hm.same, Option.map_some]
  rcases hx : m σ with ⟨(v | e | _) | v, τ⟩ <;> rw [hx] at hm
  · exact .ok hm.advances hm.tidy hm.store (hm.returned v rfl)
  · exact hm.error
  · exact hm.error
  · exact .ok hm.advances hm.tidy hm.store (List.forall_mem_nil _)

end steps

end Guarded

end TypedScript
