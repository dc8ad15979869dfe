import TypedScript.Proofs.Eval.Blame
import TypedScript.Proofs.Eval.Typed
import TypedScript.Proofs.Eval.Watched
import TypedScript.Proofs.Static.Definitions
import TypedScript.Proofs.Store.Contents

namespace TypedScript

structure Closure.Of (f : Closure) (d : Heading × Block) : Prop where
  parameters : f.parameters = d.1.boundNames
  signature : f.signature = d.1.signature
  body : f.body = d.2

variable (defs : List (Heading × Block))

/-- If the value is a function, it comes from one of the definitions: from that of a method if it
has a receiver, and only then. -/
def Value.Comes (v : Value) : Prop :=
  ∀ f r, v.asFunction? = some (f, r) → ∃ d ∈ defs, f.Of d ∧ d.1.receiver.isSome = r.isSome

def Value.From (v : Value) : Prop := ∀ a ∈ v.functions, a.Comes defs

def Member.From : Member → Prop
  | .field v => v.From defs
  | .method f receiver => receiver = none ∧ ∃ d ∈ defs, f.Of d ∧ d.1.receiver.isSome = true

/-- Nothing that is still needed has been given back, and all functions come from the
definitions. -/
structure Session.Accounted (w : Session) : Prop where
  intact : w.store.Intact w.roots
  store : w.store.Contains (Value.From defs) (Member.From defs)
  held : ∀ v ∈ w.roots.values, v.From defs

variable {defs}

namespace Value.From

variable {v : Value}

theorem of_plain (h : v.functions = []) : v.From defs := by
  intro a ha
  rw [h] at ha
  cases ha

theorem function {f : Closure} {d : Heading × Block} (hd : d ∈ defs) (hf : f.Of d)
    (hr : d.1.receiver = none) : (Value.function f).From defs := by
  intro a ha g r hg
  cases List.mem_singleton.1 ha
  cases hg
  exact ⟨d, hd, hf, by rw [hr]; rfl⟩

theorem bound {f : Closure} {d : Heading × Block} (hd : d ∈ defs) (hf : f.Of d)
    (hr : d.1.receiver.isSome = true) (hv : v.From defs) : (Value.bound f v).From defs := by
  intro a ha
  obtain rfl | ha := List.mem_cons.1 ha
  · intro g r hg
    cases hg
    exact ⟨d, hd, hf, hr⟩
  · exact hv a ha

theorem callee (h : v.From defs) {f : Closure} {receiver : Option Value}
    (hf : v.asFunction? = some (f, receiver)) :
    (∃ d ∈ defs, f.Of d) ∧ ∀ u ∈ receiver, u.From defs := by
  have hv := Value.functions_of_asFunction? hf
  have hfunctions := Value.functions_ofFunction f receiver
  rw [← hv] at hfunctions
  constructor
  · obtain ⟨d, hd, hof, -⟩ := h v (hfunctions ▸ List.mem_cons_self) f receiver hf
    exact ⟨d, hd, hof⟩
  · intro u hu a ha
    refine h a (hfunctions ▸ List.mem_cons_of_mem _ ?_)
    exact List.mem_flatMap.2 ⟨u, Option.mem_toList.2 hu, ha⟩

end Value.From

namespace Session.Accounted

variable {σ : Store} {P Q : Roots} {v : Value}

theorem initial : Session.initial.Accounted defs :=
  ⟨Store.Intact.initial, .initial, List.forall_mem_nil _⟩

theorem within (h : (⟨σ, P⟩ : Session).Accounted defs) (hQ : Q.Within P) :
    (⟨σ, Q⟩ : Session).Accounted defs where
  intact := h.intact.within hQ
  store := h.store
  held u hu a ha := by
    obtain ⟨w, hw, ha⟩ := hQ.values u hu a ha
    exact h.held w hw a ha

end Session.Accounted

namespace Eval

open Observed (held)

variable {α β : Type} [Observed α] [Observed β]

def Yields (defs : List (Heading × Block)) (m : Eval α) : Prop :=
  ∀ σ, σ.Contains (Value.From defs) (Member.From defs) →
    (m σ).2.Contains (Value.From defs) (Member.From defs) ∧
      (∀ v ∈ held (m σ).1, v.From defs) ∧ σ.fresh ≤ (m σ).2.fresh

section steps

variable {v : Value}

theorem Yields.pure {a : α} (h : ∀ v ∈ held a, v.From defs) : Yields defs (Pure.pure a : Eval α) :=
  fun _ hσ => ⟨hσ, h, Nat.le_refl _⟩

theorem Yields.fail (e : EvalError) : Yields defs (Eval.fail e : Eval α) :=
  fun _ hσ => ⟨hσ, List.forall_mem_nil _, Nat.le_refl _⟩

theorem Yields.gets {γ : Type} {f : Store → γ} {g : γ → Eval α}
    (h : ∀ σ, σ.Contains (Value.From defs) (Member.From defs) → Yields defs (g (f σ))) :
    Yields defs (Eval.gets f >>= g) := fun σ hσ => h σ hσ σ hσ

theorem updateCells_yields {f : Cells → Value × Cells} (h : ∀ cells, (f cells).1.functions = []) :
    Yields defs (updateCells f) := by
  intro σ hσ
  refine ⟨hσ.retains (.withCells ..), fun v hv => ?_, Nat.le_refl _⟩
  rw [List.mem_singleton.1 hv]
  exact .of_plain (h σ.cells)

theorem ofScalar_yields (x : Except EvalError Scalar) : Yields defs (ofScalar x) := by
  cases x with
  | error e => exact .fail e
  | ok y => exact updateCells_yields fun cells => alloc_plain cells y

theorem lookup_yields (s : Slot) (x : String) : Yields defs (lookup s x) := by
  refine .gets fun σ hσ => ?_
  cases hv : σ.lookup? s x with
  | none => exact .fail _
  | some v => exact .pure (List.forall_mem_singleton.2 (hσ.lookup? hv))

theorem assign_yields (s : Slot) (x : String) (hv : v.From defs) : Yields defs (assign s x v) := by
  refine .gets fun σ _ => ?_
  cases σ.binder? s x with
  | none => exact .fail _
  | some found =>
    exact fun τ hτ => ⟨hτ.bind hv found x, List.forall_mem_singleton.2 hv, Nat.le_refl _⟩

theorem step_yields (op : StepOp) (before : Bool) (x : String) (v : Value) :
    Yields defs (step op before x v) := by
  cases v with
  | integer c => exact updateCells_yields fun cells => stepInteger_plain cells op before c
  | float c => exact updateCells_yields fun cells => stepFloat_plain cells op before c
  | _ => exact .fail _

theorem member_yields (hv : v.From defs) (t : Ty) (x : String) : Yields defs (member v t x) := by
  intro σ hσ
  cases hget : σ.members.get? (t, x) with
  | none =>
    simp only [member, Store.member?, hget]
    exact ⟨hσ, List.forall_mem_nil _, Nat.le_refl _⟩
  | some found =>
    have hfound := hσ.members hget
    cases found with
    | field w =>
      simp only [member, Store.member?, hget]
      exact ⟨hσ, List.forall_mem_singleton.2 hfound, Nat.le_refl _⟩
    | method f receiver =>
      obtain ⟨-, d, hd, hf, hr⟩ := hfound
      simp only [member, Store.member?, hget]
      refine ⟨hσ.retains (.withFresh σ), List.forall_mem_singleton.2 ?_, Nat.le_succ _⟩
      exact .bound hd ⟨hf.parameters, hf.signature, hf.body⟩ hr hv

theorem bind_yields (s : Slot) (x : String) (hv : v.From defs) :
    Yields defs (modify (·.bind s x v)) :=
  fun _ hσ => ⟨hσ.bind hv s x, List.forall_mem_nil _, Nat.le_refl _⟩

theorem defineValue_yields (s : Slot) (receiver : Option Ty) (x : String) (hv : v.From defs) :
    Yields defs (defineValue s receiver x v) := by
  cases receiver with
  | some r =>
    intro σ hσ
    exact ⟨hσ.insertMember (m := .field v) hv (r, x), List.forall_mem_nil _, Nat.le_refl _⟩
  | none => exact bind_yields s x hv

theorem defineFunction_yields (s : Slot) {heading : Heading} {body : Block}
    (hd : (heading, body) ∈ defs) : Yields defs (defineFunction s heading body) := by
  intro σ hσ
  obtain ⟨id, home, τ, hnew, hr⟩ :=
    Store.newClosure_eq σ heading.boundNames body heading.signature s
  have hτ := hσ.retains hr
  simp only [defineFunction, bind_apply, update_apply, hnew]
  generalize hf : (⟨id, heading.boundNames, body, home, heading.signature⟩ : Closure) = f
  have hof : f.Of (heading, body) := hf ▸ ⟨rfl, rfl, rfl⟩
  cases hreceiver : heading.receiver with
  | none =>
    exact ⟨hτ.bind (.function hd hof hreceiver) s heading.name, List.forall_mem_nil _, hr.fresh⟩
  | some t =>
    have hm : (Member.method f none).From defs := ⟨rfl, _, hd, hof, by rw [hreceiver]; rfl⟩
    exact ⟨hτ.insertMember hm (t, heading.name), List.forall_mem_nil _, hr.fresh⟩

end steps

end Eval

namespace Watched

open Eval (Keeps Yields Observed)
open Eval.Observed (held)

variable {α β : Type} [Observed α] [Observed β]

structure Upheld (defs : List (Heading × Block)) (σ : Store) (Q : Roots)
    (x : (Except Exit α × Store) × List Session) : Prop where
  ends : (⟨x.1.2, Q.plus (held x.1.1)⟩ : Session).Accounted defs
  stays : σ.Stays x.1.2
  fresh : σ.fresh ≤ x.1.2.fresh
  states : ∀ w ∈ x.2, w.Accounted defs

structure Upholds (defs : List (Heading × Block)) (P Q : Roots) (s : Slot)
    (m : Recorded Session α) : Prop where
  run : ∀ {σ a}, (⟨σ, P⟩ : Session).Accounted defs → σ.scope? s = some a → a.active →
    Upheld defs σ Q (m σ)

theorem Upheld.within {σ : Store} {P Q : Roots} {x : (Except Exit α × Store) × List Session}
    (h : Upheld defs σ P x) (hQ : Q.Within P) : Upheld defs σ Q x :=
  ⟨h.ends.within (hQ.plus_same _), h.stays, h.fresh, h.states⟩

theorem Upheld.after {σ τ : Store} {Q : Roots} {x : (Except Exit α × Store) × List Session}
    (hs : σ.Stays τ) (hf : σ.fresh ≤ τ.fresh) (h : Upheld defs τ Q x) : Upheld defs σ Q x :=
  ⟨h.ends, hs.trans h.stays, Nat.le_trans hf h.fresh, h.states⟩

namespace Upholds

variable {P Q M : Roots} {s : Slot} {m : Recorded Session α} {f : α → Recorded Session β}

theorem within (h : Upholds defs P M s m) {P' : Roots} (hP : P.Within P') (hQ : Q.Within M) :
    Upholds defs P' Q s m :=
  ⟨fun hσ ha hact => (h.run (hσ.within hP) ha hact).within hQ⟩

theorem forget (h : Upholds defs P P s m) (vs : List Value) : Upholds defs (P.plus vs) P s m :=
  h.within (.plus_right (.refl P) vs) (.refl P)

theorem lift {m : Eval α} (hk : Keeps P Q s m) (hQ : Q.Within P)
    (hy : (∀ v ∈ P.values, v.From defs) → Yields defs m) :
    Upholds defs P Q s (Recorded.lift m) where
  run {σ a} hσ ha hact := by
    obtain ⟨hintact, hstays⟩ := hk.run hσ.intact ha hact
    obtain ⟨hstore, hheld, hfresh⟩ := hy hσ.held σ hσ.store
    refine ⟨⟨hintact, hstore, fun v hv => ?_⟩, hstays, hfresh, List.forall_mem_nil _⟩
    obtain hv | hv := List.mem_append.1 hv
    · exact hheld v hv
    · exact (hσ.within hQ).held v hv

theorem bind (hm : Upholds defs P M s m) (hQ : Q.Within M)
    (hf : ∀ a, Upholds defs (M.plus (held a)) Q s (f a)) : Upholds defs P Q s (m >>= f) where
  run {σ a} hσ ha hact := by
    have h := hm.run hσ ha hact
    obtain ⟨b, hb, hbact, -⟩ := h.stays.scope ha hact
    rw [Recorded.bind_apply]
    rcases hx : m σ with ⟨⟨e | v, τ⟩, ws⟩ <;> rw [hx] at h hb
    · have h := h.within hQ
      rcases e with v | e | _ <;> exact ⟨h.ends, h.stays, h.fresh, h.states⟩
    · have h' := ((hf v).run h.ends hb hbact).after h.stays h.fresh
      refine ⟨h'.ends, h'.stays, h'.fresh, fun w hw => ?_⟩
      obtain hw | hw := List.mem_append.1 hw
      · exact h.states w hw
      · exact h'.states w hw

theorem seq (hm : Upholds defs P P s m) (hf : ∀ a, Upholds defs (P.plus (held a)) P s (f a)) :
    Upholds defs P P s (m >>= f) := hm.bind (.refl P) hf

theorem pure {a : α} (h : (Q.plus (held a)).Within P) :
    Upholds defs P Q s (Pure.pure a : Recorded Session α) :=
  ⟨fun hσ _ _ => ⟨hσ.within h, .refl _, Nat.le_refl _, List.forall_mem_nil _⟩⟩

theorem exit {e : Exit} (h : (Q.plus (held (.error e : Except Exit α))).Within P) :
    Upholds defs P Q s (Recorded.lift (Eval.exit e) : Recorded Session α) :=
  ⟨fun hσ _ _ => ⟨hσ.within h, .refl _, Nat.le_refl _, List.forall_mem_nil _⟩⟩

theorem fail (h : Q.Within P) (e : EvalError) :
    Upholds defs P Q s (Recorded.lift (Eval.fail e) : Recorded Session α) := exit h

theorem outOfFuel (h : Q.Within P) :
    Upholds defs P Q s (Recorded.lift (Eval.exit .outOfFuel) : Recorded Session α) := exit h

theorem attempt (hm : Upholds defs P Q s m) : Upholds defs P Q s m.attempt where
  run hσ ha hact := by
    have h := hm.run hσ ha hact
    exact ⟨h.ends, h.stays, h.fresh, h.states⟩

theorem note {m : Recorded Session Value} (hm : Upholds defs P Q s m) :
    Upholds defs P Q s (Recorded.note (ended Q) m) where
  run {σ a} hσ ha hact := by
    have h := hm.run hσ ha hact
    refine ⟨h.ends, h.stays, h.fresh, List.forall_mem_append.2 ⟨h.states, ?_⟩⟩
    rw [ended, Eval.holdResult_eq]
    exact List.forall_mem_singleton.2 h.ends

theorem onExpr {m : Recorded Session Value} {e : Expr} (hm : Upholds defs P Q s m) :
    Upholds defs P Q s ((observer .standard).onExpr Q e m) := hm.note

theorem onStmt {m : Recorded Session Value} {c : Stmt} (hm : Upholds defs P Q s m) :
    Upholds defs P Q s ((observer .standard).onStmt Q c m) := hm.note

theorem test {v : Value} {f : Bool → Recorded Session β} (hf : ∀ b, Upholds defs P Q s (f b)) :
    Upholds defs (P.plus [v]) Q s (Recorded.lift (Eval.truthy v) >>= f) where
  run {σ a} hσ ha hact := by
    rw [Recorded.bind_apply]
    exact (hf _).run (hσ.within (.plus_right (.refl P) [v])) ha hact

end Upholds

theorem inScope_upheld {σ : Store} {P Q during : Roots} (hσ : (⟨σ, P⟩ : Session).Accounted defs)
    {parent : Slot} {p : Scope} (hp : σ.scope? parent = some p) (hduring : during.Within P)
    {run : Slot → Recorded Session Value} (hrun : ∀ s, Upholds defs P Q s (run s)) :
    Upheld defs σ Q ((observer .standard).inScope Q during parent run σ) ∧
      σ.fresh < ((observer .standard).inScope Q during parent run σ).1.2.fresh := by
  have hf := hσ.intact.freeIsEmpty
  have hnew : (σ.openScope parent).2.scope? (σ.openScope parent).1 =
      some ⟨.empty, some parent, true, 0, σ.fresh⟩ := by
    rw [Store.scope?_openScope hf, if_pos rfl]
  have hopen : (⟨(σ.openScope parent).2, P⟩ : Session).Accounted defs :=
    ⟨hσ.intact.openScope hp, hσ.store.openScope parent, hσ.held⟩
  have h := (hrun (σ.openScope parent).1).run hopen hnew rfl
  have hstays := (Store.Stays.openScope hf parent).trans h.stays
  have hfresh := h.fresh
  rw [Store.openScope_fresh] at hfresh
  rw [inScope_apply]
  generalize run (σ.openScope parent).1 (σ.openScope parent).2 = x at h hstays hfresh
  have hretains (r : Roots) : x.1.2.Retains (x.1.2.close r (σ.openScope parent).1) := .close ..
  have hgrows (r : Roots) : σ.fresh < (x.1.2.close r (σ.openScope parent).1).fresh :=
    Nat.lt_of_succ_le (Nat.le_trans hfresh (hretains r).fresh)
  have hclosed : (⟨_, _⟩ : Session).Accounted defs :=
    ⟨Reclaimer.standard_sound.intact (σ.openScope parent).1 h.ends.intact,
      h.ends.store.retains (hretains _), h.ends.held⟩
  dsimp only
  rw [Eval.holdResult_eq]
  refine ⟨⟨hclosed, ?_, Nat.le_of_lt (hgrows _), fun w hw => ?_⟩, hgrows _⟩
  · exact Reclaimer.standard_sound.stays h.ends.intact hstays
      (Store.scope?_openScope_slot hf parent)
  · obtain rfl | hw := List.mem_cons.1 hw
    · exact hopen.within hduring
    · obtain hw | hw := List.mem_append.1 hw
      · exact h.states w hw
      · rw [List.mem_singleton.1 hw]
        exact hclosed

theorem pass_upholds {P : Roots} {s : Slot} (name : String) {v : Value} (hv : v ∈ P.values) :
    Upholds defs P P s ((observer .standard).act P (.pass s name v)) where
  run {σ _} hσ _ _ := by
    have hbind : (⟨σ.bind s name v, P⟩ : Session).Accounted defs :=
      ⟨hσ.intact.bind s name (Store.carries_of_held hv), hσ.store.bind (hσ.held v hv) s name,
        hσ.held⟩
    exact ⟨hbind.within (.plus_plain (.refl P) rfl), .bind _ _ _ _, Nat.le_refl _,
      List.forall_mem_singleton.2 hbind⟩

theorem defineAll_upholds {P : Roots} {s : Slot} (names : List String) {vs : List Value}
    (hvs : ∀ v ∈ vs, v ∈ P.values) :
    Upholds defs P P s ((observer .standard).defineAll P s (names.zip vs)) := by
  induction names generalizing vs with
  | nil => exact .pure (.refl P)
  | cons name names ih =>
    cases vs with
    | nil => exact .pure (.refl P)
    | cons v vs =>
      rw [List.forall_mem_cons] at hvs
      exact (pass_upholds name hvs.1).seq fun u => (ih hvs.2).forget [u]

structure Accounts (defs : List (Heading × Block)) (n : Nat) : Prop where
  expr : ∀ r s e, Upholds defs r r s ((observer .standard).expr n r s e)
  logical : ∀ r s op a b, Upholds defs r r s ((observer .standard).logical n r s op a b)
  arguments : ∀ r s es, Upholds defs r r s ((observer .standard).arguments n r s es)
  call : ∀ r vs {v : Value} {f : Closure} {x : Option Value} {σ : Store}, v ∈ r.values →
    v.asFunction? = some (f, x) → (⟨σ, r.plus vs⟩ : Session).Accounted defs →
      Upheld defs σ r ((observer .standard).call n r f vs σ)
  stmt : ∀ r s {c}, c.functions ⊆ defs → Upholds defs r r s ((observer .standard).stmt n r s c)
  loop : ∀ r s e {c}, c.functions ⊆ defs → Upholds defs r r s ((observer .standard).loop n r s e c)
  statements : ∀ r s {cs}, Stmt.functionsAll cs ⊆ defs →
    Upholds defs r r s ((observer .standard).statements n r s cs)
  block : ∀ r s {b}, b.functions ⊆ defs → Upholds defs r r s ((observer .standard).block n r s b)
  branch : ∀ r s {c}, c.functions ⊆ defs → Upholds defs r r s ((observer .standard).branch n r s c)

namespace Accounts

variable {n : Nat}

theorem zero : Accounts defs 0 where
  expr r _ _ := .outOfFuel (.refl r)
  logical r _ _ _ _ := .outOfFuel (.refl r)
  arguments r _ _ := .outOfFuel (.refl r)
  call r vs _ _ _ _ _ _ hσ :=
    ⟨hσ.within (.plus_right (.refl r) vs), .refl _, Nat.le_refl _, List.forall_mem_nil _⟩
  stmt r _ _ _ := .outOfFuel (.refl r)
  loop r _ _ _ _ := .outOfFuel (.refl r)
  statements r _ _ _ := .outOfFuel (.refl r)
  block r _ _ _ := .outOfFuel (.refl r)
  branch r _ _ _ := .outOfFuel (.refl r)

theorem void {r : Roots} {s : Slot} :
    Upholds defs r r s (Pure.pure Value.void : Recorded Session Value) :=
  .pure (.plus_plain (.refl r) rfl)

theorem call_case (h : Accounts defs n) (r : Roots) (s : Slot) (args : List Expr) (v : Value) :
    Upholds defs (r.plus [v]) r s
      (match v.asFunction? with
        | none => Recorded.lift (Eval.fail (.notCallable v.ty))
        | some (closure, receiver) => do
          let values ← (observer .standard).arguments n (r.hold v) s args
          (observer .standard).call n (r.hold v) closure (receiver.toList ++ values)) := by
  have hr : r.Within (r.hold v) := .plus_right (.refl r) [v]
  rcases hv : v.asFunction? with _ | ⟨f, x⟩
  · exact .fail hr _
  · refine (h.arguments (r.hold v) s args).bind hr fun vs => ⟨fun hσ _ _ => ?_⟩
    have hcall := h.call (r.hold v) (x.toList ++ vs) List.mem_cons_self hv
      (hσ.within (.plus_receiver r vs hv))
    exact hcall.within hr

theorem expr_succ (h : Accounts defs n) (r : Roots) (s : Slot) (e : Expr) :
    Upholds defs r r s ((observer .standard).expr (n + 1) r s e) := by
  refine .onExpr ?_
  cases e with
  | name ann x =>
    exact .lift (Eval.lookup_simulates x).keeps (.refl r) fun _ => Eval.lookup_yields s x
  | literal ann v =>
    exact .lift (Eval.literal_simulates v).keeps (.refl r) fun _ =>
      Eval.updateCells_yields fun cells => Eval.literal_plain cells v
  | unary ann op operand =>
    refine (h.expr r s operand).seq fun v => .forget (.lift ?_ (.refl r) fun _ => ?_) [v]
    · exact (Eval.unary_simulates op rfl).keeps
    · exact .gets fun _ _ => Eval.ofScalar_yields _
  | binary ann op a b =>
    dsimp only
    split
    · exact h.logical r s op a b
    · refine (h.expr r s a).seq fun v => (h.expr (r.hold v) s b).bind (.plus_right (.refl r) [v])
        fun w => .lift (P := r.plus [w, v]) ?_ (.plus_right (.refl r) [w, v]) fun _ => ?_
      · exact (Eval.binary_simulates (P := (r, r)) op rfl rfl).keeps
      · exact .gets fun _ _ => Eval.ofScalar_yields _
  | call ann f args => exact (h.expr r s f).seq fun v => h.call_case r s args v
  | assign ann x value =>
    refine (h.expr r s value).seq fun v => .lift ?_ (.plus_right (.refl r) [v]) fun hP => ?_
    · exact (Eval.assign_simulates (P := (r, r)) x rfl).keeps
    · exact Eval.assign_yields s x (hP v List.mem_cons_self)
  | step ann op before x =>
    dsimp only
    rw [act_of_still fun _ _ => rfl, Recorded.lift_step]
    refine Upholds.seq (.lift (Eval.lookup_simulates x).keeps (.refl r) fun _ =>
      Eval.lookup_yields s x) fun v => .forget (.lift ?_ (.refl r) fun _ => ?_) [v]
    · exact (Eval.step_simulates op before x rfl).keeps
    · exact Eval.step_yields op before x v
  | member ann object m =>
    refine (h.expr r s object).seq fun v => .lift ?_ (.plus_right (.refl r) [v]) fun hP => ?_
    · exact (Eval.member_simulates (P := (r, r)) rfl _ m).keeps
    · exact Eval.member_yields (hP v List.mem_cons_self) _ m

theorem logical_succ (h : Accounts defs n) (r : Roots) (s : Slot) (op : BinaryOp) (a b : Expr) :
    Upholds defs r r s ((observer .standard).logical (n + 1) r s op a b) := by
  have hboolean (b : Bool) : Upholds defs r r s (Pure.pure (.boolean b) : Recorded Session Value) :=
    .pure (.plus_plain (.refl r) rfl)
  simp only [Observer.logical]
  refine (h.expr r s a).seq fun v => .test fun decided => ?_
  split
  · exact hboolean decided
  · exact (h.expr r s b).seq fun w => .test hboolean

theorem arguments_succ (h : Accounts defs n) (r : Roots) (s : Slot) (es : List Expr) :
    Upholds defs r r s ((observer .standard).arguments (n + 1) r s es) := by
  cases es with
  | nil =>
    simp only [Observer.arguments]
    exact .pure (.refl r)
  | cons e es =>
    simp only [Observer.arguments]
    refine (h.expr r s e).seq fun v => ?_
    refine (h.arguments (r.hold v) s es).bind (.plus_right (.refl r) [v]) fun vs => .pure ?_
    refine .plus_left (.plus_right (.plus_right (.refl r) [v]) vs) fun u hu => ?_
    obtain rfl | hu := List.mem_cons.1 hu
    · exact List.mem_append_right _ List.mem_cons_self
    · exact List.mem_append_left _ hu

theorem body_upheld (h : Accounts defs n) (hdefs : ∀ d ∈ defs, d.2.functions ⊆ defs) (r : Roots)
    (vs : List Value) {v : Value} {f : Closure} {x : Option Value} {σ : Store} (hv : v ∈ r.values)
    (hf : v.asFunction? = some (f, x)) (hσ : (⟨σ, r.plus vs⟩ : Session).Accounted defs) :
    let body := (observer .standard).inScope r (r.plus vs) f.home.slot fun scope => do
      (observer .standard).defineAll (r.plus vs) scope (f.parameters.zip vs)
      (observer .standard).block n r scope f.body
    Upheld defs σ r (body σ) ∧ σ.fresh < (body σ).1.2.fresh := by
  have hr : r.Within (r.plus vs) := .plus_right (.refl r) vs
  have hmem : v ∈ (r.plus vs).values := List.mem_append_right _ hv
  obtain ⟨⟨d, hd, hof⟩, -⟩ := (hσ.held v hmem).callee hf
  have hcarries : σ.Carries (r.plus vs) (.ofFunction f x) := by
    rw [← Value.functions_of_asFunction? hf]
    exact Store.carries_of_held hmem
  obtain ⟨home, hhome, -⟩ := hσ.intact.home_of_carries hcarries
  refine inScope_upheld hσ hhome (.refl _) fun p => ?_
  refine (defineAll_upholds f.parameters fun u hu => List.mem_append_left _ hu).bind hr fun _ => ?_
  exact ((h.block r p (hof.body ▸ hdefs d hd)).forget vs).within (.refl _) (.refl r)

theorem call_succ (h : Accounts defs n) (hdefs : ∀ d ∈ defs, d.2.functions ⊆ defs) (r : Roots)
    (vs : List Value) {v : Value} {f : Closure} {x : Option Value} {σ : Store} (hv : v ∈ r.values)
    (hf : v.asFunction? = some (f, x)) (hσ : (⟨σ, r.plus vs⟩ : Session).Accounted defs) :
    Upheld defs σ r ((observer .standard).call (n + 1) r f vs σ) := by
  have hstates (ws : List Session) (h : ∀ w ∈ ws, w.Accounted defs) :
      ∀ w ∈ ws ++ [], w.Accounted defs := by rwa [List.append_nil]
  rw [Observer.call]
  split
  · obtain ⟨hbody, -⟩ := h.body_upheld hdefs r vs hv hf hσ
    rw [Recorder.attempt_eq, Recorded.bind_apply, Recorded.attempt]
    generalize (observer .standard).inScope _ _ _ _ σ = y at hbody
    obtain ⟨⟨(u | e | _) | u, τ⟩, ws⟩ := y
    case ok =>
      refine ⟨hbody.ends.within ?_, hbody.stays, hbody.fresh, hstates ws hbody.states⟩
      exact .plus_plain (.plus_right (.refl r) [u]) rfl
    all_goals exact ⟨hbody.ends, hbody.stays, hbody.fresh, hstates ws hbody.states⟩
  · exact ⟨hσ.within (.plus_right (.refl r) vs), .refl _, Nat.le_refl _, List.forall_mem_nil _⟩

theorem stmt_succ (h : Accounts defs n) (r : Roots) (s : Slot) {c : Stmt}
    (hc : c.functions ⊆ defs) : Upholds defs r r s ((observer .standard).stmt (n + 1) r s c) := by
  refine .onStmt ?_
  cases c with
  | define x ty value receiver span =>
    refine (h.expr r s value).seq fun v => ?_
    rw [act_of_still fun _ _ => rfl, Recorded.lift_define]
    refine Upholds.bind (.lift ?_ (.plus_right (.refl r) [v]) fun hP => ?_) (.refl r) fun _ => void
    · exact (Eval.defineValue_simulates (P := (r, r)) receiver x rfl).keeps
    · exact Eval.defineValue_yields s receiver x (hP v List.mem_cons_self)
  | ret value span => exact (h.expr r s value).seq fun v => .exit (.refl _)
  | func heading body span =>
    dsimp only
    rw [act_of_still fun _ _ => rfl, Recorded.lift_func]
    refine Upholds.seq (.lift ?_ (.refl r) fun _ => ?_) fun _ => void
    · exact (Eval.defineFunction_simulates heading body).keeps
    · exact Eval.defineFunction_yields s (hc List.mem_cons_self)
  | block b => exact h.block r s hc
  | cond condition yes no span =>
    obtain ⟨hyes, hno⟩ := List.append_subset.1 hc
    refine (h.expr r s condition).seq fun v => .test fun holds => ?_
    split
    · exact h.branch r s hyes
    · cases no with
      | some no => exact h.branch r s hno
      | none => exact void
  | loop condition body span => exact h.loop r s condition hc
  | expr value span => exact h.expr r s value
  | typeDecl name span => exact void

theorem loop_succ (h : Accounts defs n) (r : Roots) (s : Slot) (e : Expr) {c : Stmt}
    (hc : c.functions ⊆ defs) : Upholds defs r r s ((observer .standard).loop (n + 1) r s e c) := by
  simp only [Observer.loop]
  refine (h.expr r s e).seq fun v => .test fun holds => ?_
  split
  · exact (h.branch r s hc).seq fun w => (h.loop r s e hc).forget [w]
  · exact void

theorem statements_succ (h : Accounts defs n) (r : Roots) (s : Slot) {cs : List Stmt}
    (hcs : Stmt.functionsAll cs ⊆ defs) :
    Upholds defs r r s ((observer .standard).statements (n + 1) r s cs) := by
  cases cs with
  | nil =>
    simp only [Observer.statements]
    exact void
  | cons c cs =>
    obtain ⟨hc, hcs⟩ := List.append_subset.1 hcs
    simp only [Observer.statements]
    exact (h.stmt r s hc).seq fun v => (h.statements r s hcs).forget [v]

theorem succ (hdefs : ∀ d ∈ defs, d.2.functions ⊆ defs) (h : Accounts defs n) :
    Accounts defs (n + 1) where
  expr := h.expr_succ
  logical := h.logical_succ
  arguments := h.arguments_succ
  call := h.call_succ hdefs
  stmt := h.stmt_succ
  loop := h.loop_succ
  statements := h.statements_succ
  block r s b hb := by
    simp only [Observer.block]
    cases b
    exact ⟨fun hσ ha _ => (inScope_upheld hσ ha (.refl r) fun p => h.statements r p hb).1⟩
  branch r s c hc := by
    simp only [Observer.branch]
    refine Upholds.seq ⟨fun hσ ha _ => ?_⟩ fun v => void.forget [v]
    exact (inScope_upheld hσ ha (.refl r) fun p => h.stmt r p hc).1

theorem all (hdefs : ∀ d ∈ defs, d.2.functions ⊆ defs) (n : Nat) : Accounts defs n := by
  induction n with
  | zero => exact zero
  | succ n ih => exact ih.succ hdefs

end Accounts

theorem evaluateFrom_upholds (hdefs : ∀ d ∈ defs, d.2.functions ⊆ defs) (n : Nat) (r : Roots)
    (v : Value) {cs : List Stmt} (hcs : Stmt.functionsAll cs ⊆ defs) :
    Upholds defs (r.plus [v]) r Store.global ((observer .standard).evaluateFrom n r v cs) := by
  induction cs generalizing v with
  | nil => exact .pure (.refl _)
  | cons c cs ih =>
    obtain ⟨hc, hcs⟩ := List.append_subset.1 hcs
    have hr : r.Within (r.hold v) := .plus_right (.refl r) [v]
    have hstmt := (Accounts.all hdefs n).stmt (r.hold v) Store.global hc
    rw [Observer.evaluateFrom]
    refine hstmt.attempt.bind hr fun x => ?_
    rcases x with (u | e | _) | u
    · exact .pure (.plus_same hr [u])
    · exact .fail hr e
    · exact .outOfFuel hr
    · exact (ih u hcs).within (.plus_same hr [u]) (.refl r)

end Watched

namespace Program

def functionsOf (ps : List (Program × Bool)) : List (Heading × Block) :=
  ps.flatMap fun p => Stmt.functionsAll p.1.statements

theorem functionsOf_closed (ps : List (Program × Bool)) :
    ∀ d ∈ functionsOf ps, d.2.functions ⊆ functionsOf ps := by
  intro d hd e he
  obtain ⟨p, hp, hd⟩ := List.mem_flatMap.1 hd
  exact List.mem_flatMap.2 ⟨p, hp, Stmt.functionsAll_closed _ d hd he⟩

theorem watched_upheld (hdefs : ∀ d ∈ defs, d.2.functions ⊆ defs) (n : Nat) {w : Session}
    (hw : w.Accounted defs) {s : Scope} (hs : w.store.scope? Store.global = some s)
    (hact : s.active) {p : Program} (hp : Stmt.functionsAll p.statements ⊆ defs) :
    Watched.Upheld defs w.store w.roots (p.watched n w) := by
  have hrun := Watched.evaluateFrom_upholds hdefs n w.roots .void hp
  have hvoid : (w.roots.plus [.void]).Within w.roots := .plus_plain (.refl _) rfl
  have h := (hrun.within hvoid (.refl _)).run hw hs hact
  exact ⟨h.ends, h.stays, h.fresh, List.forall_mem_cons.2 ⟨hw, h.states⟩⟩

theorem watchedAll_accounted (n : Nat) (ps : List (Program × Bool)) :
    ∀ w ∈ watchedAll n .initial ps, w.Accounted (functionsOf ps) := by
  have hall : ∀ qs : List (Program × Bool), functionsOf qs ⊆ functionsOf ps →
      ∀ {w : Session} {s : Scope}, w.Accounted (functionsOf ps) →
        w.store.scope? Store.global = some s → s.active →
          ∀ u ∈ watchedAll n w qs, u.Accounted (functionsOf ps) := by
    intro qs hqs
    induction qs with
    | nil => exact fun hw _ _ => List.forall_mem_singleton.2 hw
    | cons q qs ih =>
      intro w s hw hs hact u hu
      obtain ⟨hq, hqs⟩ := List.append_subset.1 hqs
      have h := watched_upheld (functionsOf_closed ps) n hw hs hact hq
      obtain hu | hu := List.mem_append.1 hu
      · exact h.states u hu
      · obtain ⟨t, ht, htact, -⟩ := h.stays.scope hs hact
        refine ih hqs (h.ends.within ?_) ht htact u hu
        split
        · rw [Eval.holdResult_eq]
          exact .refl _
        · exact .plus_right (.refl _) _
  exact hall ps (List.Subset.refl _) .initial rfl rfl

end Program

namespace Session

/-- The values that a session has: in its scopes, in the fields of types, held outside, or as the
receiver of a function that it has. -/
inductive Live (w : Session) : Value → Prop
  | bound {id s x v} : w.store.scope? id = some s → s.bindings.get? x = some v → Live w v
  | field {key v} : w.store.members.get? key = some (.field v) → Live w v
  | held {v} : v ∈ w.roots.values → Live w v
  | receiver {f r} : Live w (.bound f r) → Live w r

variable {w : Session} {v : Value}

theorem Accounted.live (h : w.Accounted defs) (hv : w.Live v) : v.From defs := by
  induction hv with
  | bound hs hx => exact h.store.bound hs hx
  | field hm => exact h.store.members hm
  | held hv => exact h.held _ hv
  | receiver _ ih => exact fun a ha => ih a (List.mem_cons_of_mem _ ha)

theorem Live.carries (hv : w.Live v) : w.store.Carries w.roots v := by
  induction hv with
  | bound hs hx => exact Store.carries_of_bound hs (Dict.mem_values_of_get? hx)
  | field hm => exact Store.carries_of_member (m := .field _) (Dict.mem_values_of_get? hm)
  | held hv => exact Store.carries_of_held hv
  | receiver _ ih => exact fun a ha => ih a (List.mem_cons_of_mem _ ha)

theorem Accounted.plus (h : w.Accounted defs) {vs : List Value} (hvs : ∀ v ∈ vs, w.Live v) :
    (⟨w.store, w.roots.plus vs⟩ : Session).Accounted defs := by
  refine ⟨?_, h.store, fun v hv => ?_⟩
  · induction vs with
    | nil => exact h.intact
    | cons v vs ih =>
      rw [List.forall_mem_cons] at hvs
      refine (ih hvs.2).hold fun a ha => ?_
      obtain ⟨u, hu, ha⟩ := hvs.1.carries a ha
      refine ⟨u, ?_, ha⟩
      rw [Store.mem_referenced] at hu ⊢
      exact hu.imp id (.imp id fun hu => List.mem_append_right _ hu)
  · obtain hv | hv := List.mem_append.1 hv
    · exact h.live (hvs v hv)
    · exact h.held v hv

end Session

end TypedScript
