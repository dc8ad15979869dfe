import TypedScript.Proofs.Eval.Trace
import TypedScript.Proofs.Store.Typing

namespace TypedScript

def Expr.looksUp : Expr → Bool
  | .name _ _ => true
  | .step _ _ _ _ => true
  | _ => false

variable (M : Dict (Ty × String) Ty)

abbrev Value.Is (v : Value) (t : Ty) : Prop := v.TypedBy (fun f bs => ∃ Γ Δ, f.Accepted M bs Γ Δ) t

structure Store.Accepted (σ : Store) : Prop where
  bound : ∀ {j s x v}, σ.scope? j = some s → s.bindings.get? x = some v → ∃ t, v.Is M t
  members : ∀ {t x m}, σ.members.get? (t, x) = some m →
    ∃ u, M.get? (t, x) = some u ∧ m.TypedBy (fun f bs => ∃ Γ Δ, f.Accepted M bs Γ Δ) t u

variable {M}

theorem Store.newClosure_eq (σ : Store) (parameters : List String) (body : Block)
    (signature : Signature) (s : Slot) : ∃ id home τ,
      σ.newClosure parameters body signature s = (⟨id, parameters, body, home, signature⟩, τ) ∧
      σ.Retains τ := by
  cases hs : σ.scope? s with
  | some a =>
    refine ⟨σ.fresh, ⟨s, a.stamp⟩, _, ?_, .withFresh σ⟩
    rw [newClosure, handleFor, hs]
  | none =>
    refine ⟨σ.fresh + 1, ⟨s, σ.fresh⟩, _, ?_, (Retains.withFresh σ).trans (.withFresh _)⟩
    rw [newClosure, handleFor, hs]

namespace Store.Accepted

variable {σ σ' : Store}

theorem initial (M : Dict (Ty × String) Ty) : Store.initial.Accepted M := by
  refine ⟨fun {j s x v} hs hv => ?_, nofun⟩
  obtain ⟨_ | i⟩ := j
  · cases hs
    cases hv
  · cases hs

theorem retains (h : σ.Accepted M) (hr : σ.Retains σ') : σ'.Accepted M := by
  refine ⟨fun ht hv => ?_, fun hm => h.members (hr.members ▸ hm)⟩
  obtain ⟨s, hs, -, -, hb⟩ := hr.back ht
  exact h.bound hs (hb ▸ hv)

theorem openScope (h : σ.Accepted M) (parent : Slot) : (σ.openScope parent).2.Accepted M := by
  refine ⟨fun ht hv => ?_, fun hm => h.members (openScope_members σ parent ▸ hm)⟩
  obtain he | ⟨s, hs, hb⟩ := openScope_bindings σ parent ht
  · rw [he] at hv
    cases hv
  · exact h.bound hs (hb ▸ hv)

theorem bind (h : σ.Accepted M) {v : Value} {t : Ty} (hv : v.Is M t) (id : Slot) (x : String) :
    (σ.bind id x v).Accepted M := by
  refine ⟨fun {j s y w} hs hw => ?_, h.members⟩
  rw [scope?_bind] at hs
  split at hs
  · obtain ⟨s', hs', rfl⟩ := Option.map_eq_some_iff.1 hs
    rw [Dict.get?_insert] at hw
    split at hw
    · cases hw
      exact ⟨t, hv⟩
    · exact h.bound hs' hw
  · exact h.bound hs hw

theorem insertMember (h : σ.Accepted M) {t u : Ty} {x : String} {m : Member}
    (hx : M.get? (t, x) = some u)
    (hm : m.TypedBy (fun f bs => ∃ Γ Δ, f.Accepted M bs Γ Δ) t u) :
    ({ σ with members := σ.members.insert (t, x) m } : Store).Accepted M := by
  refine ⟨h.bound, fun {t' x' m'} hmem => ?_⟩
  rw [Dict.get?_insert] at hmem
  split at hmem
  · rename_i heq
    cases heq
    cases hmem
    exact ⟨u, hx, hm⟩
  · exact h.members hmem

theorem lookup? (h : σ.Accepted M) {id : Slot} {x : String} {v : Value}
    (hv : σ.lookup? id x = some v) : ∃ t, v.Is M t := by
  rw [Store.lookup?] at hv
  split at hv
  · cases hv
  · obtain ⟨s, hs, hv⟩ := Option.bind_eq_some_iff.1 hv
    exact h.bound hs hv

end Store.Accepted

/-- Every name that was looked up was bound to a value of its type. -/
def Blameless (ws : List Visit) : Prop := ∀ w ∈ ws, w.node.looksUp = true → w.Fits

namespace Traced

variable {α β : Type}

structure Ended (M : Dict (Ty × String) Ty) (result : Option Ty) (good : α → Prop)
    (x : (Except Exit α × Store) × List Visit) : Prop where
  store : x.1.2.Accepted M
  value : ∀ a, x.1.1 = .ok a → good a
  returned : ∀ v, x.1.1 = .error (.returned v) → ∃ t, result = some t ∧ v.Is M t
  visits : ∀ w ∈ x.2, w.Fits

/-- A computation in which types go wrong only where a name is looked up. -/
def Sound (M : Dict (Ty × String) Ty) (result : Option Ty) (good : α → Prop)
    (m : Recorded Visit α) : Prop :=
  ∀ σ, σ.Accepted M → Blameless (m σ).2 → Ended M result good (m σ)

namespace Sound

variable {result : Option Ty} {good : α → Prop} {good' : β → Prop}

theorem imp {good₂ : α → Prop} {m : Recorded Visit α} (hm : Sound M result good m)
    (h : ∀ a, good a → good₂ a) : Sound M result good₂ m := fun σ hσ hb =>
  have he := hm σ hσ hb
  ⟨he.store, fun a ha => h a (he.value a ha), he.returned, he.visits⟩

theorem returning {m : Recorded Visit α} (hm : Sound M none good m) (result : Option Ty) :
    Sound M result good m := by
  intro σ hσ hb
  have he := hm σ hσ hb
  refine ⟨he.store, he.value, fun v hv => ?_, he.visits⟩
  obtain ⟨t, ht, -⟩ := he.returned v hv
  cases ht

theorem pure {a : α} (ha : good a) : Sound M result good (Pure.pure a) := by
  intro σ hσ _
  refine ⟨hσ, fun b hb => ?_, fun v hv => ?_, nofun⟩
  · cases hb
    exact ha
  · cases hv

theorem exit {e : Exit} (he : ∀ v, e = .returned v → ∃ t, result = some t ∧ v.Is M t) :
    Sound M result good (Recorded.lift (Eval.exit e)) := by
  intro σ hσ _
  refine ⟨hσ, fun b hb => ?_, fun v hv => he v (Except.error.inj hv), nofun⟩
  cases hb

theorem fail (e : EvalError) : Sound M result good (Recorded.lift (Eval.fail e)) := exit nofun

theorem outOfFuel : Sound M result good (Recorded.lift (Eval.exit .outOfFuel)) := exit nofun

theorem lift {m : Eval α} (h : ∀ σ, σ.Accepted M → ∀ r τ, m σ = (r, τ) → τ.Accepted M ∧
    (∀ a, r = .ok a → good a) ∧ ∀ v, r ≠ .error (.returned v)) :
    Sound M result good (Recorded.lift m) := by
  intro σ hσ _
  obtain ⟨hτ, hgood, hreturned⟩ := h σ hσ _ _ rfl
  exact ⟨hτ, hgood, fun v hv => absurd hv (hreturned v), nofun⟩

theorem modify {f : Store → Store} (hf : ∀ σ, σ.Accepted M → (f σ).Accepted M) :
    Sound M result (fun _ => True) (Recorded.lift (Eval.modify f)) := by
  refine .lift fun σ hσ r τ hm => ?_
  cases hm
  exact ⟨hf σ hσ, fun _ _ => trivial, fun _ => nofun⟩

theorem gets {f : Store → β} {g : β → Eval α}
    (h : ∀ σ, σ.Accepted M → Sound M result good (Recorded.lift (g (f σ)))) :
    Sound M result good (Recorded.lift (Eval.gets f >>= g)) := fun σ hσ hb => h σ hσ σ hσ hb

theorem bind {m : Recorded Visit α} {f : α → Recorded Visit β} (hm : Sound M result good m)
    (hf : ∀ a, good a → Sound M result good' (f a)) : Sound M result good' (m >>= f) := by
  intro σ hσ hb
  rw [Recorded.bind_apply] at hb ⊢
  have he := hm σ hσ
  rcases hx : m σ with ⟨⟨e | a, τ⟩, vs⟩ <;> rw [hx] at he hb
  · have he := he hb
    exact ⟨he.store, fun _ => nofun, fun v hv => he.returned v (congrArg _ (Except.error.inj hv)),
      he.visits⟩
  · have he := he fun w hw => hb w (List.mem_append_left _ hw)
    have he' := hf a (he.value a rfl) τ he.store fun w hw => hb w (List.mem_append_right _ hw)
    exact ⟨he'.store, he'.value, he'.returned, fun w hw =>
      (List.mem_append.1 hw).elim (he.visits w) (he'.visits w)⟩

theorem seq {m : Recorded Visit α} {f : α → Recorded Visit β} (hm : Sound M none good m)
    (hf : ∀ a, good a → Sound M result good' (f a)) : Sound M result good' (m >>= f) :=
  (hm.returning result).bind hf

theorem map {m : Recorded Visit α} (hm : Sound M result good m) {g : α → β}
    (hg : ∀ a, good a → good' (g a)) : Sound M result good' (m >>= fun a => Pure.pure (g a)) :=
  hm.bind fun a ha => .pure (hg a ha)

theorem onExpr {m : Recorded Visit Value} {roots : Roots} {e : Expr} {good : Value → Prop}
    (hm : Sound M result good m)
    (hgood : ∀ v, good v → (e.looksUp = true → Visit.Fits ⟨e, v⟩) → v.Is M e.ty) :
    Sound M result (fun v => v.Is M e.ty) ((observer .standard).onExpr roots e m) := by
  intro σ hσ hb
  have he := hm σ hσ
  rw [onExpr_apply] at hb ⊢
  rcases hx : m σ with ⟨⟨x | v, τ⟩, vs⟩ <;> rw [hx] at he hb
  · have he := he hb
    exact ⟨he.store, (fun _ h => by cases h), he.returned, he.visits⟩
  · have he := he fun w hw => hb w (List.mem_append_left _ hw)
    have hv : v.Is M e.ty :=
      hgood v (he.value v rfl) (hb _ (List.mem_append_right _ List.mem_cons_self))
    refine ⟨he.store, fun a ha => ?_, (fun _ h => by cases h), fun w hw => ?_⟩
    · cases ha
      exact hv
    · obtain hw | hw := List.mem_append.1 hw
      · exact he.visits w hw
      · cases List.mem_singleton.1 hw
        exact hv.eq_null_or_ty

theorem onStmt {m : Recorded Visit Value} {roots : Roots} {c : Stmt} {good : Value → Prop}
    (hm : Sound M result good m) :
    Sound M result good ((observer .standard).onStmt roots c m) := by
  rwa [onStmt_eq]

theorem inScope {good : Value → Prop} {run : Slot → Recorded Visit Value}
    (hrun : ∀ p, Sound M result good (run p)) (roots during : Roots) (parent : Slot) :
    Sound M result good ((observer .standard).inScope roots during parent run) := by
  intro σ hσ hb
  rw [inScope_apply] at hb ⊢
  have he := hrun _ _ (hσ.openScope parent) hb
  exact ⟨he.store.retains (.close ..), he.value, he.returned, he.visits⟩

theorem attempt {m : Recorded Visit α} (hm : Sound M result good m) : Sound M none (fun r =>
    (∀ a, r = .ok a → good a) ∧ ∀ v, r = .error (.returned v) → ∃ t, result = some t ∧ v.Is M t)
    m.attempt := by
  intro σ hσ hb
  have he := hm σ hσ hb
  refine ⟨he.store, fun r hr => ?_, fun _ => nofun, he.visits⟩
  cases hr
  exact ⟨he.value, he.returned⟩

theorem ofBody {m : Recorded Visit Value} {t : Ty} (hm : Sound M (some t) (fun _ => t = .void) m) :
    Sound M none (fun v => v.Is M t)
      ((observer .standard).attempt m >>= (observer .standard).ofBody) := by
  refine hm.attempt.bind fun r ⟨hok, hreturned⟩ => ?_
  rcases r with (v | e | _) | v
  · obtain ⟨u, hu, hv⟩ := hreturned v rfl
    cases hu
    exact .pure hv
  · exact .exit nofun
  · exact .exit nofun
  · rw [hok v rfl]
    exact .pure .void

theorem value {good₂ : α → Prop} {m : Recorded Visit α} (hm : Sound M result good m)
    (h : ∀ σ a, (m.erase σ).1 = .ok a → good₂ a) : Sound M result good₂ m := fun σ hσ hb =>
  have he := hm σ hσ hb
  ⟨he.store, h σ, he.returned, he.visits⟩

end Sound

end Traced

namespace Eval

open Traced (Sound)

section steps

variable {result : Option Ty} {t u : Ty} {v w : Value}

theorem updateCells_sound {f : Cells → Value × Cells} (h : ∀ cells, (f cells).1.Is M t) :
    Sound M result (fun v => v.Is M t) (Recorded.lift (updateCells f)) := by
  refine .lift fun σ hσ r τ hm => ?_
  cases hm
  refine ⟨hσ.retains (.withCells ..), fun a ha => ?_, fun _ => nofun⟩
  cases ha
  exact h σ.cells

theorem ofScalar_sound {x : Except EvalError Scalar} (hx : ∀ y, x = .ok y → y.ty = t) :
    Sound M result (fun v => v.Is M t) (Recorded.lift (ofScalar x)) := by
  cases x with
  | error e => exact .fail e
  | ok y =>
    rw [ofScalar, ← hx y rfl]
    exact updateCells_sound fun cells => .alloc cells y

theorem unary_sound {op : UnaryOp} (hv : v.Is M t) (ht : op.resultTy? t = some u) :
    Sound M result (fun v => v.Is M u) (Recorded.lift (unary op v)) := by
  refine .gets fun σ _ => ofScalar_sound fun x hx => ?_
  exact Value.ty_unary hv.eq_null_or_ty ht hx

theorem binary_sound {op : BinaryOp} {l r : Ty} (hv : v.Is M l) (hw : w.Is M r)
    (hn : op.isUniversal = true ∨ l.isNever = false ∧ r.isNever = false)
    (ht : op.resultTy? l r = some t) :
    Sound M result (fun v => v.Is M t) (Recorded.lift (binary op v w)) := by
  refine .gets fun σ _ => ofScalar_sound fun x hx => ?_
  exact Value.ty_binary hv.eq_null_or_ty hw.eq_null_or_ty hn ht hx

theorem truthy_sound (v : Value) : Sound M result (fun _ => True) (Recorded.lift (truthy v)) := by
  refine .lift fun σ hσ r τ hm => ?_
  cases hm
  exact ⟨hσ, fun _ _ => trivial, fun _ => nofun⟩

theorem lookup_sound (s : Slot) (x : String) :
    Sound M result (fun v => ∃ t, v.Is M t) (Recorded.lift (lookup s x)) := by
  refine .gets fun σ hσ => ?_
  cases hv : σ.lookup? s x with
  | none => exact .fail _
  | some v => exact .pure (a := v) (hσ.lookup? hv)

theorem assign_sound (s : Slot) (x : String) (hv : v.Is M t) :
    Sound M result (fun v => v.Is M t) (Recorded.lift (assign s x v)) := by
  refine .gets fun σ _ => ?_
  cases σ.binder? s x with
  | none => exact .fail _
  | some found =>
    dsimp only
    rw [Recorded.lift_bind]
    exact .map (.modify fun σ hσ => hσ.bind hv found x) fun _ _ => hv

theorem step_sound (hv : v.Is M t) (op : StepOp) (before : Bool) (x : String) :
    Sound M result (fun v => v.Is M t) (Recorded.lift (step op before x v)) := by
  cases hv with
  | integer =>
    rw [step]
    refine updateCells_sound fun cells => ?_
    cases before <;> exact .integer
  | float =>
    rw [step]
    refine updateCells_sound fun cells => ?_
    cases before <;> exact .float
  | _ => exact .fail _

theorem member_sound (hv : v.Is M t) {m : String} (hm : M.get? (t, m) = some u) :
    Sound M result (fun v => v.Is M u) (Recorded.lift (member v t m)) := by
  refine .lift fun σ hσ r τ hrun => ?_
  cases hget : σ.members.get? (t, m) with
  | none =>
    simp only [member, Store.member?, hget] at hrun
    cases hrun
    exact ⟨hσ, (fun _ h => by cases h), fun _ h => by cases h⟩
  | some found =>
    obtain ⟨u', hu', hfound⟩ := hσ.members hget
    rw [hm] at hu'
    cases hu'
    cases hfound with
    | @field w _ hw =>
      simp only [member, Store.member?, hget] at hrun
      cases hrun
      refine ⟨hσ, fun a ha => ?_, fun _ h => by cases h⟩
      cases ha
      exact hw
    | @method f r bs hf hbs =>
      obtain ⟨Γ, Δ, hf⟩ := hf
      simp only [member, Store.member?, hget] at hrun
      cases hrun
      refine ⟨hσ.retains (.withFresh σ), fun a ha => ?_, fun _ h => by cases h⟩
      cases ha
      exact .bound (f := { f with id := σ.fresh }) hv ⟨Γ, Δ, { hf with }⟩ hbs

theorem defineValue_sound (s : Slot) {receiver : Option Ty} {x : String} (hv : v.Is M t)
    (hm : ∀ r ∈ receiver, M.get? (r, x) = some t) :
    Sound M result (fun _ => True) (Recorded.lift (defineValue s receiver x v)) := by
  cases receiver with
  | some r => exact .modify fun σ hσ => hσ.insertMember (hm r rfl) (.field hv)
  | none => exact .modify fun σ hσ => hσ.bind hv s x

theorem defineFunction_sound (s : Slot) {heading : Heading} {body : Block}
    {Γ Γ₁ Γ₂ Γ₃ : Context} (hc : Stmt.FuncChecks heading body Γ Γ₁ Γ₂ Γ₃) (hm : Γ₃.MembersIn M) :
    Sound M result (fun _ => True) (Recorded.lift (defineFunction s heading body)) := by
  have hnew : Sound M result (fun f => ∃ id home,
      f = (⟨id, heading.boundNames, body, home, heading.signature⟩ : Closure))
      (Recorded.lift (update (·.newClosure heading.boundNames body heading.signature s))) := by
    refine .lift fun σ hσ r τ hrun => ?_
    obtain ⟨id, home, υ, hnew, hr⟩ :=
      Store.newClosure_eq σ heading.boundNames body heading.signature s
    rw [update_apply, hnew] at hrun
    cases hrun
    refine ⟨hσ.retains hr, fun f hf => ?_, fun _ => nofun⟩
    cases hf
    exact ⟨id, home, rfl⟩
  have htypes := hc.types
  rw [defineFunction, Recorded.lift_bind]
  refine hnew.bind fun f hf => ?_
  obtain ⟨id, home, rfl⟩ := hf
  have haccepted := Closure.Accepted.of_checks hc hm id home
  cases hr : heading.receiver with
  | none =>
    rw [hr] at htypes
    exact .modify fun σ hσ => hσ.bind (.function ⟨_, _, haccepted⟩ htypes) s heading.name
  | some r =>
    rw [hr] at htypes
    exact .modify fun σ hσ => hσ.insertMember (hc.member hm r hr) (.method ⟨_, _, haccepted⟩ htypes)

theorem defineAll_sound (s : Slot) {vs : List Value} {bs : List (String × Ty)}
    (hvs : List.Forall₂ (fun v b => v.Is M b.2) vs bs) :
    Sound M result (fun _ => True) (Recorded.lift (defineAll s ((bs.map Prod.fst).zip vs))) := by
  induction hvs with
  | nil => exact .pure trivial
  | @cons v b vs bs hv _ ih =>
    rw [List.map_cons, List.zip_cons_cons, defineAll, Recorded.lift_bind]
    exact .bind (.modify fun σ hσ => hσ.bind hv s b.1) fun _ _ => ih

end steps

section returns

variable (R : Reclaimer)

theorem inScope_fst (roots : Roots) (parent : Slot) (run : Slot → Eval Value) (σ : Store) :
    (inScope R roots parent run σ).1 = (run (σ.openScope parent).1 (σ.openScope parent).2).1 := by
  simp [inScope]

theorem of_bind_ok {α β : Type} {m : Eval α} {f : α → Eval β} {σ : Store} {b : β}
    (h : ((m >>= f) σ).1 = .ok b) : ∃ a τ, m σ = (.ok a, τ) ∧ (f a τ).1 = .ok b := by
  rw [bind_apply] at h
  rcases hx : m σ with ⟨_ | a, τ⟩ <;> rw [hx] at h
  · cases h
  · exact ⟨a, τ, rfl, h⟩

mutual
theorem stmt_ne_ok : ∀ {c : Stmt}, c.alwaysReturns = true → ∀ n r s σ v,
    (stmt R n r s c σ).1 ≠ .ok v
  | c, hc, 0, r, s, σ, v => nofun
  | .ret e span, hc, n + 1, r, s, σ, v => by
    intro h
    simp only [stmt] at h
    obtain ⟨a, τ, -, h⟩ := of_bind_ok h
    cases h
  | .block b, hc, n + 1, r, s, σ, v => by
    simp only [stmt]
    exact block_ne_ok hc n r s σ v
  | .cond c yes (some no) span, hc, n + 1, r, s, σ, v => by
    intro h
    rw [Stmt.alwaysReturns, Bool.and_eq_true] at hc
    simp only [stmt] at h
    obtain ⟨a, τ, -, h⟩ := of_bind_ok h
    obtain ⟨holds, τ', -, h⟩ := of_bind_ok h
    split at h
    · exact branch_ne_ok hc.1 n r s τ' v h
    · exact branch_ne_ok hc.2 n r s τ' v h

theorem branch_ne_ok : ∀ {c : Stmt}, c.alwaysReturns = true → ∀ n r s σ v,
    (branch R n r s c σ).1 ≠ .ok v
  | c, hc, 0, r, s, σ, v => nofun
  | c, hc, n + 1, r, s, σ, v => by
    intro h
    simp only [branch] at h
    obtain ⟨a, τ, hrun, -⟩ := of_bind_ok h
    have := congrArg Prod.fst hrun
    rw [inScope_fst] at this
    exact stmt_ne_ok hc n r _ _ a this

theorem block_ne_ok : ∀ {b : Block}, b.alwaysReturns = true → ∀ n r s σ v,
    (block R n r s b σ).1 ≠ .ok v
  | b, hb, 0, r, s, σ, v => nofun
  | .mk ss span, hb, n + 1, r, s, σ, v => by
    simp only [block]
    rw [inScope_fst]
    exact statements_ne_ok hb n r _ _ v

theorem statements_ne_ok : ∀ {cs : List Stmt}, Stmt.someReturns cs = true → ∀ n r s σ v,
    (statements R n r s cs σ).1 ≠ .ok v
  | cs, hcs, 0, r, s, σ, v => nofun
  | c :: cs, hcs, n + 1, r, s, σ, v => by
    intro h
    rw [Stmt.someReturns, Bool.or_eq_true] at hcs
    simp only [statements] at h
    obtain ⟨a, τ, hrun, h⟩ := of_bind_ok h
    obtain hc | hcs := hcs
    · exact stmt_ne_ok hc n r s σ a (congrArg Prod.fst hrun)
    · exact statements_ne_ok hcs n r s τ v h
end

end returns

structure SoundWith (M : Dict (Ty × String) Ty) (n : Nat) : Prop where
  expr : ∀ r s {Γ : Context} {e}, Expr.checks Γ e = true → Γ.MembersIn M →
    Sound M none (fun v => v.Is M e.ty) ((Traced.observer .standard).expr n r s e)
  logical : ∀ r s op {Γ : Context} {a b}, Expr.checks Γ a = true → Expr.checks Γ b = true →
    Γ.MembersIn M →
    Sound M none (fun v => v.Is M .bool) ((Traced.observer .standard).logical n r s op a b)
  arguments : ∀ r s {Γ : Context} {es}, Expr.checksAll Γ es = true → Γ.MembersIn M →
    Sound M none (fun vs => List.Forall₂ (fun v e => v.Is M e.ty) vs es)
      ((Traced.observer .standard).arguments n r s es)
  call : ∀ r {f bs Γ Δ vs}, Closure.Accepted M f bs Γ Δ →
    List.Forall₂ (fun v b => v.Is M b.2) vs bs →
    Sound M none (fun v => v.Is M f.signature.result) ((Traced.observer .standard).call n r f vs)
  stmt : ∀ r s {Γ Δ c}, Stmt.check Γ c = some Δ → Δ.MembersIn M →
    Sound M Γ.returning? (fun _ => True) ((Traced.observer .standard).stmt n r s c)
  loop : ∀ r s {Γ Δ : Context} {e c}, Expr.checks Γ e = true → Stmt.check Γ.enter c = some Δ →
    Δ.MembersIn M → Sound M Γ.returning? (fun _ => True)
      ((Traced.observer .standard).loop n r s e c)
  statements : ∀ r s {Γ Δ cs}, Stmt.checkList Γ cs = some Δ → Δ.MembersIn M →
    Sound M Γ.returning? (fun _ => True) ((Traced.observer .standard).statements n r s cs)
  block : ∀ r s {Γ Δ b}, Block.check Γ b = some Δ → Δ.MembersIn M →
    Sound M Γ.returning? (fun _ => True) ((Traced.observer .standard).block n r s b)
  branch : ∀ r s {Γ Δ : Context} {c}, Stmt.check Γ.enter c = some Δ → Δ.MembersIn M →
    Sound M Γ.returning? (fun _ => True) ((Traced.observer .standard).branch n r s c)

namespace SoundWith

variable {n : Nat} {Γ Δ : Context}

theorem zero : SoundWith M 0 := by
  constructor <;> intros <;> exact .outOfFuel

theorem call_case (h : SoundWith M n) (r : Roots) (s : Slot) {a : Ann} {f : Expr}
    {args : List Expr} (hc : (Expr.call a f args).checks Γ = true) (hΓ : Γ.MembersIn M) :
    Sound M none (fun v => v.Is M a.ty) (do
      let callee ← (Traced.observer .standard).expr n r s f
      match callee.asFunction? with
      | none => Recorded.lift (fail (.notCallable callee.ty))
      | some (closure, receiver) =>
        let values ← (Traced.observer .standard).arguments n (r.hold callee) s args
        (Traced.observer .standard).call n (r.hold callee) closure
          (receiver.toList ++ values)) := by
  obtain ⟨hf, hargs, ps, hps, haccepts⟩ := Expr.checks_call.1 hc
  refine (h.expr r s hf hΓ).seq fun v hv => ?_
  rw [hps] at hv
  cases hcallee : v.asFunction? with
  | none => exact .fail _
  | some c =>
    obtain ⟨g, receiver⟩ := c
    refine (h.arguments _ s hargs hΓ).seq fun vs hvs => ?_
    obtain ⟨bs, ⟨Γ', Δ', hg⟩, hresult, hall⟩ := hv.passes hcallee hvs haccepts
    rw [← hresult]
    exact h.call _ hg hall

theorem expr_succ (h : SoundWith M n) (r : Roots) (s : Slot) {e : Expr}
    (hc : e.checks Γ = true) (hΓ : Γ.MembersIn M) :
    Sound M none (fun v => v.Is M e.ty) ((Traced.observer .standard).expr (n + 1) r s e) := by
  have found : ∀ (v : Value) (t : Ty), (∃ u, v.Is M u) → (v = .null ∨ v.ty = t) → v.Is M t :=
    fun v t ⟨u, hu⟩ ht => hu.of_ty ht
  cases e <;> simp only [Observer.expr]
  case name a x =>
    exact (lookup_sound s x).onExpr fun v hv hfits => found v a.ty hv (hfits rfl)
  case step a op before x =>
    have hstep : Sound M none (fun v => ∃ t, v.Is M t) (do
        let target ← Recorded.lift (lookup s x)
        Recorded.lift (step op before x target)) :=
      (lookup_sound s x).bind fun v ⟨t, hv⟩ => (step_sound hv op before x).imp fun w hw => ⟨t, hw⟩
    rw [Traced.act_eq, Recorded.lift_step]
    exact hstep.onExpr fun v hv hfits => found v a.ty hv (hfits rfl)
  all_goals refine Sound.onExpr ?_ fun _ hv _ => hv
  case literal a v =>
    have ht : (Expr.literal a v).ty = v.ty := Expr.checks_literal.1 hc
    rw [ht]
    exact updateCells_sound fun cells => .literal cells v
  case unary a op e =>
    obtain ⟨he, ht⟩ := Expr.checks_unary.1 hc
    exact (h.expr r s he hΓ).seq fun v hv => unary_sound hv ht
  case binary a op x y =>
    obtain ⟨hx, hy, hn, ht⟩ := Expr.checks_binary.1 hc
    split
    · rename_i hop
      have hty : (Expr.binary a op x y).ty = .bool := by
        cases op with
        | and | or => exact (Option.some.inj ht).symm
        | _ => cases hop
      rw [hty]
      exact h.logical r s op hx hy hΓ
    · refine (h.expr r s hx hΓ).seq fun v hv => (h.expr _ s hy hΓ).seq fun w hw => ?_
      exact binary_sound hv hw hn ht
  case call a f args => exact h.call_case r s hc hΓ
  case assign a x e =>
    obtain ⟨-, he, hassign⟩ := Expr.checks_assign.1 hc
    exact (h.expr r s he hΓ).seq fun v hv => assign_sound s x (hv.of_assignable hassign)
  case member a e m =>
    obtain ⟨he, hn, ht⟩ := Expr.checks_member.1 hc
    refine (h.expr r s he hΓ).seq fun v hv => ?_
    rw [memberTy, if_neg (Bool.eq_false_iff.1 hn)]
    exact member_sound hv (hΓ _ _ ht)

theorem logical_succ (h : SoundWith M n) (r : Roots) (s : Slot) (op : BinaryOp) {a b : Expr}
    (ha : a.checks Γ = true) (hb : b.checks Γ = true) (hΓ : Γ.MembersIn M) :
    Sound M none (fun v => v.Is M .bool)
      ((Traced.observer .standard).logical (n + 1) r s op a b) := by
  rw [Observer.logical]
  refine (h.expr r s ha hΓ).seq fun v _ => (truthy_sound v).seq fun decided _ => ?_
  split
  · exact .pure .boolean
  · exact (h.expr r s hb hΓ).seq fun w _ => (truthy_sound w).map fun _ _ => .boolean

theorem arguments_succ (h : SoundWith M n) (r : Roots) (s : Slot) {es : List Expr}
    (hc : Expr.checksAll Γ es = true) (hΓ : Γ.MembersIn M) :
    Sound M none (fun vs => List.Forall₂ (fun v e => v.Is M e.ty) vs es)
      ((Traced.observer .standard).arguments (n + 1) r s es) := by
  cases es with
  | nil =>
    rw [Observer.arguments]
    exact .pure .nil
  | cons e es =>
    rw [Expr.checksAll, Bool.and_eq_true] at hc
    rw [Observer.arguments]
    refine (h.expr r s hc.1 hΓ).seq fun v hv => ?_
    exact (h.arguments _ s hc.2 hΓ).map fun vs hvs => .cons hv hvs

theorem call_succ (h : SoundWith M n) (r : Roots) {f : Closure} {bs : List (String × Ty)}
    {vs : List Value} (hf : f.Accepted M bs Γ Δ)
    (hvs : List.Forall₂ (fun v b => v.Is M b.2) vs bs) :
    Sound M none (fun v => v.Is M f.signature.result)
      ((Traced.observer .standard).call (n + 1) r f vs) := by
  rw [Observer.call]
  split
  · have hbody : Sound M (some f.signature.result) (fun _ => True)
        ((Traced.observer .standard).inScope r (r.plus vs) f.home.slot fun p => do
          (Traced.observer .standard).defineAll (r.plus vs) p (f.parameters.zip vs)
          (Traced.observer .standard).block n r p f.body) := by
      rw [← hf.returning, hf.parameters]
      refine .inScope (fun p => ?_) r (r.plus vs) f.home.slot
      rw [Traced.defineAll_eq]
      exact (defineAll_sound p hvs).seq fun _ _ => h.block r p hf.body hf.members
    refine .ofBody (hbody.value fun σ w hw => hf.returns.resolve_right fun hreturns => ?_)
    rw [Traced.erase_inScope, inScope_fst, Recorded.erase_bind] at hw
    obtain ⟨_, τ, -, hw⟩ := of_bind_ok hw
    rw [(Traced.recorder.erases .standard n).block] at hw
    exact block_ne_ok .standard hreturns n r _ τ w hw
  · exact .fail _

theorem cond_case (h : SoundWith M n) (r : Roots) (s : Slot) {e : Expr} {yes : Stmt}
    {no : Option Stmt} {span : Span} (hc : (Stmt.cond e yes no span).check Γ = some Δ)
    (hΔ : Δ.MembersIn M) : Sound M Γ.returning? (fun _ => True) (do
      let v ← (Traced.observer .standard).expr n r s e
      let holds ← (Traced.observer .standard).truthy v
      if holds then (Traced.observer .standard).branch n r s yes
      else match no with
        | some no => (Traced.observer .standard).branch n r s no
        | none => return .void) := by
  obtain ⟨he, Γ₁, hyes, hno⟩ := Stmt.check_cond_eq_some hc
  have hΓ := (Stmt.check_grows hc).membersIn hΔ
  have hgrows : Γ.Grows [] Γ₁.leave := (Stmt.check_grows hyes).leave rfl rfl
  have hΓ₁ := (Stmt.checkOption_grows hno).membersIn hΔ
  refine (h.expr r s he hΓ).seq fun v _ => (truthy_sound v).seq fun holds _ => ?_
  split
  · exact h.branch r s hyes hΓ₁.of_leave
  · cases no with
    | none => exact .pure trivial
    | some no =>
      obtain ⟨Γ₂, hno', rfl⟩ := Option.map_eq_some_iff.1 hno
      rw [show Γ.returning? = Γ₁.leave.returning? from hgrows.returns.symm]
      exact h.branch r s hno' hΔ.of_leave

theorem stmt_succ (h : SoundWith M n) (r : Roots) (s : Slot) {c : Stmt}
    (hc : c.check Γ = some Δ) (hΔ : Δ.MembersIn M) :
    Sound M Γ.returning? (fun _ => True) ((Traced.observer .standard).stmt (n + 1) r s c) := by
  have hΓ : Γ.MembersIn M := (Stmt.check_grows hc).membersIn hΔ
  refine Sound.onStmt ?_
  cases c with
  | define x ty e receiver span =>
    obtain ⟨he, hassign, -, -, hd⟩ := Stmt.check_define_eq_some hc
    have hmember : ∀ t ∈ receiver, M.get? (t, x) = some ty := by
      intro t ht
      cases ht
      exact hΔ _ _ (Context.member_of_declare? hd)
    refine (h.expr r s he hΓ).seq fun v hv => ?_
    rw [Traced.act_eq, Recorded.lift_define]
    exact (defineValue_sound s (hv.of_assignable hassign) hmember).map fun _ _ => trivial
  | ret e span =>
    obtain ⟨-, he, t, ht, hassign⟩ := Stmt.check_ret_eq_some hc
    refine (h.expr r s he hΓ).seq fun v hv => .exit fun w hw => ⟨t, ht, ?_⟩
    cases hw
    exact hv.of_assignable hassign
  | func heading body span =>
    obtain ⟨Γ₁, Γ₂, Γ₃, hf, rfl⟩ := Stmt.check_func_eq_some hc
    dsimp only
    rw [Traced.act_eq, Recorded.lift_func]
    exact (defineFunction_sound s hf hΔ.of_leave).map fun _ _ => trivial
  | block b =>
    rw [Stmt.check] at hc
    exact h.block r s hc hΔ
  | cond e yes no span => exact h.cond_case r s hc hΔ
  | loop e body span =>
    obtain ⟨he, Γ₁, hbody, rfl⟩ := Stmt.check_loop_eq_some hc
    exact h.loop r s he hbody hΔ.of_leave
  | expr e span =>
    obtain ⟨rfl, he⟩ := Stmt.check_expr_eq_some hc
    exact ((h.expr r s he hΓ).returning _).imp fun _ _ => trivial
  | typeDecl name span =>
    exact .pure trivial

theorem loop_succ (h : SoundWith M n) (r : Roots) (s : Slot) {e : Expr} {c : Stmt}
    (he : e.checks Γ = true) (hc : c.check Γ.enter = some Δ) (hΔ : Δ.MembersIn M) :
    Sound M Γ.returning? (fun _ => True) ((Traced.observer .standard).loop (n + 1) r s e c) := by
  have hΓ : Γ.MembersIn M := (Stmt.check_grows hc).membersIn hΔ
  rw [Observer.loop]
  refine (h.expr r s he hΓ).seq fun v _ => (truthy_sound v).seq fun holds _ => ?_
  split
  · exact (h.branch r s hc hΔ).bind fun _ _ => h.loop r s he hc hΔ
  · exact .pure trivial

theorem statements_succ (h : SoundWith M n) (r : Roots) (s : Slot) {cs : List Stmt}
    (hcs : Stmt.checkList Γ cs = some Δ) (hΔ : Δ.MembersIn M) :
    Sound M Γ.returning? (fun _ => True)
      ((Traced.observer .standard).statements (n + 1) r s cs) := by
  cases cs with
  | nil =>
    rw [Observer.statements]
    exact .pure trivial
  | cons c cs =>
    obtain ⟨Γ₁, hc, hcs⟩ := Stmt.checkList_cons_eq_some hcs
    rw [Observer.statements]
    refine (h.stmt r s hc ((Stmt.checkList_grows hcs).membersIn hΔ)).bind fun _ _ => ?_
    rw [show Γ.returning? = Γ₁.returning? from (Stmt.check_grows hc).returns.symm]
    exact h.statements r s hcs hΔ

theorem succ (h : SoundWith M n) : SoundWith M (n + 1) where
  expr r s _ _ hc hΓ := h.expr_succ r s hc hΓ
  logical r s op _ _ _ ha hb hΓ := h.logical_succ r s op ha hb hΓ
  arguments r s _ _ hc hΓ := h.arguments_succ r s hc hΓ
  call r _ _ _ _ _ hf hvs := h.call_succ r hf hvs
  stmt r s _ _ _ hc hΔ := h.stmt_succ r s hc hΔ
  loop r s _ _ _ _ he hc hΔ := h.loop_succ r s he hc hΔ
  statements r s _ _ _ hcs hΔ := h.statements_succ r s hcs hΔ
  block r s Γ _ b hb hΔ := by
    obtain ⟨cs, span⟩ := b
    obtain ⟨Γ₁, hcs, rfl⟩ := Block.check_eq_some hb
    rw [Observer.block, show Γ.returning? = Γ.enter.returning? from rfl]
    exact .inScope (fun p => h.statements r p hcs hΔ.of_leave) r r s
  branch r s Γ _ _ hc hΔ := by
    rw [Observer.branch, show Γ.returning? = Γ.enter.returning? from rfl]
    exact (Sound.inScope (fun p => h.stmt r p hc hΔ) r r s).map fun _ _ => trivial

theorem all (M : Dict (Ty × String) Ty) (n : Nat) : SoundWith M n := by
  induction n with
  | zero => exact zero
  | succ n ih => exact ih.succ

end SoundWith

theorem evaluateFrom_sound (n : Nat) (r : Roots) (v : Value) {Γ Δ : Context} {cs : List Stmt}
    (hcs : Stmt.checkList Γ cs = some Δ) (hΔ : Δ.MembersIn M) :
    Sound M none (fun _ => True) ((Traced.observer .standard).evaluateFrom n r v cs) := by
  induction cs generalizing v Γ with
  | nil => exact .pure trivial
  | cons c cs ih =>
    obtain ⟨Γ₁, hc, hcs⟩ := Stmt.checkList_cons_eq_some hcs
    have hstmt := (SoundWith.all M n).stmt (r.hold v) Store.global hc
      ((Stmt.checkList_grows hcs).membersIn hΔ)
    rw [Observer.evaluateFrom]
    refine hstmt.attempt.bind fun x _ => ?_
    rcases x with (u | e | _) | u
    · exact .pure trivial
    · exact .fail e
    · exact .outOfFuel
    · exact ih u hcs

end Eval

end TypedScript
