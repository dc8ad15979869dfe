import Mathlib.Data.List.Forall2
import TypedScript.Proofs.Static.Uses
import TypedScript.Proofs.Value.Operator
import TypedScript.Store.Basic

namespace TypedScript

def Context.MembersIn (Γ : Context) (M : Dict (Ty × String) Ty) : Prop :=
  ∀ k t, Γ.members.get? k = some t → M.get? k = some t

theorem Context.Grows.membersIn {Γ Δ : Context} {ds : List (String × Ty)}
    {M : Dict (Ty × String) Ty} (h : Γ.Grows ds Δ) (hΔ : Δ.MembersIn M) : Γ.MembersIn M :=
  fun _ _ hk => hΔ _ _ (h.members hk)

theorem Context.MembersIn.of_leave {Γ : Context} {M : Dict (Ty × String) Ty}
    (h : Γ.leave.MembersIn M) : Γ.MembersIn M := by
  have hleave : Γ.leave.members = Γ.members := by
    rw [Context.leave]
    split <;> rfl
  intro k t hk
  exact h k t (hleave ▸ hk)

structure Closure.Accepted (M : Dict (Ty × String) Ty) (f : Closure) (bs : List (String × Ty))
    (Γ Δ : Context) : Prop where
  parameters : f.parameters = bs.map Prod.fst
  body : f.body.check Γ = some Δ
  members : Δ.MembersIn M
  returning : Γ.returning? = some f.signature.result
  returns : f.signature.result = .void ∨ f.body.alwaysReturns = true

theorem Closure.Accepted.of_checks {M : Dict (Ty × String) Ty} {h : Heading} {body : Block}
    {Γ Γ₁ Γ₂ Γ₃ : Context} (hc : Stmt.FuncChecks h body Γ Γ₁ Γ₂ Γ₃) (hm : Γ₃.MembersIn M) (id : Nat)
    (home : Handle) :
    Closure.Accepted M ⟨id, h.boundNames, body, home, h.signature⟩ h.bindings Γ₂ Γ₃ :=
  ⟨rfl, hc.body, hm, (Context.Grows.bindAll? hc.bound).returns, hc.returns⟩

theorem Stmt.FuncChecks.member {M : Dict (Ty × String) Ty} {h : Heading} {body : Block}
    {Γ Γ₁ Γ₂ Γ₃ : Context} (hc : Stmt.FuncChecks h body Γ Γ₁ Γ₂ Γ₃) (hm : Γ₃.MembersIn M) :
    ∀ r ∈ h.receiver, M.get? (r, h.name) = some h.signature.toTy := by
  intro r hr
  have hbody := (Context.Grows.bindAll? hc.bound).trans (Block.check_grows hc.body)
  have hdeclared := hc.declared
  rw [Option.mem_def.1 hr] at hdeclared
  have hmember := Context.member_of_declare? hdeclared
  exact hbody.membersIn hm _ _ hmember

/-- The type of a value, where `known f bs` says that the function `f` takes the parameters
`bs`. -/
inductive Value.TypedBy (known : Closure → List (String × Ty) → Prop) : Value → Ty → Prop
  | null {t} : TypedBy known .null t
  | void : TypedBy known .void .void
  | integer {c} : TypedBy known (.integer c) .int
  | float {c} : TypedBy known (.float c) .float
  | string {s} : TypedBy known (.string s) .string
  | boolean {b} : TypedBy known (.boolean b) .bool
  | function {f bs} : known f bs → bs.map Prod.snd = f.signature.parameters →
    TypedBy known (.function f) f.signature.toTy
  | bound {f bs r t} : TypedBy known r t → known f bs →
    bs.map Prod.snd = t :: f.signature.parameters → TypedBy known (.bound f r) f.signature.toTy

inductive Member.TypedBy (known : Closure → List (String × Ty) → Prop) (t : Ty) : Member → Ty → Prop
  | field {v u} : v.TypedBy known u → TypedBy known t (.field v) u
  | method {f r bs} : known f bs → bs.map Prod.snd = t :: f.signature.parameters →
    TypedBy known t (.method f r) f.signature.toTy

variable {known known' : Closure → List (String × Ty) → Prop}

namespace Value.TypedBy

variable {v : Value} {t u : Ty}

theorem mono (h : ∀ f bs, known f bs → known' f bs) (hv : v.TypedBy known t) :
    v.TypedBy known' t := by
  induction hv with
  | null => exact .null
  | void => exact .void
  | integer => exact .integer
  | float => exact .float
  | string => exact .string
  | boolean => exact .boolean
  | function hf hbs => exact .function (h _ _ hf) hbs
  | bound _ hf hbs ih => exact .bound ih (h _ _ hf) hbs

theorem eq_null_or_ty (h : v.TypedBy known t) : v = .null ∨ v.ty = t := by
  cases h with
  | null => exact .inl rfl
  | _ => exact .inr rfl

theorem of_ty (h : v.TypedBy known t) (hu : v = .null ∨ v.ty = u) : v.TypedBy known u := by
  obtain rfl | rfl := hu
  · exact .null
  · obtain rfl | rfl := h.eq_null_or_ty
    · exact .null
    · exact h

theorem alloc (cells : Cells) (x : Scalar) : (cells.alloc x).1.TypedBy known x.ty := by
  cases x with
  | string => exact .string
  | integer => exact .integer
  | float => exact .float
  | boolean => exact .boolean

theorem literal (cells : Cells) (x : Literal) : (cells.literal x).1.TypedBy known x.ty := by
  cases x with
  | integer => exact .integer
  | float => exact .float
  | string => exact .string
  | boolean => exact .boolean
  | null => exact .null
  | void => exact .void

theorem of_assignable (h : v.TypedBy known t) (ha : t.assignable u = true) :
    v.TypedBy known u := by
  rw [Ty.assignable, Bool.or_eq_true, decide_eq_true_eq] at ha
  obtain hn | rfl := ha
  · cases t with
    | never =>
      cases h
      exact .null
    | _ => cases hn
  · exact h

theorem closure {ps : List Ty} {f : Closure} {r : Option Value} (h : v.TypedBy known (.func ps t))
    (hf : v.asFunction? = some (f, r)) :
    ∃ bs ts, known f bs ∧ f.signature.result = t ∧ bs.map Prod.snd = ts ++ ps ∧
      List.Forall₂ (fun v t => v.TypedBy known t) r.toList ts := by
  generalize hT : Ty.func ps t = T at h
  cases h with
  | @function g bs hg hbs =>
    cases hf
    obtain ⟨rfl, rfl⟩ := Ty.func.inj hT
    exact ⟨bs, [], hg, rfl, hbs, .nil⟩
  | @bound g bs receiver u hr hg hbs =>
    cases hf
    obtain ⟨rfl, rfl⟩ := Ty.func.inj hT
    exact ⟨bs, [u], hg, rfl, hbs, .cons hr .nil⟩
  | _ => cases hf

theorem forall₂_of_accepts {vs : List Value} {es : List Expr} {ps : List Ty}
    (h : List.Forall₂ (fun v e => v.TypedBy known e.ty) vs es)
    (ha : Ty.accepts ps (es.map Expr.ty) = true) :
    List.Forall₂ (fun v t => v.TypedBy known t) vs ps := by
  induction h generalizing ps with
  | nil =>
    cases ps with
    | nil => exact .nil
    | cons p ps => cases ha
  | @cons v e vs es hv hvs ih =>
    cases ps with
    | nil => cases ha
    | cons p ps =>
      rw [List.map_cons, Ty.accepts, Bool.and_eq_true] at ha
      exact .cons (hv.of_assignable ha.1) (ih ha.2)

theorem passes {ps : List Ty} {f : Closure} {r : Option Value} {vs : List Value} {es : List Expr}
    (h : v.TypedBy known (.func ps t)) (hf : v.asFunction? = some (f, r))
    (hvs : List.Forall₂ (fun v e => v.TypedBy known e.ty) vs es)
    (ha : Ty.accepts ps (es.map Expr.ty) = true) :
    ∃ bs, known f bs ∧ f.signature.result = t ∧
      List.Forall₂ (fun v b => v.TypedBy known b.2) (r.toList ++ vs) bs := by
  obtain ⟨bs, ts, hknown, hresult, hbs, hr⟩ := h.closure hf
  have hall : List.Forall₂ (fun v t => v.TypedBy known t) (r.toList ++ vs) (ts ++ ps) :=
    List.rel_append hr (forall₂_of_accepts hvs ha)
  rw [← hbs, List.forall₂_map_right_iff] at hall
  exact ⟨bs, hknown, hresult, hall⟩

end Value.TypedBy

theorem Member.TypedBy.mono {m : Member} {t u : Ty} (h : ∀ f bs, known f bs → known' f bs)
    (hm : m.TypedBy known t u) : m.TypedBy known' t u := by
  cases hm with
  | field hv => exact .field (hv.mono h)
  | method hf hbs => exact .method (h _ _ hf) hbs

end TypedScript
