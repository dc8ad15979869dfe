import TypedScript.Proofs.Static.ReadStmt

/-! Types found again from the tree alone. The rules are run on a tree whose types have been
forgotten; on a program that is read without a report they give back the types that the reader
found, and the context behind it. -/

namespace TypedScript

namespace Ty

def numeric? : Ty → Ty → Option Ty
  | int, int => some int
  | int, float | float, int | float, float => some float
  | _, _ => none

end Ty

def BinaryOp.ruleTy? (op : BinaryOp) (left right : Ty) : Option Ty :=
  match op with
  | equals | notEquals | and | or => some .bool
  | less | greater | lessEquals | greaterEquals => (Ty.numeric? left right).map fun _ => .bool
  | minus | multiply | divide => Ty.numeric? left right
  | plus =>
    if left.isNever || right.isNever then none
    else if left = .string ∨ right = .string then some .string
    else Ty.numeric? left right

theorem BinaryOp.ruleTy?_of_resultTy? {op : BinaryOp} {l r t : Ty}
    (hn : op.isUniversal = true ∨ l.isNever = false ∧ r.isNever = false)
    (h : op.resultTy? l r = some t) : op.ruleTy? l r = some t := by
  cases op with
  | equals | notEquals | and | or => exact h
  | _ =>
    obtain ⟨hl, hr⟩ := hn.resolve_left (by simp [isUniversal])
    cases l <;> cases r <;>
      simp_all [resultTy?, ruleTy?, Ty.numeric?, Ty.isNever, Ty.isNumeric, isUniversal,
        isComparison]

def Ann.untyped (a : Ann) : Ann := ⟨.never, a.span⟩

def Ann.withTy (a : Ann) (ty : Ty) : Ann := ⟨ty, a.span⟩

@[simp] theorem Ann.untyped_withTy (a : Ann) : a.untyped.withTy a.ty = a := rfl

namespace Expr

mutual
def untyped : Expr → Expr
  | name a x => name a.untyped x
  | literal a v => literal a.untyped v
  | unary a op e => unary a.untyped op e.untyped
  | binary a op l r => binary a.untyped op l.untyped r.untyped
  | call a f args => call a.untyped f.untyped (untypedAll args)
  | assign a x e => assign a.untyped x e.untyped
  | step a op before x => step a.untyped op before x
  | member a e m => member a.untyped e.untyped m

def untypedAll : List Expr → List Expr
  | [] => []
  | e :: es => e.untyped :: untypedAll es
end

mutual
/-- The expression with the types that the rules give its nodes. The types that it comes with
are not looked at. -/
def retype? (Γ : Context) : Expr → Option Expr
  | name a x => do
    let t ← Γ.typeOf? x
    return name (a.withTy t) x
  | literal a v => some (literal (a.withTy v.ty) v)
  | unary a op e => do
    let e ← e.retype? Γ
    let t ← op.resultTy? e.ty
    return unary (a.withTy t) op e
  | binary a op l r => do
    let l ← l.retype? Γ
    let r ← r.retype? Γ
    let t ← op.ruleTy? l.ty r.ty
    return binary (a.withTy t) op l r
  | call a f args => do
    let f ← f.retype? Γ
    let args ← retypeAll? Γ args
    match f.ty with
    | .func ps t => if Ty.accepts ps (args.map ty) then some (call (a.withTy t) f args) else none
    | _ => none
  | assign a x e => do
    let t ← Γ.typeOf? x
    let e ← e.retype? Γ
    if e.ty.assignable t then some (assign (a.withTy t) x e) else none
  | step a op before x => do
    let t ← Γ.typeOf? x
    if t.isNumeric then some (step (a.withTy t) op before x) else none
  | member a e m => do
    let e ← e.retype? Γ
    let t ← Γ.memberType? e.ty m
    return member (a.withTy t) e m

def retypeAll? (Γ : Context) : List Expr → Option (List Expr)
  | [] => some []
  | e :: es => do
    let e ← e.retype? Γ
    let es ← retypeAll? Γ es
    return e :: es
end

mutual
def nodes : Expr → List Expr
  | e@(name ..) | e@(literal ..) | e@(step ..) => [e]
  | e@(unary _ _ d) | e@(assign _ _ d) | e@(member _ d _) => e :: d.nodes
  | e@(binary _ _ l r) => e :: l.nodes ++ r.nodes
  | e@(call _ f args) => e :: f.nodes ++ nodesAll args

def nodesAll : List Expr → List Expr
  | [] => []
  | e :: es => e.nodes ++ nodesAll es
end

mutual
theorem retype?_untyped {Γ : Context} :
    ∀ {e : Expr}, e.checks Γ = true → e.untyped.retype? Γ = some e
  | name a x, h => by simp [untyped, retype?, checks_name.1 h]
  | literal a v, h => by simp [untyped, retype?, ← checks_literal.1 h]
  | unary a op e, h => by
    obtain ⟨he, ht⟩ := checks_unary.1 h
    simp [untyped, retype?, retype?_untyped he, ht]
  | binary a op l r, h => by
    obtain ⟨hl, hr, hn, ht⟩ := checks_binary.1 h
    simp [untyped, retype?, retype?_untyped hl, retype?_untyped hr,
      BinaryOp.ruleTy?_of_resultTy? hn ht]
  | call a f args, h => by
    obtain ⟨hf, hargs, ps, hty, hacc⟩ := checks_call.1 h
    simp [untyped, retype?, retype?_untyped hf, retypeAll?_untyped hargs, hty, hacc]
  | assign a x e, h => by
    obtain ⟨hx, he, hty⟩ := checks_assign.1 h
    simp [untyped, retype?, retype?_untyped he, hx, hty]
  | step a op before x, h => by
    obtain ⟨hx, hnum⟩ := checks_step.1 h
    simp [untyped, retype?, hx, hnum]
  | member a e m, h => by
    obtain ⟨he, -, hm⟩ := checks_member.1 h
    simp [untyped, retype?, retype?_untyped he, hm]

theorem retypeAll?_untyped {Γ : Context} :
    ∀ {es : List Expr}, checksAll Γ es = true → retypeAll? Γ (untypedAll es) = some es
  | [], _ => rfl
  | e :: es, h => by
    rw [checksAll, Bool.and_eq_true] at h
    simp [untypedAll, retypeAll?, retype?_untyped h.1, retypeAll?_untyped h.2]
end

mutual
theorem checks_of_mem_nodes {Γ : Context} : ∀ {e : Expr}, e.checks Γ = true →
    ∀ d ∈ e.nodes, d.checks Γ = true
  | name .., h, d, hd | literal .., h, d, hd | step .., h, d, hd => by
    cases List.mem_singleton.1 hd
    exact h
  | unary a op e, h, d, hd => by
    obtain rfl | hd := List.mem_cons.1 hd
    · exact h
    · exact checks_of_mem_nodes (checks_unary.1 h).1 d hd
  | binary a op l r, h, d, hd => by
    simp only [nodes, List.cons_append, List.mem_cons, List.mem_append] at hd
    obtain rfl | hd | hd := hd
    · exact h
    · exact checks_of_mem_nodes (checks_binary.1 h).1 d hd
    · exact checks_of_mem_nodes (checks_binary.1 h).2.1 d hd
  | call a f args, h, d, hd => by
    simp only [nodes, List.cons_append, List.mem_cons, List.mem_append] at hd
    obtain rfl | hd | hd := hd
    · exact h
    · exact checks_of_mem_nodes (checks_call.1 h).1 d hd
    · exact checks_of_mem_nodesAll (checks_call.1 h).2.1 d hd
  | assign a x e, h, d, hd => by
    obtain rfl | hd := List.mem_cons.1 hd
    · exact h
    · exact checks_of_mem_nodes (checks_assign.1 h).2.1 d hd
  | member a e m, h, d, hd => by
    obtain rfl | hd := List.mem_cons.1 hd
    · exact h
    · exact checks_of_mem_nodes (checks_member.1 h).1 d hd

theorem checks_of_mem_nodesAll {Γ : Context} : ∀ {es : List Expr}, checksAll Γ es = true →
    ∀ d ∈ nodesAll es, d.checks Γ = true
  | e :: es, h, d, hd => by
    rw [checksAll, Bool.and_eq_true] at h
    obtain hd | hd := List.mem_append.1 hd
    · exact checks_of_mem_nodes h.1 d hd
    · exact checks_of_mem_nodesAll h.2 d hd
end

theorem ty_eq_never_iff {Γ : Context} (hΓ : Γ.Proper) {e : Expr} (h : e.checks Γ = true) :
    e.ty = .never ↔ e.isNull = true := by
  constructor
  · intro hty
    refine (isProper_or_isNull hΓ h).resolve_left ?_
    simp [hty, Ty.isProper]
  · intro hnull
    cases e with
    | literal a v =>
      cases v with
      | null => exact checks_literal.1 h
      | _ => cases hnull
    | _ => cases hnull

end Expr

mutual
def Stmt.untyped : Stmt → Stmt
  | .define x ty e receiver span => .define x ty e.untyped receiver span
  | .ret e span => .ret e.untyped span
  | .func h body span => .func h body.untyped span
  | .block b => .block b.untyped
  | .cond c yes no span => .cond c.untyped yes.untyped (Stmt.untypedOption no) span
  | .loop c body span => .loop c.untyped body.untyped span
  | .expr e span => .expr e.untyped span
  | .typeDecl name span => .typeDecl name span

def Stmt.untypedOption : Option Stmt → Option Stmt
  | none => none
  | some s => some s.untyped

def Block.untyped : Block → Block
  | .mk ss span => .mk (Stmt.untypedList ss) span

def Stmt.untypedList : List Stmt → List Stmt
  | [] => []
  | s :: ss => s.untyped :: Stmt.untypedList ss
end

mutual
def Stmt.retype? : Context → Stmt → Option (Stmt × Context)
  | Γ, .define x ty e receiver span => do
    let e ← e.retype? Γ
    if e.ty.assignable ty && ty.isProper && receiver.all Ty.isProper then
      (Γ.declare? receiver x ty).map (.define x ty e receiver span, ·)
    else none
  | Γ, .ret e span => do
    let result ← Γ.returning?
    let e ← e.retype? Γ
    if e.ty.assignable result then some (.ret e span, Γ) else none
  | Γ, .func h body span => do
    let Γ₁ ← Γ.declare? h.receiver h.name h.signature.toTy
    let Γ₂ ← (Γ₁.enterFunction h.signature.result).bindAll? h.bindings
    let (body, Γ₃) ← body.retype? Γ₂
    if h.isProper && (h.signature.result = .void || body.alwaysReturns) then
      some (.func h body span, Γ₃.leave)
    else none
  | Γ, .block b => do
    let (b, Δ) ← b.retype? Γ
    return (.block b, Δ)
  | Γ, .cond c yes no span => do
    let c ← c.retype? Γ
    let (yes, Γ₁) ← yes.retype? Γ.enter
    let (no, Γ₂) ← Stmt.retypeOption? Γ₁.leave no
    return (.cond c yes no span, Γ₂)
  | Γ, .loop c body span => do
    let c ← c.retype? Γ
    let (body, Γ₁) ← body.retype? Γ.enter
    return (.loop c body span, Γ₁.leave)
  | Γ, .expr e span => do
    let e ← e.retype? Γ
    return (.expr e span, Γ)
  | Γ, .typeDecl name span => do
    let Δ ← Γ.declareType? name
    return (.typeDecl name span, Δ)

def Stmt.retypeOption? : Context → Option Stmt → Option (Option Stmt × Context)
  | Γ, none => some (none, Γ)
  | Γ, some s => do
    let (s, Δ) ← s.retype? Γ.enter
    return (some s, Δ.leave)

def Block.retype? : Context → Block → Option (Block × Context)
  | Γ, .mk ss span => do
    let (ss, Δ) ← Stmt.retypeList? Γ.enter ss
    return (.mk ss span, Δ.leave)

def Stmt.retypeList? : Context → List Stmt → Option (List Stmt × Context)
  | Γ, [] => some ([], Γ)
  | Γ, s :: ss => do
    let (s, Γ₁) ← s.retype? Γ
    let (ss, Γ₂) ← Stmt.retypeList? Γ₁ ss
    return (s :: ss, Γ₂)
end

mutual
def Stmt.nodes : Stmt → List Expr
  | .define _ _ e _ _ | .ret e _ | .expr e _ => e.nodes
  | .func _ body _ => body.nodes
  | .block b => b.nodes
  | .cond c yes no _ => c.nodes ++ yes.nodes ++ Stmt.nodesOption no
  | .loop c body _ => c.nodes ++ body.nodes
  | .typeDecl _ _ => []

def Stmt.nodesOption : Option Stmt → List Expr
  | none => []
  | some s => s.nodes

def Block.nodes : Block → List Expr
  | .mk ss _ => Stmt.nodesList ss

def Stmt.nodesList : List Stmt → List Expr
  | [] => []
  | s :: ss => s.nodes ++ Stmt.nodesList ss
end

mutual
theorem Stmt.retype?_untyped : ∀ {s : Stmt} {Γ Δ : Context}, s.check Γ = some Δ →
    s.untyped.retype? Γ = some (s, Δ)
  | .define x ty e receiver span, Γ, Δ, h => by
    obtain ⟨he, hty, hp, hr, hd⟩ := Stmt.check_define_eq_some h
    simp [Stmt.untyped, Stmt.retype?, Expr.retype?_untyped he, hty, hp, hr, hd]
  | .ret e span, Γ, Δ, h => by
    obtain ⟨rfl, he, result, hret, hty⟩ := Stmt.check_ret_eq_some h
    simp [Stmt.untyped, Stmt.retype?, Expr.retype?_untyped he, hret, hty]
  | .func heading body span, Γ, Δ, h => by
    obtain ⟨Γ₁, Γ₂, Γ₃, hc, rfl⟩ := Stmt.check_func_eq_some h
    simp [Stmt.untyped, Stmt.retype?, hc.proper, hc.declared, hc.bound,
      Block.retype?_untyped hc.body, hc.returns]
  | .block b, Γ, Δ, h => by
    rw [Stmt.check] at h
    simp [Stmt.untyped, Stmt.retype?, Block.retype?_untyped h]
  | .cond c yes no span, Γ, Δ, h => by
    obtain ⟨hc, Γ₁, hyes, hno⟩ := Stmt.check_cond_eq_some h
    simp [Stmt.untyped, Stmt.retype?, Expr.retype?_untyped hc, Stmt.retype?_untyped hyes,
      Stmt.retypeOption?_untyped hno]
  | .loop c body span, Γ, Δ, h => by
    obtain ⟨hc, Γ₁, hbody, rfl⟩ := Stmt.check_loop_eq_some h
    simp [Stmt.untyped, Stmt.retype?, Expr.retype?_untyped hc, Stmt.retype?_untyped hbody]
  | .expr e span, Γ, Δ, h => by
    obtain ⟨rfl, he⟩ := Stmt.check_expr_eq_some h
    simp [Stmt.untyped, Stmt.retype?, Expr.retype?_untyped he]
  | .typeDecl name span, Γ, Δ, h => by
    rw [Stmt.check] at h
    simp [Stmt.untyped, Stmt.retype?, h]

theorem Stmt.retypeOption?_untyped : ∀ {s : Option Stmt} {Γ Δ : Context},
    Stmt.checkOption Γ s = some Δ → Stmt.retypeOption? Γ (Stmt.untypedOption s) = some (s, Δ)
  | none, Γ, Δ, h => by
    cases h
    rfl
  | some s, Γ, Δ, h => by
    rw [Stmt.checkOption] at h
    obtain ⟨Γ₁, h₁, rfl⟩ := Option.map_eq_some_iff.1 h
    simp [Stmt.untypedOption, Stmt.retypeOption?, Stmt.retype?_untyped h₁]

theorem Block.retype?_untyped : ∀ {b : Block} {Γ Δ : Context}, b.check Γ = some Δ →
    b.untyped.retype? Γ = some (b, Δ)
  | .mk ss span, Γ, Δ, h => by
    obtain ⟨Γ₁, h₁, rfl⟩ := Block.check_eq_some h
    simp [Block.untyped, Block.retype?, Stmt.retypeList?_untyped h₁]

theorem Stmt.retypeList?_untyped : ∀ {ss : List Stmt} {Γ Δ : Context},
    Stmt.checkList Γ ss = some Δ → Stmt.retypeList? Γ (Stmt.untypedList ss) = some (ss, Δ)
  | [], Γ, Δ, h => by
    cases h
    rfl
  | s :: ss, Γ, Δ, h => by
    obtain ⟨Γ₁, hs, hss⟩ := Stmt.checkList_cons_eq_some h
    simp [Stmt.untypedList, Stmt.retypeList?, Stmt.retype?_untyped hs,
      Stmt.retypeList?_untyped hss]
end

theorem Expr.never_iff_of_mem_nodes {Γ : Context} (hΓ : Γ.Proper) {e : Expr}
    (h : e.checks Γ = true) : ∀ d ∈ e.nodes, (d.ty = .never ↔ d.isNull = true) :=
  fun d hd => ty_eq_never_iff hΓ (checks_of_mem_nodes h d hd)

mutual
theorem Stmt.never_iff_of_mem_nodes : ∀ {s : Stmt} {Γ Δ : Context}, Γ.Proper →
    s.check Γ = some Δ → ∀ d ∈ s.nodes, (d.ty = .never ↔ d.isNull = true)
  | .define x ty e receiver span, Γ, Δ, hΓ, h =>
    Expr.never_iff_of_mem_nodes hΓ (Stmt.check_define_eq_some h).1
  | .ret e span, Γ, Δ, hΓ, h => Expr.never_iff_of_mem_nodes hΓ (Stmt.check_ret_eq_some h).2.1
  | .func heading body span, Γ, Δ, hΓ, h => by
    obtain ⟨Γ₁, Γ₂, Γ₃, hc, rfl⟩ := Stmt.check_func_eq_some h
    have hp := hc.proper
    simp only [Heading.isProper, Bool.and_eq_true] at hp
    have hresult := (Ty.isProper_func.1 hp.1.1).2
    have hΓ₁ := (hΓ.declare? hp.1.1 hp.1.2 hc.declared).enterFunction hresult
    exact Block.never_iff_of_mem_nodes
      (hΓ₁.bindAll? (heading.bindings_isProper hc.proper) hc.bound) hc.body
  | .block b, Γ, Δ, hΓ, h => by
    rw [Stmt.check] at h
    exact Block.never_iff_of_mem_nodes hΓ h
  | .cond c yes no span, Γ, Δ, hΓ, h => by
    obtain ⟨hc, Γ₁, hyes, hno⟩ := Stmt.check_cond_eq_some h
    intro d hd
    simp only [Stmt.nodes, List.mem_append] at hd
    obtain (hd | hd) | hd := hd
    · exact Expr.never_iff_of_mem_nodes hΓ hc d hd
    · exact Stmt.never_iff_of_mem_nodes hΓ.enter hyes d hd
    · exact Stmt.never_iff_of_mem_nodesOption (yes.check_proper hΓ.enter hyes).leave hno d hd
  | .loop c body span, Γ, Δ, hΓ, h => by
    obtain ⟨hc, Γ₁, hbody, rfl⟩ := Stmt.check_loop_eq_some h
    intro d hd
    obtain hd | hd := List.mem_append.1 hd
    · exact Expr.never_iff_of_mem_nodes hΓ hc d hd
    · exact Stmt.never_iff_of_mem_nodes hΓ.enter hbody d hd
  | .expr e span, Γ, Δ, hΓ, h => Expr.never_iff_of_mem_nodes hΓ (Stmt.check_expr_eq_some h).2
  | .typeDecl name span, Γ, Δ, hΓ, h => nofun

theorem Stmt.never_iff_of_mem_nodesOption : ∀ {s : Option Stmt} {Γ Δ : Context}, Γ.Proper →
    Stmt.checkOption Γ s = some Δ → ∀ d ∈ Stmt.nodesOption s, (d.ty = .never ↔ d.isNull = true)
  | none, Γ, Δ, hΓ, h => nofun
  | some s, Γ, Δ, hΓ, h => by
    rw [Stmt.checkOption] at h
    obtain ⟨Γ₁, h₁, rfl⟩ := Option.map_eq_some_iff.1 h
    exact Stmt.never_iff_of_mem_nodes hΓ.enter h₁

theorem Block.never_iff_of_mem_nodes : ∀ {b : Block} {Γ Δ : Context}, Γ.Proper →
    b.check Γ = some Δ → ∀ d ∈ b.nodes, (d.ty = .never ↔ d.isNull = true)
  | .mk ss span, Γ, Δ, hΓ, h => by
    obtain ⟨Γ₁, h₁, rfl⟩ := Block.check_eq_some h
    exact Stmt.never_iff_of_mem_nodesList hΓ.enter h₁

theorem Stmt.never_iff_of_mem_nodesList : ∀ {ss : List Stmt} {Γ Δ : Context}, Γ.Proper →
    Stmt.checkList Γ ss = some Δ → ∀ d ∈ Stmt.nodesList ss, (d.ty = .never ↔ d.isNull = true)
  | [], Γ, Δ, hΓ, h => nofun
  | s :: ss, Γ, Δ, hΓ, h => by
    obtain ⟨Γ₁, hs, hss⟩ := Stmt.checkList_cons_eq_some h
    intro d hd
    obtain hd | hd := List.mem_append.1 hd
    · exact Stmt.never_iff_of_mem_nodes hΓ hs d hd
    · exact Stmt.never_iff_of_mem_nodesList (s.check_proper hΓ hs) hss d hd
end

namespace Context

/-- The contexts that can be made: there is no other way to come by one. -/
inductive Made : Context → Prop
  | initial : Made initial
  | enter {Γ : Context} (h : Made Γ) : Made Γ.enter
  | enterFunction {Γ : Context} (result : Ty) (h : Made Γ) : Made (Γ.enterFunction result)
  | leave {Γ : Context} (h : Made Γ) : Made Γ.leave
  | bind {Γ Δ : Context} (name : String) (ty : Ty) (place : Position) (h : Made Γ)
      (hd : Γ.bind name ty place = .ok Δ) : Made Δ
  | declareType {Γ Δ : Context} (name : String) (ty : Ty) (place : Position) (h : Made Γ)
      (hd : Γ.declareType name place = .ok (ty, Δ)) : Made Δ
  | bindMember {Γ Δ : Context} (receiver : Ty) (name : String) (ty : Ty) (place : Position)
      (h : Made Γ) (hd : Γ.bindMember receiver name ty place = .ok Δ) : Made Δ

structure NeverFree (Γ : Context) : Prop where
  names : ∀ s ∈ Γ.scopes, ∀ x t, s.names.get? x = some t → t.isProper = true
  returns : ∀ s ∈ Γ.scopes, ∀ t, s.returns = some t → t.isProper = true
  members : ∀ r x t, Γ.members.get? (r, x) = some t → r.isProper = true ∧ t.isProper = true

theorem Proper.neverFree {Γ : Context} (h : Γ.Proper) : Γ.NeverFree :=
  ⟨h.names, h.returns, h.members⟩

theorem Made.types {Γ : Context} (h : Γ.Made) {x : String} {t : Ty}
    (hx : Γ.types.get? x = some t) : t.isProper = true := by
  induction h with
  | initial => exact Proper.initial.types x t hx
  | enter _ ih | enterFunction _ _ ih => exact ih hx
  | leave _ ih =>
    rw [Context.leave] at hx
    split at hx <;> exact ih hx
  | bind _ _ _ _ hd ih =>
    rw [Context.bind] at hd
    split at hd <;> cases hd
    exact ih hx
  | declareType _ _ _ _ hd ih =>
    rw [Context.declareType] at hd
    split at hd <;> cases hd
    rw [Dict.get?_insert] at hx
    split at hx
    · cases hx
      rfl
    · exact ih hx
  | bindMember _ _ _ _ _ hd ih =>
    rw [Context.bindMember] at hd
    split at hd <;> cases hd
    exact ih hx

theorem NeverFree.proper {Γ : Context} (h : Γ.NeverFree) (hmade : Γ.Made) : Γ.Proper :=
  ⟨h.names, h.returns, fun _ _ => hmade.types, h.members⟩

end Context

namespace Program

/-- What is read without a report in a context without `never` passes the rules on the tree
alone. They give every node the type that the reader gave it, and come to the same context; and
`null` is all that has the type `never`. -/
theorem retypes_of_ofTokens {tokens : List Token} {Γ : Context} (hmade : Γ.Made)
    (hfree : Γ.NeverFree) {p : Program} (h : ofTokens tokens Γ = (p, [])) :
    Stmt.retypeList? Γ (Stmt.untypedList p.statements) = some (p.statements, p.context) ∧
    ∀ e ∈ Stmt.nodesList p.statements, (e.ty = .never ↔ e.isNull = true) := by
  have hΓ := hfree.proper hmade
  have hcheck := checkList_of_ofTokens hΓ h
  exact ⟨Stmt.retypeList?_untyped hcheck, Stmt.never_iff_of_mem_nodesList hΓ hcheck⟩

/-- `let y: int = null; return x + y;` inside a function that returns an `int` and sees an `x`. -/
theorem retypes_of_return :
    let outer : Context := ⟨⟨⟨[("x", .int)]⟩, none⟩, [], Context.initial.types, .empty⟩
    let Γ := outer.enterFunction .int
    let tokens : List Token :=
      [(.kwLet, "let"), (.identifier, "y"), (.colon, ":"), (.identifier, "int"),
        (.assignment, "="), (.kwNull, "null"), (.semicolon, ";"), (.kwReturn, "return"),
        (.identifier, "x"), (.plus, "+"), (.identifier, "y"), (.semicolon, ";")].map
      fun (kind, value) => ⟨kind, value, ⟨.nowhere, .nowhere⟩⟩
    Γ.Made ∧ Γ.NeverFree ∧ ∃ p, ofTokens tokens Γ = (p, []) ∧ p.statements.length = 2 ∧
      Stmt.retypeList? Γ (Stmt.untypedList p.statements) = some (p.statements, p.context) ∧
      ∀ e ∈ Stmt.nodesList p.statements, (e.ty = .never ↔ e.isNull = true) := by
  intro outer Γ tokens
  have hmade : Γ.Made := .enterFunction .int (.bind "x" .int .nowhere .initial rfl)
  have houter : Context.initial.declare? none "x" .int = some outer := rfl
  have hproper : Γ.Proper := (Context.Proper.initial.declare? rfl rfl houter).enterFunction rfl
  have h : ofTokens tokens Γ = ((ofTokens tokens Γ).1, []) := ofTokens_eq (by decide +kernel)
  have htwo : (ofTokens tokens Γ).1.statements.length = 2 := by decide +kernel
  exact ⟨hmade, hproper.neverFree, _, h, htwo, retypes_of_ofTokens hmade hproper.neverFree h⟩

end Program

end TypedScript
