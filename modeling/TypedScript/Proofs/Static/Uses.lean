import TypedScript.Proofs.Static.Check

namespace TypedScript

def outside (us ds : List (String × Ty)) : List (String × Ty) :=
  us.filter fun u => u.1 ∉ ds.map Prod.fst

theorem mem_outside {us ds : List (String × Ty)} {u : String × Ty} :
    u ∈ outside us ds ↔ u ∈ us ∧ u.1 ∉ ds.map Prod.fst := by
  rw [outside, List.mem_filter, decide_eq_true_eq]

def agree (us ds : List (String × Ty)) : Bool :=
  us.all fun u => ds.all fun d => d.1 ≠ u.1 || d.2 = u.2

theorem eq_of_agree {us ds : List (String × Ty)} (h : agree us ds = true) {x : String} {t t' : Ty}
    (hu : (x, t) ∈ us) (hd : (x, t') ∈ ds) : t' = t := by
  have := List.all_eq_true.1 (List.all_eq_true.1 h _ hu) _ hd
  simpa using this

mutual
def Expr.uses : Expr → List (String × Ty)
  | .name a x => [(x, a.ty)]
  | .literal _ _ => []
  | .unary _ _ e => e.uses
  | .binary _ _ l r => l.uses ++ r.uses
  | .call _ f args => f.uses ++ Expr.usesAll args
  | .assign a x e => (x, a.ty) :: e.uses
  | .step a _ _ x => [(x, a.ty)]
  | .member _ e _ => e.uses

def Expr.usesAll : List Expr → List (String × Ty)
  | [] => []
  | e :: es => e.uses ++ Expr.usesAll es
end

def Stmt.defines : Stmt → List (String × Ty)
  | .define x ty _ none _ => [(x, ty)]
  | .func ⟨name, none, _, signature⟩ _ _ => [(name, signature.toTy)]
  | _ => []

def Stmt.definesAll (ss : List Stmt) : List (String × Ty) := ss.flatMap Stmt.defines

mutual
/-- The names from outside that a statement uses. If it is not `direct`, only those count that
are used in the body of a function, and so perhaps later. -/
def Stmt.uses (direct : Bool) : Stmt → List (String × Ty)
  | .define _ _ e _ _ => if direct then e.uses else []
  | .ret e _ => if direct then e.uses else []
  | .func h body span => outside (body.uses true) (h.bindings ++ (Stmt.func h body span).defines)
  | .block b => b.uses direct
  | .cond c yes no _ =>
    (if direct then c.uses else []) ++ yes.uses direct ++ Stmt.usesOption direct no
  | .loop c body _ => (if direct then c.uses else []) ++ body.uses direct
  | .expr e _ => if direct then e.uses else []
  | .typeDecl _ _ => []

def Stmt.usesOption (direct : Bool) : Option Stmt → List (String × Ty)
  | none => []
  | some s => s.uses direct

def Block.uses (direct : Bool) : Block → List (String × Ty)
  | .mk ss _ => Stmt.usesList direct ss

def Stmt.usesList (direct : Bool) : List Stmt → List (String × Ty)
  | [] => []
  | s :: ss => s.uses direct ++ outside (Stmt.usesList direct ss) s.defines
end

mutual
/-- No block gives another type to a name that a function in it has from outside the block. -/
def Stmt.settled : Stmt → Bool
  | .func _ body _ => body.settled
  | .block b => b.settled
  | .cond _ yes no _ => yes.settled && Stmt.settledOption no
  | .loop _ body _ => body.settled
  | _ => true

def Stmt.settledOption : Option Stmt → Bool
  | none => true
  | some s => s.settled

def Block.settled : Block → Bool
  | .mk ss _ => agree (Stmt.usesList false ss) (Stmt.definesAll ss) && Stmt.settledList ss

def Stmt.settledList : List Stmt → Bool
  | [] => true
  | s :: ss => s.settled && Stmt.settledList ss
end

mutual
theorem Stmt.mem_uses_of_false : ∀ {s : Stmt} {u : String × Ty},
    u ∈ s.uses false → u ∈ s.uses true
  | .define _ _ _ _ _, _, h => nomatch h
  | .ret _ _, _, h => nomatch h
  | .func _ _ _, _, h => by
    rw [Stmt.uses] at h ⊢
    exact h
  | .block b, _, h => by
    rw [Stmt.uses] at h ⊢
    exact Block.mem_uses_of_false h
  | .cond c yes no _, _, h => by
    rw [Stmt.uses, List.mem_append, List.mem_append] at h ⊢
    obtain (h | h) | h := h
    · cases h
    · exact .inl (.inr (Stmt.mem_uses_of_false h))
    · exact .inr (Stmt.mem_usesOption_of_false h)
  | .loop c body _, _, h => by
    rw [Stmt.uses, List.mem_append] at h ⊢
    obtain h | h := h
    · cases h
    · exact .inr (Stmt.mem_uses_of_false h)
  | .expr _ _, _, h => nomatch h
  | .typeDecl _ _, _, h => nomatch h

theorem Stmt.mem_usesOption_of_false : ∀ {s : Option Stmt} {u : String × Ty},
    u ∈ Stmt.usesOption false s → u ∈ Stmt.usesOption true s
  | none, _, h => nomatch h
  | some s, _, h => by
    rw [Stmt.usesOption] at h ⊢
    exact Stmt.mem_uses_of_false h

theorem Block.mem_uses_of_false : ∀ {b : Block} {u : String × Ty},
    u ∈ b.uses false → u ∈ b.uses true
  | .mk ss _, _, h => by
    rw [Block.uses] at h ⊢
    exact Stmt.mem_usesList_of_false h

theorem Stmt.mem_usesList_of_false : ∀ {ss : List Stmt} {u : String × Ty},
    u ∈ Stmt.usesList false ss → u ∈ Stmt.usesList true ss
  | [], _, h => nomatch h
  | s :: ss, u, h => by
    rw [Stmt.usesList, List.mem_append, mem_outside] at h ⊢
    exact h.imp Stmt.mem_uses_of_false fun h => ⟨Stmt.mem_usesList_of_false h.1, h.2⟩
end

theorem Stmt.not_mem_defines_of_uses {s : Stmt} {u : String × Ty} (h : u ∈ s.uses false) :
    u.1 ∉ s.defines.map Prod.fst := by
  cases s with
  | func heading body span =>
    rw [Stmt.uses, mem_outside, List.map_append, List.mem_append] at h
    exact fun hd => h.2 (.inr hd)
  | define => nomatch h
  | _ => exact List.not_mem_nil

namespace Context

structure Grows (Γ : Context) (ds : List (String × Ty)) (Δ : Context) : Prop where
  enclosing : Δ.enclosing = Γ.enclosing
  returns : Δ.current.returns = Γ.current.returns
  fresh : ∀ d ∈ ds, Γ.local? d.1 = none
  new : ∀ d ∈ ds, Δ.local? d.1 = some d.2
  old : ∀ {x}, x ∉ ds.map Prod.fst → Δ.local? x = Γ.local? x
  members : ∀ {k t}, Γ.members.get? k = some t → Δ.members.get? k = some t

theorem typeOf?_eq (Γ : Context) (x : String) :
    Γ.typeOf? x = (Γ.local? x).or (Γ.enclosing.findSome? (·.names.get? x)) := by
  rw [typeOf?, scopes, List.findSome?_cons, local?]
  cases Γ.current.names.get? x <;> rfl

theorem typeOf?_enterFunction (Γ : Context) (result : Ty) (x : String) :
    (Γ.enterFunction result).typeOf? x = Γ.typeOf? x := rfl

namespace Grows

variable {Γ Δ Ξ : Context} {ds es : List (String × Ty)}

theorem refl (Γ : Context) : Γ.Grows [] Γ := ⟨rfl, rfl, nofun, nofun, fun _ => rfl, id⟩

theorem trans (h : Γ.Grows ds Δ) (h' : Δ.Grows es Ξ) : Γ.Grows (ds ++ es) Ξ where
  enclosing := h'.enclosing.trans h.enclosing
  returns := h'.returns.trans h.returns
  fresh d hd := by
    obtain hd | hd := List.mem_append.1 hd
    · exact h.fresh d hd
    · have hnone := h'.fresh d hd
      by_cases hx : d.1 ∈ ds.map Prod.fst
      · obtain ⟨d', hd', he⟩ := List.mem_map.1 hx
        rw [← he, h.new d' hd'] at hnone
        cases hnone
      · rwa [← h.old hx]
  new d hd := by
    obtain hd | hd := List.mem_append.1 hd
    · rw [h'.old, h.new d hd]
      intro hx
      obtain ⟨d', hd', he⟩ := List.mem_map.1 hx
      have hnone := h'.fresh d' hd'
      rw [he, h.new d hd] at hnone
      cases hnone
    · exact h'.new d hd
  old hx := by
    rw [List.map_append, List.mem_append, not_or] at hx
    rw [h'.old hx.2, h.old hx.1]
  members hk := h'.members (h.members hk)

theorem typeOf?_of_not_mem (h : Γ.Grows ds Δ) {x : String} (hx : x ∉ ds.map Prod.fst) :
    Δ.typeOf? x = Γ.typeOf? x := by
  rw [typeOf?_eq, typeOf?_eq, h.old hx, h.enclosing]

theorem typeOf?_of_mem (h : Γ.Grows ds Δ) {x : String} {t : Ty} (hx : (x, t) ∈ ds) :
    Δ.typeOf? x = some t := by
  rw [typeOf?_eq, h.new _ hx, Option.some_or]

theorem mem_of_local? (h : Γ.Grows ds Δ) {x : String} {t : Ty} (hx : Δ.local? x = some t)
    (hn : Γ.local? x = none) : (x, t) ∈ ds := by
  by_cases hm : x ∈ ds.map Prod.fst
  · obtain ⟨⟨y, t'⟩, hd, rfl⟩ := List.mem_map.1 hm
    rw [h.new _ hd] at hx
    cases hx
    exact hd
  · rw [h.old hm, hn] at hx
    cases hx

theorem declare? {receiver : Option Ty} {name : String} {ty : Ty}
    (hd : Γ.declare? receiver name ty = some Δ) :
    Γ.Grows (if receiver.isNone then [(name, ty)] else []) Δ := by
  cases receiver with
  | some r =>
    rw [Context.declare?] at hd
    split at hd
    · cases hd
    · rename_i hc
      cases hd
      refine ⟨rfl, rfl, List.forall_mem_nil _, List.forall_mem_nil _, fun _ => rfl,
        fun {k t} hk => ?_⟩
      rw [Dict.get?_insert_of_ne, hk]
      rintro rfl
      exact hc (by rw [Dict.contains, hk]; rfl)
  | none =>
    rw [Context.declare?] at hd
    split at hd
    · cases hd
    · rename_i hc
      cases hd
      rw [Option.not_isSome_iff_eq_none] at hc
      refine ⟨rfl, rfl, fun d hd => ?_, fun d hd => ?_, fun hx => ?_, id⟩
      · cases List.mem_singleton.1 hd
        exact hc
      · cases List.mem_singleton.1 hd
        exact Dict.get?_insert_self _ _ _
      · exact Dict.get?_insert_of_ne _ _ fun he => hx (he ▸ List.mem_singleton.2 rfl)

theorem bindAll? {bs : List (String × Ty)} (hd : Γ.bindAll? bs = some Δ) : Γ.Grows bs Δ := by
  induction bs generalizing Γ with
  | nil =>
    cases hd
    exact refl _
  | cons b rest ih =>
    obtain ⟨Γ', hΓ', hd⟩ := Option.bind_eq_some_iff.1 hd
    exact (declare? hΓ').trans (ih hd)

theorem leave {Γ' : Context} (h : Γ'.Grows ds Δ) (he : Γ'.enclosing = Γ.scopes)
    (hm : Γ'.members = Γ.members) : Γ.Grows [] Δ.leave := by
  have henc : Δ.enclosing = Γ.current :: Γ.enclosing := h.enclosing.trans he
  rw [Context.leave, henc]
  exact ⟨rfl, rfl, List.forall_mem_nil _, List.forall_mem_nil _, fun _ => rfl,
    fun hk => h.members (hm ▸ hk)⟩

end Grows

end Context

theorem Stmt.defines_func (h : Heading) (body : Block) (span : Span) :
    (Stmt.func h body span).defines =
      if h.receiver.isNone then [(h.name, h.signature.toTy)] else [] := by
  obtain ⟨name, _ | r, ps, signature⟩ := h <;> rfl

theorem Stmt.defines_define (x : String) (ty : Ty) (e : Expr) (receiver : Option Ty) (span : Span) :
    (Stmt.define x ty e receiver span).defines = if receiver.isNone then [(x, ty)] else [] := by
  cases receiver <;> rfl

mutual
theorem Stmt.check_grows : ∀ {s : Stmt} {Γ Δ : Context}, s.check Γ = some Δ → Γ.Grows s.defines Δ
  | .define x ty e receiver span, Γ, Δ, hs => by
    rw [Stmt.defines_define]
    exact .declare? (Stmt.check_define_eq_some hs).2.2.2.2
  | .ret e span, Γ, Δ, hs => by
    obtain ⟨rfl, -⟩ := Stmt.check_ret_eq_some hs
    exact .refl _
  | .func h body span, Γ, Δ, hs => by
    obtain ⟨Γ₁, Γ₂, Γ₃, hc, rfl⟩ := Stmt.check_func_eq_some hs
    rw [Stmt.defines_func]
    have hbody := (Context.Grows.bindAll? hc.bound).trans (Block.check_grows hc.body)
    have := (Context.Grows.declare? hc.declared).trans (hbody.leave rfl rfl)
    rwa [List.append_nil] at this
  | .block b, Γ, Δ, hs => by
    rw [Stmt.check] at hs
    exact Block.check_grows hs
  | .cond c yes no span, Γ, Δ, hs => by
    obtain ⟨-, Γ₁, hyes, hno⟩ := Stmt.check_cond_eq_some hs
    exact ((Stmt.check_grows hyes).leave rfl rfl).trans (Stmt.checkOption_grows hno)
  | .loop c body span, Γ, Δ, hs => by
    obtain ⟨-, Γ₁, hbody, rfl⟩ := Stmt.check_loop_eq_some hs
    exact (Stmt.check_grows hbody).leave rfl rfl
  | .expr e span, Γ, Δ, hs => by
    obtain ⟨rfl, -⟩ := Stmt.check_expr_eq_some hs
    exact .refl _
  | .typeDecl name span, Γ, Δ, hs => by
    rw [Stmt.check, Context.declareType?] at hs
    split at hs <;> cases hs
    exact ⟨rfl, rfl, nofun, nofun, fun _ => rfl, id⟩

theorem Stmt.checkOption_grows : ∀ {s : Option Stmt} {Γ Δ : Context},
    Stmt.checkOption Γ s = some Δ → Γ.Grows [] Δ
  | none, Γ, Δ, hs => by
    cases hs
    exact .refl _
  | some s, Γ, Δ, hs => by
    rw [Stmt.checkOption] at hs
    obtain ⟨Γ₁, h₁, rfl⟩ := Option.map_eq_some_iff.1 hs
    exact (Stmt.check_grows h₁).leave rfl rfl

theorem Block.check_grows : ∀ {b : Block} {Γ Δ : Context}, b.check Γ = some Δ → Γ.Grows [] Δ
  | .mk ss span, Γ, Δ, hb => by
    obtain ⟨Γ₁, hss, rfl⟩ := Block.check_eq_some hb
    exact (Stmt.checkList_grows hss).leave rfl rfl

theorem Stmt.checkList_grows : ∀ {ss : List Stmt} {Γ Δ : Context},
    Stmt.checkList Γ ss = some Δ → Γ.Grows (Stmt.definesAll ss) Δ
  | [], Γ, Δ, hs => by
    cases hs
    exact .refl _
  | s :: ss, Γ, Δ, hs => by
    obtain ⟨Γ₁, h₁, hs⟩ := Stmt.checkList_cons_eq_some hs
    exact (Stmt.check_grows h₁).trans (Stmt.checkList_grows hs)
end

mutual
theorem Expr.uses_typed : ∀ {e : Expr} {Γ : Context}, e.checks Γ = true →
    ∀ u ∈ e.uses, Γ.typeOf? u.1 = some u.2
  | .name a x, Γ, h, u, hu => by
    cases List.mem_singleton.1 hu
    exact checks_name.1 h
  | .literal a v, Γ, h, u, hu => nomatch hu
  | .unary a op e, Γ, h, u, hu => by
    rw [Expr.uses] at hu
    exact Expr.uses_typed (checks_unary.1 h).1 u hu
  | .binary a op l r, Γ, h, u, hu => by
    rw [Expr.uses, List.mem_append] at hu
    obtain ⟨hl, hr, -⟩ := checks_binary.1 h
    exact hu.elim (Expr.uses_typed hl u) (Expr.uses_typed hr u)
  | .call a f args, Γ, h, u, hu => by
    rw [Expr.uses, List.mem_append] at hu
    obtain ⟨hf, hargs, -⟩ := checks_call.1 h
    exact hu.elim (Expr.uses_typed hf u) (Expr.usesAll_typed hargs u)
  | .assign a x e, Γ, h, u, hu => by
    rw [Expr.uses, List.mem_cons] at hu
    obtain ⟨hx, he, -⟩ := checks_assign.1 h
    obtain rfl | hu := hu
    · exact hx
    · exact Expr.uses_typed he u hu
  | .step a op before x, Γ, h, u, hu => by
    cases List.mem_singleton.1 hu
    exact (checks_step.1 h).1
  | .member a e m, Γ, h, u, hu => by
    rw [Expr.uses] at hu
    exact Expr.uses_typed (checks_member.1 h).1 u hu

theorem Expr.usesAll_typed : ∀ {es : List Expr} {Γ : Context}, Expr.checksAll Γ es = true →
    ∀ u ∈ Expr.usesAll es, Γ.typeOf? u.1 = some u.2
  | [], Γ, h, u, hu => nomatch hu
  | e :: es, Γ, h, u, hu => by
    rw [Expr.usesAll, List.mem_append] at hu
    rw [Expr.checksAll, Bool.and_eq_true] at h
    exact hu.elim (Expr.uses_typed h.1 u) (Expr.usesAll_typed h.2 u)
end

theorem Expr.uses_typed_of_direct {e : Expr} {Γ : Context} (h : e.checks Γ = true) {direct : Bool} :
    ∀ u ∈ (if direct then e.uses else []), Γ.typeOf? u.1 = some u.2 := by
  cases direct with
  | true => exact Expr.uses_typed h
  | false => exact nofun

mutual
theorem Stmt.uses_typed : ∀ {s : Stmt} {Γ Δ : Context} (direct : Bool), s.check Γ = some Δ →
    ∀ u ∈ s.uses direct, Γ.typeOf? u.1 = some u.2
  | .define x ty e receiver span, Γ, Δ, direct, hs, u, hu =>
    Expr.uses_typed_of_direct (Stmt.check_define_eq_some hs).1 u hu
  | .ret e span, Γ, Δ, direct, hs, u, hu =>
    Expr.uses_typed_of_direct (Stmt.check_ret_eq_some hs).2.1 u hu
  | .func h body span, Γ, Δ, direct, hs, u, hu => by
    obtain ⟨Γ₁, Γ₂, Γ₃, hc, rfl⟩ := Stmt.check_func_eq_some hs
    rw [Stmt.uses, mem_outside, List.map_append, List.mem_append, not_or, Stmt.defines_func] at hu
    obtain ⟨hu, hbound, hname⟩ := hu
    rw [← (Context.Grows.declare? hc.declared).typeOf?_of_not_mem hname,
      ← Context.typeOf?_enterFunction, ← (Context.Grows.bindAll? hc.bound).typeOf?_of_not_mem
        hbound]
    exact Block.uses_typed true hc.body u hu
  | .block b, Γ, Δ, direct, hs, u, hu => by
    rw [Stmt.check] at hs
    rw [Stmt.uses] at hu
    exact Block.uses_typed direct hs u hu
  | .cond c yes no span, Γ, Δ, direct, hs, u, hu => by
    obtain ⟨hc, Γ₁, hyes, hno⟩ := Stmt.check_cond_eq_some hs
    rw [Stmt.uses, List.mem_append, List.mem_append] at hu
    obtain (hu | hu) | hu := hu
    · exact Expr.uses_typed_of_direct hc u hu
    · exact Stmt.uses_typed direct hyes u hu
    · have hgrows := (Stmt.check_grows hyes).leave rfl rfl (Γ := Γ)
      rw [← hgrows.typeOf?_of_not_mem List.not_mem_nil]
      exact Stmt.usesOption_typed direct hno u hu
  | .loop c body span, Γ, Δ, direct, hs, u, hu => by
    obtain ⟨hc, Γ₁, hbody, -⟩ := Stmt.check_loop_eq_some hs
    rw [Stmt.uses, List.mem_append] at hu
    obtain hu | hu := hu
    · exact Expr.uses_typed_of_direct hc u hu
    · exact Stmt.uses_typed direct hbody u hu
  | .expr e span, Γ, Δ, direct, hs, u, hu =>
    Expr.uses_typed_of_direct (Stmt.check_expr_eq_some hs).2 u hu
  | .typeDecl name span, Γ, Δ, direct, hs, u, hu => nomatch hu

theorem Stmt.usesOption_typed : ∀ {s : Option Stmt} {Γ Δ : Context} (direct : Bool),
    Stmt.checkOption Γ s = some Δ → ∀ u ∈ Stmt.usesOption direct s, Γ.typeOf? u.1 = some u.2
  | none, Γ, Δ, direct, hs, u, hu => nomatch hu
  | some s, Γ, Δ, direct, hs, u, hu => by
    rw [Stmt.checkOption] at hs
    obtain ⟨Γ₁, h₁, -⟩ := Option.map_eq_some_iff.1 hs
    rw [Stmt.usesOption] at hu
    exact Stmt.uses_typed direct h₁ u hu

theorem Block.uses_typed : ∀ {b : Block} {Γ Δ : Context} (direct : Bool), b.check Γ = some Δ →
    ∀ u ∈ b.uses direct, Γ.typeOf? u.1 = some u.2
  | .mk ss span, Γ, Δ, direct, hb, u, hu => by
    obtain ⟨Γ₁, hss, -⟩ := Block.check_eq_some hb
    rw [Block.uses] at hu
    exact Stmt.usesList_typed direct hss u hu

theorem Stmt.usesList_typed : ∀ {ss : List Stmt} {Γ Δ : Context} (direct : Bool),
    Stmt.checkList Γ ss = some Δ → ∀ u ∈ Stmt.usesList direct ss, Γ.typeOf? u.1 = some u.2
  | [], Γ, Δ, direct, hs, u, hu => nomatch hu
  | s :: ss, Γ, Δ, direct, hs, u, hu => by
    obtain ⟨Γ₁, h₁, hs⟩ := Stmt.checkList_cons_eq_some hs
    rw [Stmt.usesList, List.mem_append, mem_outside] at hu
    obtain hu | ⟨hu, hx⟩ := hu
    · exact Stmt.uses_typed direct h₁ u hu
    · rw [← (Stmt.check_grows h₁).typeOf?_of_not_mem hx]
      exact Stmt.usesList_typed direct hs u hu
end

end TypedScript
