import TypedScript.Proofs.Dict
import TypedScript.Stmt.Parser

namespace TypedScript

namespace Ty

mutual
def isProper : Ty → Bool
  | never => false
  | func ps r => areProper ps && r.isProper
  | _ => true

def areProper : List Ty → Bool
  | [] => true
  | t :: ts => t.isProper && areProper ts
end

theorem areProper_eq_true {ts : List Ty} : areProper ts = true ↔ ∀ t ∈ ts, t.isProper = true := by
  induction ts with
  | nil => simp [areProper]
  | cons t ts ih => simp [areProper, ih]

theorem isProper_func {ps : List Ty} {r : Ty} :
    (func ps r).isProper = true ↔ (∀ p ∈ ps, p.isProper = true) ∧ r.isProper = true := by
  rw [isProper, Bool.and_eq_true, areProper_eq_true]

theorem isNever_of_isProper {t : Ty} (h : t.isProper = true) : t.isNever = false := by
  cases t with
  | never => cases h
  | _ => rfl

def accepts : List Ty → List Ty → Bool
  | [], [] => true
  | p :: ps, a :: as => a.assignable p && accepts ps as
  | _, _ => false

end Ty

def Literal.ty : Literal → Ty
  | string _ => .string
  | integer _ => .int
  | float _ => .float
  | boolean _ => .bool
  | null => .never
  | void => .void

def UnaryOp.resultTy? : UnaryOp → Ty → Option Ty
  | not, _ => some .bool
  | negate, t => if t.isNumeric then some t else none

namespace Expr

mutual
/-- Every node has the type that the rules give it. -/
def checks (Γ : Context) : Expr → Bool
  | name a x => Γ.typeOf? x = some a.ty
  | literal a v => a.ty = v.ty
  | unary a op e => e.checks Γ && op.resultTy? e.ty = some a.ty
  | binary a op l r => l.checks Γ && r.checks Γ &&
    (op.isUniversal || !l.ty.isNever && !r.ty.isNever) && op.resultTy? l.ty r.ty = some a.ty
  | call a f args => f.checks Γ && checksAll Γ args && match f.ty with
    | .func ps r => Ty.accepts ps (args.map Expr.ty) && r = a.ty
    | _ => false
  | assign a x e => Γ.typeOf? x = some a.ty && e.checks Γ && e.ty.assignable a.ty
  | step a _ _ x => Γ.typeOf? x = some a.ty && a.ty.isNumeric
  | member a e m => e.checks Γ && !e.ty.isNever && Γ.memberType? e.ty m = some a.ty

def checksAll (Γ : Context) : List Expr → Bool
  | [] => true
  | e :: es => e.checks Γ && checksAll Γ es
end

section checks

variable {Γ : Context} {a : Ann}

attribute [local simp] checks

theorem checks_name {x : String} : (name a x).checks Γ = true ↔ Γ.typeOf? x = some a.ty := by
  rw [checks, decide_eq_true_eq]

theorem checks_literal {v : Literal} : (literal a v).checks Γ = true ↔ a.ty = v.ty := by
  rw [checks, decide_eq_true_eq]

theorem checks_unary {op : UnaryOp} {e : Expr} : (unary a op e).checks Γ = true ↔
    e.checks Γ = true ∧ op.resultTy? e.ty = some a.ty := by
  simp

theorem checks_binary {op : BinaryOp} {l r : Expr} : (binary a op l r).checks Γ = true ↔
    l.checks Γ = true ∧ r.checks Γ = true ∧
      (op.isUniversal = true ∨ l.ty.isNever = false ∧ r.ty.isNever = false) ∧
      op.resultTy? l.ty r.ty = some a.ty := by
  simp [and_assoc]

theorem checks_call {f : Expr} {args : List Expr} : (call a f args).checks Γ = true ↔
    f.checks Γ = true ∧ checksAll Γ args = true ∧
      ∃ ps, f.ty = .func ps a.ty ∧ Ty.accepts ps (args.map Expr.ty) = true := by
  rw [checks, Bool.and_eq_true, Bool.and_eq_true, and_assoc]
  refine and_congr_right fun _ => and_congr_right fun _ => ?_
  cases f.ty with
  | func ps r =>
    rw [Bool.and_eq_true, decide_eq_true_eq]
    constructor
    · rintro ⟨ha, rfl⟩
      exact ⟨ps, rfl, ha⟩
    · rintro ⟨qs, he, ha⟩
      cases he
      exact ⟨ha, rfl⟩
  | _ => exact ⟨nofun, fun ⟨_, he, _⟩ => nomatch he⟩

theorem checks_assign {x : String} {e : Expr} : (assign a x e).checks Γ = true ↔
    Γ.typeOf? x = some a.ty ∧ e.checks Γ = true ∧ e.ty.assignable a.ty = true := by
  simp [and_assoc]

theorem checks_step {op : StepOp} {before : Bool} {x : String} :
    (step a op before x).checks Γ = true ↔ Γ.typeOf? x = some a.ty ∧ a.ty.isNumeric = true := by
  simp

theorem checks_member {e : Expr} {m : String} : (member a e m).checks Γ = true ↔
    e.checks Γ = true ∧ e.ty.isNever = false ∧ Γ.memberType? e.ty m = some a.ty := by
  simp [and_assoc]

end checks

end Expr

namespace Context

def declare? (Γ : Context) (receiver : Option Ty) (name : String) (ty : Ty) : Option Context :=
  match receiver with
  | some r =>
    if Γ.members.contains (r, name) then none
    else some { Γ with members := Γ.members.insert (r, name) ty }
  | none =>
    if (Γ.local? name).isSome then none
    else some { Γ with current := { Γ.current with names := Γ.current.names.insert name ty } }

theorem member_of_declare? {Γ Δ : Context} {r : Ty} {name : String} {ty : Ty}
    (h : Γ.declare? (some r) name ty = some Δ) : Δ.members.get? (r, name) = some ty := by
  rw [declare?] at h
  split at h <;> cases h
  exact Dict.get?_insert_self _ _ _

def bindAll? (Γ : Context) : List (String × Ty) → Option Context
  | [] => some Γ
  | (name, ty) :: rest => (Γ.declare? none name ty).bind (bindAll? · rest)

def declareType? (Γ : Context) (name : String) : Option Context :=
  if Γ.types.contains name then none
  else some { Γ with types := Γ.types.insert name (.named name) }

end Context

def Heading.isProper (h : Heading) : Bool :=
  h.signature.toTy.isProper && h.receiver.all Ty.isProper &&
    h.signature.parameters = h.parameters.map Parameter.ty

mutual
/-- The context behind a statement, if the rules accept it. -/
def Stmt.check : Context → Stmt → Option Context
  | Γ, .define x ty e receiver _ =>
    if e.checks Γ && e.ty.assignable ty && ty.isProper && receiver.all Ty.isProper then
      Γ.declare? receiver x ty
    else none
  | Γ, .ret e _ =>
    match Γ.returning? with
    | none => none
    | some result => if e.checks Γ && e.ty.assignable result then some Γ else none
  | Γ, .func h body _ =>
    if h.isProper && (h.signature.result = .void || body.alwaysReturns) then
      (Γ.declare? h.receiver h.name h.signature.toTy).bind fun Γ =>
        ((Γ.enterFunction h.signature.result).bindAll? h.bindings).bind fun Γ =>
          (body.check Γ).map Context.leave
    else none
  | Γ, .block b => b.check Γ
  | Γ, .cond c yes no _ =>
    if c.checks Γ then
      ((yes.check Γ.enter).map Context.leave).bind fun Γ => Stmt.checkOption Γ no
    else none
  | Γ, .loop c body _ =>
    if c.checks Γ then (body.check Γ.enter).map Context.leave else none
  | Γ, .expr e _ => if e.checks Γ then some Γ else none
  | Γ, .typeDecl name _ => Γ.declareType? name

def Stmt.checkOption : Context → Option Stmt → Option Context
  | Γ, none => some Γ
  | Γ, some s => (s.check Γ.enter).map Context.leave

def Block.check : Context → Block → Option Context
  | Γ, .mk ss _ => (Stmt.checkList Γ.enter ss).map Context.leave

def Stmt.checkList : Context → List Stmt → Option Context
  | Γ, [] => some Γ
  | Γ, s :: ss => (s.check Γ).bind fun Γ => Stmt.checkList Γ ss
end

section check

-- Their equations are found here, once for all the lemmas that open a statement.
attribute [local simp] Stmt.check Stmt.checkOption Block.check Stmt.checkList

structure Stmt.FuncChecks (h : Heading) (body : Block) (Γ Γ₁ Γ₂ Γ₃ : Context) : Prop where
  proper : h.isProper = true
  returns : h.signature.result = .void ∨ body.alwaysReturns = true
  declared : Γ.declare? h.receiver h.name h.signature.toTy = some Γ₁
  bound : (Γ₁.enterFunction h.signature.result).bindAll? h.bindings = some Γ₂
  body : body.check Γ₂ = some Γ₃

theorem Stmt.FuncChecks.types {h : Heading} {body : Block} {Γ Γ₁ Γ₂ Γ₃ : Context}
    (hc : Stmt.FuncChecks h body Γ Γ₁ Γ₂ Γ₃) :
    h.bindings.map Prod.snd = h.receiver.toList ++ h.signature.parameters := by
  have hp := hc.proper
  simp only [Heading.isProper, Bool.and_eq_true, decide_eq_true_eq] at hp
  have hps : (h.parameters.map fun p => (p.name, p.ty)).map Prod.snd = h.signature.parameters := by
    rw [hp.2, List.map_map]
    rfl
  rw [Heading.bindings]
  split <;> rename_i hr <;> rw [hr]
  · exact congrArg (_ :: ·) hps
  · exact hps

theorem Stmt.check_func_eq_some {h : Heading} {body : Block} {span : Span} {Γ Δ : Context}
    (hs : (Stmt.func h body span).check Γ = some Δ) :
    ∃ Γ₁ Γ₂ Γ₃, Stmt.FuncChecks h body Γ Γ₁ Γ₂ Γ₃ ∧ Δ = Γ₃.leave := by
  rw [Stmt.check] at hs
  split at hs
  · rename_i hc
    rw [Bool.and_eq_true, Bool.or_eq_true, decide_eq_true_eq] at hc
    obtain ⟨Γ₁, h₁, hs⟩ := Option.bind_eq_some_iff.1 hs
    obtain ⟨Γ₂, h₂, hs⟩ := Option.bind_eq_some_iff.1 hs
    obtain ⟨Γ₃, h₃, rfl⟩ := Option.map_eq_some_iff.1 hs
    exact ⟨Γ₁, Γ₂, Γ₃, ⟨hc.1, hc.2, h₁, h₂, h₃⟩, rfl⟩
  · cases hs

theorem Stmt.check_define_eq_some {x : String} {ty : Ty} {e : Expr} {receiver : Option Ty}
    {span : Span} {Γ Δ : Context} (hs : (Stmt.define x ty e receiver span).check Γ = some Δ) :
    e.checks Γ = true ∧ e.ty.assignable ty = true ∧ ty.isProper = true ∧
      receiver.all Ty.isProper = true ∧ Γ.declare? receiver x ty = some Δ := by
  rw [Stmt.check] at hs
  split at hs
  · rename_i hc
    simp only [Bool.and_eq_true] at hc
    exact ⟨hc.1.1.1, hc.1.1.2, hc.1.2, hc.2, hs⟩
  · cases hs

theorem Stmt.check_ret_eq_some {e : Expr} {span : Span} {Γ Δ : Context}
    (hs : (Stmt.ret e span).check Γ = some Δ) :
    Δ = Γ ∧ e.checks Γ = true ∧
      ∃ result, Γ.returning? = some result ∧ e.ty.assignable result = true := by
  rw [Stmt.check] at hs
  split at hs
  · cases hs
  · rename_i result hr
    split at hs <;> cases hs
    rename_i hc
    rw [Bool.and_eq_true] at hc
    exact ⟨rfl, hc.1, result, hr, hc.2⟩

theorem Stmt.check_expr_eq_some {e : Expr} {span : Span} {Γ Δ : Context}
    (hs : (Stmt.expr e span).check Γ = some Δ) : Δ = Γ ∧ e.checks Γ = true := by
  rw [Stmt.check] at hs
  split at hs <;> cases hs
  exact ⟨rfl, ‹_›⟩

theorem Stmt.check_cond_eq_some {c : Expr} {yes : Stmt} {no : Option Stmt} {span : Span}
    {Γ Δ : Context} (hs : (Stmt.cond c yes no span).check Γ = some Δ) :
    c.checks Γ = true ∧
      ∃ Γ₁, yes.check Γ.enter = some Γ₁ ∧ Stmt.checkOption Γ₁.leave no = some Δ := by
  rw [Stmt.check] at hs
  split at hs
  · obtain ⟨Γ₁, h₁, hs⟩ := Option.bind_eq_some_iff.1 hs
    obtain ⟨Γ₂, h₂, rfl⟩ := Option.map_eq_some_iff.1 h₁
    exact ⟨‹_›, Γ₂, h₂, hs⟩
  · cases hs

theorem Stmt.check_loop_eq_some {c : Expr} {body : Stmt} {span : Span} {Γ Δ : Context}
    (hs : (Stmt.loop c body span).check Γ = some Δ) :
    c.checks Γ = true ∧ ∃ Γ₁, body.check Γ.enter = some Γ₁ ∧ Δ = Γ₁.leave := by
  rw [Stmt.check] at hs
  split at hs
  · obtain ⟨Γ₁, h₁, rfl⟩ := Option.map_eq_some_iff.1 hs
    exact ⟨‹_›, Γ₁, h₁, rfl⟩
  · cases hs

theorem Block.check_eq_some {ss : List Stmt} {span : Span} {Γ Δ : Context}
    (hb : (Block.mk ss span).check Γ = some Δ) :
    ∃ Γ₁, Stmt.checkList Γ.enter ss = some Γ₁ ∧ Δ = Γ₁.leave := by
  rw [Block.check] at hb
  obtain ⟨Γ₁, h₁, rfl⟩ := Option.map_eq_some_iff.1 hb
  exact ⟨Γ₁, h₁, rfl⟩

theorem Stmt.checkList_cons_eq_some {s : Stmt} {ss : List Stmt} {Γ Δ : Context}
    (hs : Stmt.checkList Γ (s :: ss) = some Δ) :
    ∃ Γ₁, s.check Γ = some Γ₁ ∧ Stmt.checkList Γ₁ ss = some Δ := by
  rw [Stmt.checkList] at hs
  exact Option.bind_eq_some_iff.1 hs

end check

namespace Context

structure Proper (Γ : Context) : Prop where
  names : ∀ s ∈ Γ.scopes, ∀ x t, s.names.get? x = some t → t.isProper = true
  returns : ∀ s ∈ Γ.scopes, ∀ t, s.returns = some t → t.isProper = true
  types : ∀ x t, Γ.types.get? x = some t → t.isProper = true
  members : ∀ r x t, Γ.members.get? (r, x) = some t → r.isProper = true ∧ t.isProper = true

namespace Proper

variable {Γ Δ : Context}

theorem initial : Context.initial.Proper where
  names s hs x t ht := by
    cases List.mem_singleton.1 hs
    cases ht
  returns s hs t ht := by
    cases List.mem_singleton.1 hs
    cases ht
  types x t ht := by
    have hall : ∀ e ∈ Context.initial.types.entries, e.2.isProper = true := by decide
    exact hall (x, t) (Dict.mem_entries_of_get? ht)
  members r x t ht := by cases ht

theorem declare? (h : Γ.Proper) {receiver : Option Ty} {name : String} {ty : Ty}
    (hty : ty.isProper = true) (hr : receiver.all Ty.isProper = true)
    (hd : Γ.declare? receiver name ty = some Δ) : Δ.Proper := by
  cases receiver with
  | some r =>
    rw [Context.declare?] at hd
    split at hd
    · cases hd
    · cases hd
      refine ⟨h.names, h.returns, h.types, fun r' x t ht => ?_⟩
      rw [Dict.get?_insert] at ht
      split at ht
      · rename_i he
        cases he
        cases ht
        exact ⟨hr, hty⟩
      · exact h.members r' x t ht
  | none =>
    rw [Context.declare?] at hd
    split at hd
    · cases hd
    · cases hd
      refine ⟨?_, ?_, h.types, h.members⟩
      · intro s hs x t ht
        obtain rfl | hs := List.mem_cons.1 hs
        · rw [Dict.get?_insert] at ht
          split at ht
          · cases ht
            exact hty
          · exact h.names Γ.current List.mem_cons_self x t ht
        · exact h.names s (List.mem_cons_of_mem _ hs) x t ht
      · intro s hs t ht
        obtain rfl | hs := List.mem_cons.1 hs
        · exact h.returns Γ.current List.mem_cons_self t ht
        · exact h.returns s (List.mem_cons_of_mem _ hs) t ht

theorem bindAll? (h : Γ.Proper) {bs : List (String × Ty)} (hb : ∀ b ∈ bs, b.2.isProper = true)
    (hd : Γ.bindAll? bs = some Δ) : Δ.Proper := by
  induction bs generalizing Γ with
  | nil =>
    cases hd
    exact h
  | cons b rest ih =>
    obtain ⟨Γ', hΓ', hd⟩ := Option.bind_eq_some_iff.1 hd
    rw [List.forall_mem_cons] at hb
    exact ih (h.declare? hb.1 rfl hΓ') hb.2 hd

theorem declareType? (h : Γ.Proper) {name : String} (hd : Γ.declareType? name = some Δ) :
    Δ.Proper := by
  rw [Context.declareType?] at hd
  split at hd
  · cases hd
  · cases hd
    refine ⟨h.names, h.returns, fun x t ht => ?_, h.members⟩
    rw [Dict.get?_insert] at ht
    split at ht
    · cases ht
      rfl
    · exact h.types x t ht

theorem enterFunction (h : Γ.Proper) {result : Ty} (hr : result.isProper = true) :
    (Γ.enterFunction result).Proper where
  names s hs x t ht := by
    obtain rfl | hs := List.mem_cons.1 hs
    · cases ht
    · exact h.names s hs x t ht
  returns s hs t ht := by
    obtain rfl | hs := List.mem_cons.1 hs
    · cases ht
      exact hr
    · exact h.returns s hs t ht
  types := h.types
  members := h.members

theorem enter (h : Γ.Proper) : Γ.enter.Proper where
  names s hs x t ht := by
    obtain rfl | hs := List.mem_cons.1 hs
    · cases ht
    · exact h.names s hs x t ht
  returns s hs t ht := by
    obtain rfl | hs := List.mem_cons.1 hs
    · exact h.returns Γ.current List.mem_cons_self t ht
    · exact h.returns s hs t ht
  types := h.types
  members := h.members

theorem leave (h : Γ.Proper) : Γ.leave.Proper := by
  rw [Context.leave]
  split
  · exact h
  · rename_i s ss hs
    have hmem : ∀ u ∈ s :: ss, u ∈ Γ.scopes := fun u hu => List.mem_cons_of_mem _ (hs ▸ hu)
    exact ⟨fun u hu => h.names u (hmem u hu), fun u hu => h.returns u (hmem u hu), h.types,
      h.members⟩

theorem typeOf? (h : Γ.Proper) {x : String} {t : Ty} (hx : Γ.typeOf? x = some t) :
    t.isProper = true := by
  obtain ⟨s, hs, hst⟩ := List.exists_of_findSome?_eq_some hx
  exact h.names s hs x t hst

end Proper

end Context

theorem Ty.isProper_of_isNumeric {t : Ty} (h : t.isNumeric = true) : t.isProper = true := by
  cases t with
  | int | float => rfl
  | _ => cases h

theorem BinaryOp.resultTy?_isProper {op : BinaryOp} {l r t : Ty}
    (hn : op.isUniversal = true ∨ l.isNever = false ∧ r.isNever = false)
    (h : op.resultTy? l r = some t) : t.isProper = true := by
  rw [resultTy?] at h
  split at h
  · cases h
    rfl
  · rename_i hu
    obtain ⟨hl, hr⟩ := hn.resolve_left hu
    simp only [hl, hr, Bool.or_self, Bool.false_eq_true, if_false] at h
    split at h
    · cases h
      rfl
    · split at h
      · cases h
      · split at h
        · cases h
          rfl
        · split at h <;> cases h <;> rfl

namespace Expr

/-- The only expression of type `never` is `null`. -/
theorem isProper_or_isNull {Γ : Context} (hΓ : Γ.Proper) :
    ∀ {e : Expr}, e.checks Γ = true → e.ty.isProper = true ∨ e.isNull = true
  | name a x, h => .inl (hΓ.typeOf? (checks_name.1 h))
  | literal a v, h => by
    have hty : (literal a v).ty = v.ty := checks_literal.1 h
    cases v with
    | null => exact .inr rfl
    | _ => exact .inl (hty ▸ rfl)
  | unary a op e, h => by
    obtain ⟨-, hop⟩ := checks_unary.1 h
    refine .inl ?_
    cases op with
    | not =>
      have hty : Ty.bool = (unary a .not e).ty := Option.some.inj hop
      exact hty ▸ rfl
    | negate =>
      rw [UnaryOp.resultTy?] at hop
      split at hop
      · rename_i hn
        have hty : e.ty = (unary a .negate e).ty := Option.some.inj hop
        exact hty ▸ Ty.isProper_of_isNumeric hn
      · cases hop
  | binary a op l r, h => by
    obtain ⟨-, -, hn, hop⟩ := checks_binary.1 h
    exact .inl (BinaryOp.resultTy?_isProper hn hop)
  | call a f args, h => by
    obtain ⟨hf, -, ps, hty, -⟩ := checks_call.1 h
    obtain hp | hnull := isProper_or_isNull hΓ hf
    · rw [hty, Ty.isProper_func] at hp
      exact .inl hp.2
    · cases f with
      | literal b v =>
        cases v with
        | null =>
          rw [show (literal b .null).ty = .never from checks_literal.1 hf] at hty
          cases hty
        | _ => cases hnull
      | _ => cases hnull
  | assign a x e, h => .inl (hΓ.typeOf? (checks_assign.1 h).1)
  | step a op before x, h => .inl (hΓ.typeOf? (checks_step.1 h).1)
  | member a e m, h => .inl (hΓ.members _ _ _ (checks_member.1 h).2.2).2

theorem isFaulty_eq_false {Γ : Context} (hΓ : Γ.Proper) {e : Expr} (h : e.checks Γ = true) :
    e.isFaulty = false := by
  obtain hp | hn := isProper_or_isNull hΓ h
  · rw [isFaulty, Ty.isNever_of_isProper hp, Bool.false_and]
  · rw [isFaulty, hn, Bool.not_true, Bool.and_false]

end Expr

theorem Heading.bindings_isProper {h : Heading} (hp : h.isProper = true) :
    ∀ b ∈ h.bindings, b.2.isProper = true := by
  simp only [Heading.isProper, Bool.and_eq_true, decide_eq_true_eq] at hp
  obtain ⟨⟨hs, hr⟩, hps⟩ := hp
  have hparams : ∀ b ∈ h.parameters.map fun p => (p.name, p.ty), b.2.isProper = true := by
    intro b hb
    obtain ⟨p, hmem, rfl⟩ := List.mem_map.1 hb
    exact (Ty.isProper_func.1 hs).1 p.ty (hps ▸ List.mem_map_of_mem hmem)
  intro b hb
  rw [Heading.bindings] at hb
  split at hb
  · rename_i r he
    obtain rfl | hb := List.mem_cons.1 hb
    · simpa [he] using hr
    · exact hparams b hb
  · exact hparams b hb

mutual
theorem Stmt.check_proper : ∀ {s : Stmt} {Γ Δ : Context}, Γ.Proper → s.check Γ = some Δ → Δ.Proper
  | .define x ty e receiver span, Γ, Δ, h, hs => by
    obtain ⟨-, -, hty, hr, hd⟩ := Stmt.check_define_eq_some hs
    exact h.declare? hty hr hd
  | .ret e span, Γ, Δ, h, hs => by
    obtain ⟨rfl, -⟩ := Stmt.check_ret_eq_some hs
    exact h
  | .func heading body span, Γ, Δ, h, hs => by
    obtain ⟨Γ₁, Γ₂, Γ₃, hc, rfl⟩ := Stmt.check_func_eq_some hs
    have hp := hc.proper
    simp only [Heading.isProper, Bool.and_eq_true] at hp
    have hp₁ := h.declare? hp.1.1 hp.1.2 hc.declared
    have hp₂ := (hp₁.enterFunction (Ty.isProper_func.1 hp.1.1).2).bindAll?
      (heading.bindings_isProper hc.proper) hc.bound
    exact (body.check_proper hp₂ hc.body).leave
  | .block b, Γ, Δ, h, hs => by
    rw [Stmt.check] at hs
    exact b.check_proper h hs
  | .cond c yes no span, Γ, Δ, h, hs => by
    obtain ⟨-, Γ₁, hyes, hno⟩ := Stmt.check_cond_eq_some hs
    exact Stmt.checkOption_proper (yes.check_proper h.enter hyes).leave hno
  | .loop c body span, Γ, Δ, h, hs => by
    obtain ⟨-, Γ₁, hbody, rfl⟩ := Stmt.check_loop_eq_some hs
    exact (body.check_proper h.enter hbody).leave
  | .expr e span, Γ, Δ, h, hs => by
    obtain ⟨rfl, -⟩ := Stmt.check_expr_eq_some hs
    exact h
  | .typeDecl name span, Γ, Δ, h, hs => by
    rw [Stmt.check] at hs
    exact h.declareType? hs

theorem Stmt.checkOption_proper : ∀ {s : Option Stmt} {Γ Δ : Context}, Γ.Proper →
    Stmt.checkOption Γ s = some Δ → Δ.Proper
  | none, Γ, Δ, h, hs => by
    cases hs
    exact h
  | some s, Γ, Δ, h, hs => by
    rw [Stmt.checkOption] at hs
    obtain ⟨Γ₁, h₁, rfl⟩ := Option.map_eq_some_iff.1 hs
    exact (s.check_proper h.enter h₁).leave

theorem Block.check_proper : ∀ {b : Block} {Γ Δ : Context}, Γ.Proper → b.check Γ = some Δ → Δ.Proper
  | .mk ss span, Γ, Δ, h, hs => by
    obtain ⟨Γ₁, h₁, rfl⟩ := Block.check_eq_some hs
    exact (Stmt.checkList_proper h.enter h₁).leave

theorem Stmt.checkList_proper : ∀ {ss : List Stmt} {Γ Δ : Context}, Γ.Proper →
    Stmt.checkList Γ ss = some Δ → Δ.Proper
  | [], Γ, Δ, h, hs => by
    cases hs
    exact h
  | s :: ss, Γ, Δ, h, hs => by
    obtain ⟨Γ₁, hc, hcs⟩ := Stmt.checkList_cons_eq_some hs
    exact Stmt.checkList_proper (s.check_proper h hc) hcs
end

end TypedScript
