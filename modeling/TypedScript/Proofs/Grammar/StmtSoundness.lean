import TypedScript.Proofs.Grammar.Recounts

namespace TypedScript

open Parse Grammar Reader

variable (T : String → Option Ty)

namespace Ty

theorem resolve_spells (Γ : Context) (name : Token) :
    (resolve Γ name).Spells fun k ts t k' => ts = [] ∧ k' = k ∧
      (Γ.Within T → T name.value = some t) := by
  rw [resolve, Context.typeNamed]
  cases ht : Γ.types.get? name.value with
  | some t => exact .pure fun _ => ⟨rfl, rfl, fun hT => hT _ _ ht⟩
  | none => exact .fail

structure Spelled (n : Nat) : Prop where
  type : ∀ Γ, (parseAt n Γ).Spells fun _ ts t _ => Γ.Within T → Annotates T ts t
  function : ∀ Γ, (parseFunctionAt n Γ).Spells fun _ ts t _ => Γ.Within T → Annotates T ts t
  list : ∀ Γ, (parseListAt n Γ).Spells fun _ us ts _ => Γ.Within T → AnnotatesAll T us ts
  result : ∀ Γ, (parseResultAt n Γ).Spells fun _ ts t _ => Γ.Within T → Returns T ts t

namespace Spelled

variable {T}

theorem zero : Spelled T 0 where
  type _ := .exhausted
  function _ := .exhausted
  list _ := .exhausted
  result _ := .exhausted

theorem succ {n : Nat} (h : Spelled T n) : Spelled T (n + 1) where
  type Γ := by
    rw [parseAt]
    refine Spells.look fun kind => ?_
    split
    · refine Spells.token (.expect (by decide)) fun x => (resolve_spells T Γ x).mono ?_
      rintro _ _ t _ ⟨rfl, -, ht⟩ hx - hT
      exact .name hx (ht hT)
    · exact (h.function Γ).mono fun _ _ _ _ ht _ => ht
    · exact .refuse
  function Γ := by
    rw [parseFunctionAt]
    refine Spells.token (.expect (by decide)) fun k => ?_
    refine Spells.token (.expect (by decide)) fun o => ?_
    refine (h.list Γ).bind fun ps => Spells.token (.expect (by decide)) fun c => ?_
    refine (h.result Γ).bind fun r => .pure fun _ _ rs hr hc _ us hps ho hk hT => ?_
    rw [List.append_nil]
    exact .func hk ho (hps hT) hc (hr hT)
  list Γ := by
    rw [parseListAt]
    refine Spells.look fun _ => ?_
    split
    · exact .pure fun _ _ _ => .none
    · refine (h.type Γ).bind fun t => Spells.look fun _ => ?_
      split
      · refine .pure fun _ _ _ us ht _ hT => ?_
        rw [List.append_nil]
        exact .last (ht hT)
      · refine Spells.token (.expect (by decide)) fun comma => (h.list Γ).bind fun ts => ?_
        refine .pure fun _ _ vs hts hk _ _ us ht _ hT => ?_
        rw [List.append_nil]
        exact .more (ht hT) hk (hts hT)
  result Γ := by
    rw [parseResultAt]
    refine Spells.look fun kind => ?_
    split <;> rename_i hk
    · subst hk
      refine Spells.next (fun _ _ _ h => by cases h) fun arrow => (h.type Γ).mono ?_
      exact fun _ us t _ ht hk hT => .type hk (ht hT)
    · exact .pure fun _ _ _ => .void

theorem all (n : Nat) : Spelled T n := by
  induction n with
  | zero => exact zero
  | succ n ih => exact ih.succ

end Spelled

end Ty

namespace Stmt

theorem parseDeclared_spells (what : String) (Γ : Context) :
    (parseDeclared what Γ).Spells fun _ ts d _ => Γ.Within T → Declares T ts d.1 d.2.value := by
  rw [parseDeclared]
  refine Spells.token (.demand (by decide) _) fun first => Spells.look fun _ => ?_
  split <;> rename_i hk
  · subst hk
    refine Spells.next ?_ fun dot => ?_
    · intro ts d k' h
      cases h
    refine (Ty.resolve_spells T Γ first).bind fun t => ?_
    refine Spells.token (.demand (by decide) _) fun m => ?_
    refine .pure ?_
    rintro _ hm _ _ ⟨rfl, rfl, ht⟩ hd hfirst hT
    exact .member hfirst (ht hT) hd hm
  · exact .pure fun _ _ hfirst _ => .name hfirst

theorem expr_spells (n : Nat) (Γ : Context) : (Expr.parseAt n Γ .default).Spells fun _ ts e _ =>
    Derives .assignment ts e.tree :=
  ((Expr.Spelled.all n).expr Γ .default).mono fun _ _ _ _ he => (he (by decide)).1.assignment

theorem parseExprStmt_spells (n : Nat) (Γ : Context) : (parseExprStmt n Γ).Spells fun _ ts s _ =>
    Statement T ts s ∧ s.endsOpen = false := by
  refine (expr_spells n Γ).bind fun e => Spells.token (.demand (by decide) _) fun semicolon => ?_
  refine (Stays.spanSince _).andThen fun span => .pure fun _ hs _ es he => ?_
  exact ⟨.expr he hs, rfl⟩

inductive Noted : List Token → Option Ty → Prop
  | none : Noted [] none
  | some {c : Token} {us : List Token} {t : Ty} (hc : c.kind = .colon) (ht : Annotates T us t) :
      Noted (c :: us) (some t)

theorem parseAscription_spells (n : Nat) (Γ : Context) :
    Parse.Spells (parseAscription n Γ) fun _ ts t _ => Γ.Within T → Noted T ts t := by
  rw [parseAscription]
  refine Spells.look fun _ => ?_
  split <;> rename_i hk
  · subst hk
    refine Spells.next (fun _ _ _ h => by cases h) fun colon => ?_
    refine ((Ty.Spelled.all n : Ty.Spelled T n).type Γ).bind fun t => ?_
    refine .pure fun _ _ us ht hc hT => ?_
    rw [List.append_nil]
    exact .some hc (ht hT)
  · exact .pure fun _ _ _ => .none

inductive Valued : List Token → Option Expr → Prop
  | none : Valued [] none
  | some {a : Token} {es : List Token} {e : Expr} (ha : a.kind = .assignment)
      (he : Derives .assignment es e.tree) : Valued (a :: es) (some e)

theorem parseInitial_spells (n : Nat) (annotated : Bool) (Γ : Context) :
    (parseInitial n annotated Γ).Spells fun _ ts e _ =>
      Valued ts e ∧ (annotated = false → e.isSome = true) := by
  rw [parseInitial]
  refine Spells.look fun _ => ?_
  split <;> rename_i hk
  · subst hk
    refine Spells.next (fun _ _ _ h => by cases h) fun assignment => ?_
    refine (expr_spells n Γ).bind fun e => .pure fun _ _ es he ha => ?_
    rw [List.append_nil]
    exact ⟨.some ha he, fun _ => rfl⟩
  · cases annotated with
    | true => exact .pure fun _ _ => ⟨.none, nofun⟩
    | false =>
      refine ⟨nofun, fun herr => ?_⟩
      cases herr
      exact List.prefix_rfl

theorem parseDefinition_spells (n : Nat) (Γ : Context) :
    (parseDefinition n Γ).Spells fun k ts d _ => k = .kwLet → Γ.Within T →
      ∀ ty, d.check = (ty, none) →
        Statement T ts (.define d.name.value ty d.value d.receiver d.span) := by
  rw [parseDefinition]
  refine Spells.next (fun _ _ _ h => by cases h) fun keyword => ?_
  refine (parseDeclared_spells T _ Γ).bind fun (receiver, name) => ?_
  refine (parseAscription_spells T n Γ).bind fun annotation => ?_
  refine (parseInitial_spells n annotation.isSome Γ).bind fun value => ?_
  refine Spells.token (.demand (by decide) _) fun semicolon => ?_
  refine (Stays.spanSince _).andThen fun span => .pure ?_
  intro _ hs _ vs hvalue _ as hnoted _ ds hd hk hT ty hty
  obtain ⟨hvalue, hsome⟩ := hvalue
  have hd := hd hT
  cases hnoted hT with
  | none =>
    cases hvalue with
    | none => cases hsome rfl
    | some ha he =>
      rw [Definition.check] at hty
      dsimp only [Option.getD] at hty ⊢
      split at hty <;> cases hty
      simpa using Statement.inferred hk hd ha he hs
  | @some c us t hc ht =>
    obtain rfl : t = ty := by
      rw [Definition.check] at hty
      dsimp only at hty
      split at hty <;> cases hty
      rfl
    cases hvalue with
    | none => simpa using Statement.unset hk hd hc ht hs rfl
    | some ha he => simpa using Statement.annotated hk hd hc ht ha he hs

theorem reportSome_recounts (fault : Option Diagnostic) :
    (reportSome fault).Recounts T fun k ts _ k' => ts = [] ∧ k' = k ∧ fault = none := by
  cases fault with
  | none => exact .pure fun _ => ⟨rfl, rfl, rfl⟩
  | some d => exact .report d

/-- There is a statement, spelled by the tokens. An `else` may follow it only if none of the
conditionals at its end would take it. -/
def Told (ts : List Token) (s : Option Stmt) (k' : Token.Kind) : Prop :=
  ∃ t, s = some t ∧ Statement T ts t ∧ (k' = .kwElse → t.endsOpen = false)

variable {T} in
theorem Told.of_closed {ts : List Token} {s : Stmt} (h : Statement T ts s)
    (hs : s.endsOpen = false) (k' : Token.Kind) : Told T ts (some s) k' :=
  ⟨s, rfl, h, fun _ => hs⟩

theorem parseLet_recounts (n : Nat) :
    (parseLet n).Recounts T fun k ts s k' => k = .kwLet → Told T ts s k' := by
  refine (Recounts.reading fun Γ => (parseDefinition_spells T n Γ).mono fun _ _ _ _ hd hT hk =>
    hd hk hT).bind fun d => ?_
  rcases hcheck : d.check with ⟨ty, fault⟩
  refine (reportSome_recounts T fault).bind fun _ => ?_
  refine (Recounts.declaring .of_declare).bind fun declared => .pure ?_
  rintro _ _ _ ⟨rfl, rfl, rfl⟩ _ _ ⟨rfl, rfl, rfl⟩ _ ts hd hk
  simpa using Told.of_closed (hd hk ty rfl) rfl _

theorem parseReturned_spells (n : Nat) (keyword : Token) (Γ : Context) :
    (parseReturned n keyword Γ).Spells fun _ ts e _ =>
      (ts = [] ∧ e.tree = .literal .void) ∨ Derives .assignment ts e.tree := by
  rw [parseReturned]
  refine Spells.look fun _ => ?_
  split
  · exact .pure fun _ _ => .inl ⟨rfl, rfl⟩
  · exact (expr_spells n Γ).mono fun _ _ _ _ he _ => .inr he

theorem parseReturn_recounts (n : Nat) :
    (reading (parseReturn n)).Recounts T fun k ts s k' => k = .kwReturn → Told T ts s k' := by
  change (reading fun Γ => parseReturn n Γ).Recounts T _
  simp only [parseReturn, reading_bind]
  refine Recounts.next (R := fun k ts s k' => k = .kwReturn → Told T ts s k')
    (fun _ _ _ h => by cases h) fun keyword => ?_
  refine (Recounts.reading fun Γ => (parseReturned_spells n keyword Γ).mono fun _ _ _ _ he _ =>
    he).bind fun value => ?_
  refine Recounts.token (.demand (by decide) _) fun semicolon => ?_
  refine Recounts.stays (Stays.spanSince _) fun span => ?_
  have htold : ∀ k, semicolon.kind = .semicolon → ∀ (_ : Token.Kind) es,
      (es = [] ∧ value.tree = .literal .void ∨ Derives .assignment es value.tree) →
      keyword.kind = .kwReturn →
        Told T (keyword :: (es ++ [semicolon])) (some (.ret value span)) k := by
    rintro k hs _ es (⟨rfl, he⟩ | he) hk
    · exact .of_closed (.bare hk hs he) rfl _
    · exact .of_closed (.ret hk he hs) rfl _
  refine .choose fun Γ => ?_
  split
  · exact .reported _ (.pure _)
  · split
    · exact .onCursor (.pure htold)
    · exact .reported _ (.pure _)

theorem parseParametersAt_spells (n : Nat) (Γ : Context) :
    (parseParametersAt n Γ).Spells fun _ ts ps _ => Γ.Within T → Parameters T ts ps := by
  induction n with
  | zero => exact .exhausted
  | succ n ih =>
    rw [parseParametersAt]
    refine Spells.look fun _ => ?_
    split
    · exact .pure fun _ _ _ => .none
    · refine Spells.token (.demand (by decide) _) fun x => ?_
      refine Spells.token (.expect (by decide)) fun colon => ?_
      refine ((Ty.Spelled.all n : Ty.Spelled T n).type Γ).bind fun t => Spells.look fun _ => ?_
      split
      · refine .pure fun _ _ _ us ht hk hx _ hT => ?_
        rw [List.append_nil]
        exact .last hx hk (ht hT)
      · refine Spells.token (.demand (by decide) _) fun comma => ih.bind fun ps => ?_
        refine .pure fun _ _ vs hps hl _ _ us ht hk hx _ hT => ?_
        rw [List.append_nil]
        exact .more hx hk (ht hT) hl (hps hT)

theorem parseHeading_spells (n : Nat) (Γ : Context) : (parseHeading n Γ).Spells fun k ts h _ =>
    k = .kwFunc → Γ.Within T → ∀ bs body (span : Span), Braces T bs body →
      Statement T (ts ++ bs) (.func h.2.2 body span) := by
  rw [parseHeading]
  refine Spells.next (fun _ _ _ h => by cases h) fun keyword => ?_
  refine (parseDeclared_spells T _ Γ).bind fun (receiver, name) => ?_
  refine Spells.token (.expect (by decide)) fun o => ?_
  refine (parseParametersAt_spells T n Γ).bind fun ps => ?_
  refine Spells.token (.expect (by decide)) fun c => ?_
  refine ((Ty.Spelled.all n : Ty.Spelled T n).result Γ).bind fun r => .pure ?_
  intro _ _ rs hr hc _ us hps ho _ ds hd hk hT bs body span hb
  simpa using Statement.func hk (hd hT) ho (hps hT) hc (hr hT) hb

theorem bindAll_recounts (bs : List (String × Ty)) :
    (bindAll bs).Recounts T fun k ts _ k' => ts = [] ∧ k' = k := by
  induction bs with
  | nil => exact .pure fun _ => ⟨rfl, rfl⟩
  | cons b bs ih =>
    obtain ⟨name, ty⟩ := b
    rw [bindAll]
    -- the place differs from state to state, but only a report tells it
    have hbind (place : Position) : (declaring (·.bind name ty place)).Recounts T
        fun k ts ok k' => ts = [] ∧ k' = k ∧ ok = true := .declaring .of_bind
    have hdeclaring : Recounts T (fun s => declaring (·.bind name ty s.cursor.place) s)
        fun k ts ok k' => ts = [] ∧ k' = k ∧ ok = true :=
      ⟨fun hok => (hbind _).ok hok, fun herr => (hbind _).error herr⟩
    refine hdeclaring.bind fun _ => ih.mono ?_
    rintro _ _ _ _ ⟨rfl, rfl⟩ _ _ ⟨rfl, rfl, -⟩
    exact ⟨rfl, rfl⟩

theorem parseTypeDecl_recounts :
    parseTypeDecl.Recounts T fun k ts s k' => k = .kwType → Told T ts s k' := by
  rw [parseTypeDecl]
  refine Recounts.next (fun _ _ _ h => by cases h) fun keyword => ?_
  refine Recounts.token (.demand (by decide) _) fun name => ?_
  refine Recounts.token (.demand (by decide) _) fun semicolon => ?_
  refine (Recounts.declaring .of_declareType).bind fun declared => ?_
  refine Recounts.stays (Stays.spanSince _) fun span => .pure ?_
  rintro _ _ _ ⟨rfl, rfl, rfl⟩ hs hx hk
  exact .of_closed (.typeDecl hk hx hs) rfl _

variable {T} in
theorem cons_recounts {p : Parse Reader (Option Stmt)} {q : Parse Reader (List Stmt)}
    {S : List Token → List Stmt → Token.Kind → Prop}
    (hp : p.Recounts T fun _ ts s k' => Told T ts s k')
    (hq : q.Recounts T fun _ us ss k' => S us ss k')
    (hS : ∀ ts t us ss k', Statement T ts t → S us ss k' → S (ts ++ us) (t :: ss) k') :
    (do
      let s ← p
      let rest ← q
      return s.toList ++ rest).Recounts T fun _ ts ss k' => S ts ss k' := by
  refine hp.bind fun s => hq.bind fun ss => .pure ?_
  rintro k' _ us hss _ ts ⟨t, rfl, ht, -⟩
  rw [List.append_nil]
  exact hS ts t us ss k' ht hss

structure Recounted (n : Nat) : Prop where
  stmt : (parseAt n).Recounts T fun _ ts s k' => Told T ts s k'
  form : ∀ form, (parseFormAt n form).Recounts T fun k ts s k' =>
    Form.ofKind k = form → Told T ts s k'
  func : (parseFuncAt n).Recounts T fun k ts s k' => k = .kwFunc → Told T ts s k'
  body : ∀ heading, (parseBodyAt n heading).Recounts T fun _ ts b _ => Braces T ts b
  block : (parseBlockAt n).Recounts T fun _ ts b _ => Braces T ts b
  statements : (parseStatementsAt n).Recounts T fun _ ts ss _ =>
    ∃ us c, ts = us ++ [c] ∧ c.kind = .closeCurly ∧ Sequence T us ss
  branch : (parseBranchAt n).Recounts T fun _ ts s k' => Told T ts s k'
  orElse : (parseElseAt n).Recounts T fun k ts no k' =>
    (ts = [] ∧ k' = k ∧ k ≠ .kwElse ∧ no = none) ∨
      k = .kwElse ∧ ∃ l us s, ts = l :: us ∧ l.kind = .kwElse ∧ no = some s ∧ Told T us s k'
  cond : (parseCondAt n).Recounts T fun k ts s k' => k = .kwIf → Told T ts s k'
  loop : (parseLoopAt n).Recounts T fun k ts s k' => k = .kwWhile → Told T ts s k'

namespace Recounted

variable {T} {n : Nat}

theorem zero : Recounted T 0 where
  stmt := .exhausted
  form _ := .exhausted
  func := .exhausted
  body _ := .exhausted
  block := .exhausted
  statements := .exhausted
  branch := .exhausted
  orElse := .exhausted
  cond := .exhausted
  loop := .exhausted

theorem form_succ (h : Recounted T n) (form : Form) : (parseFormAt (n + 1) form).Recounts T
    fun k ts s k' => Form.ofKind k = form → Told T ts s k' := by
  -- no form but the expression begins with more than one kind of token
  have hkind : ∀ {k : Token.Kind} {form : Form}, Form.ofKind k = form → match form with
      | .define => k = .kwLet
      | .ret => k = .kwReturn
      | .func => k = .kwFunc
      | .block => k = .openCurly
      | .cond => k = .kwIf
      | .loop => k = .kwWhile
      | .typeDecl => k = .kwType
      | .expression => True := by
    rintro k _ rfl
    cases k <;> trivial
  simp only [parseFormAt]
  cases form with
  | expression =>
    refine .map (.reading fun Γ => (parseExprStmt_spells T n Γ).mono fun _ _ s _ hs _ _ => ?_)
    exact .of_closed hs.1 hs.2 _
  | define => exact (parseLet_recounts T n).mono fun _ _ _ _ hs hk => hs (hkind hk)
  | ret => exact (parseReturn_recounts T n).mono fun _ _ _ _ hs hk => hs (hkind hk)
  | func => exact h.func.mono fun _ _ _ _ hs hk => hs (hkind hk)
  | block => exact .map (h.block.mono fun _ _ _ _ hb _ => .of_closed (.block hb) rfl _)
  | cond => exact h.cond.mono fun _ _ _ _ hs hk => hs (hkind hk)
  | loop => exact h.loop.mono fun _ _ _ _ hs hk => hs (hkind hk)
  | typeDecl => exact (parseTypeDecl_recounts T).mono fun _ _ _ _ hs hk => hs (hkind hk)

theorem func_succ (h : Recounted T n) : (parseFuncAt (n + 1)).Recounts T
    fun k ts s k' => k = .kwFunc → Told T ts s k' := by
  rw [parseFuncAt]
  refine (Recounts.reading fun Γ => (parseHeading_spells T n Γ).mono fun _ _ _ _ hh hT hk =>
    hh hk hT).bind ?_
  rintro ⟨keyword, name, heading⟩
  refine (Recounts.declaring .of_declare).bind fun declared => ?_
  refine ((h.body heading).inScope (·.enterFunction heading.signature.result)
    fun _ => rfl).bind fun body => ?_
  refine (reportSome_recounts T _).bind fun _ => ?_
  refine Recounts.stays (Stays.spanSince _) fun span => .pure ?_
  rintro _ _ _ ⟨rfl, rfl, -⟩ _ bs hbody _ _ ⟨rfl, rfl, rfl⟩ _ ts hheading hk
  simpa using Told.of_closed (hheading hk bs body span hbody) rfl _

theorem statements_succ (h : Recounted T n) : (parseStatementsAt (n + 1)).Recounts T
    fun _ ts ss _ => ∃ us c, ts = us ++ [c] ∧ c.kind = .closeCurly ∧ Sequence T us ss := by
  rw [parseStatementsAt]
  refine Recounts.look fun kind => ?_
  have hcons : ∀ ts t vs ss (_ : Token.Kind), Statement T ts t →
      (∃ us c, vs = us ++ [c] ∧ c.kind = .closeCurly ∧ Sequence T us ss) →
      ∃ us c, ts ++ vs = us ++ [c] ∧ c.kind = .closeCurly ∧ Sequence T us (t :: ss) := by
    rintro ts t _ ss - ht ⟨us, c, rfl, hc, hss⟩
    exact ⟨ts ++ us, c, by simp, hc, .cons ht hss⟩
  cases kind with
  | closeCurly =>
    refine Recounts.token (.expect (by decide)) fun c => .pure fun _ hc _ => ?_
    exact ⟨[], c, rfl, hc, .nil⟩
  | eof =>
    refine ⟨(fun h => by cases h), fun herr => ?_⟩
    cases herr
    exact List.prefix_rfl
  | semicolon =>
    refine Recounts.next (fun _ _ _ h => by cases h) fun s => h.statements.mono ?_
    rintro _ _ ss _ ⟨us, c, rfl, hc, hss⟩ hs
    exact ⟨s :: us, c, rfl, hc, .stray hs hss⟩
  | _ => exact (cons_recounts h.stmt h.statements hcons).mono fun _ _ _ _ hs _ => hs

theorem cond_succ (h : Recounted T n) : (parseCondAt (n + 1)).Recounts T
    fun k ts s k' => k = .kwIf → Told T ts s k' := by
  rw [parseCondAt]
  refine Recounts.next (fun _ _ _ h => by cases h) fun keyword => ?_
  refine (Recounts.reading fun Γ => (expr_spells n Γ).mono fun _ _ _ _ hc _ => hc).bind fun c => ?_
  refine h.branch.bind fun yes => h.orElse.bind fun no => ?_
  refine Recounts.stays (Stays.spanSince _) fun span => .pure ?_
  rintro k' k ts hno _ ys ⟨yes, rfl, hyes, hopen⟩ _ cs hc hk
  obtain ⟨rfl, rfl, hne, rfl⟩ | ⟨rfl, l, us, s, rfl, hl, rfl, no, rfl, hno, hno'⟩ := hno
  · have hs : Statement T _ (.cond c yes none span) := .cond hk hc hyes
    exact ⟨_, rfl, by simpa using hs, fun he => absurd he hne⟩
  · have hs : Statement T _ (.cond c yes (some no) span) := .condElse hk hc hyes (hopen rfl) hl hno
    exact ⟨_, rfl, by simpa using hs, hno'⟩

theorem loop_succ (h : Recounted T n) : (parseLoopAt (n + 1)).Recounts T
    fun k ts s k' => k = .kwWhile → Told T ts s k' := by
  rw [parseLoopAt]
  refine Recounts.next (fun _ _ _ h => by cases h) fun keyword => ?_
  refine (Recounts.reading fun Γ => (expr_spells n Γ).mono fun _ _ _ _ hc _ => hc).bind fun c => ?_
  refine h.branch.bind fun body => Recounts.stays (Stays.spanSince _) fun span => .pure ?_
  rintro _ _ bs ⟨body, rfl, hbody, hopen⟩ _ cs hc hk
  exact ⟨_, rfl, by simpa using .loop hk hc hbody, hopen⟩

theorem succ (h : Recounted T n) : Recounted T (n + 1) where
  stmt := by
    rw [parseAt]
    exact .recovering (.look fun k => (h.form _).mono fun _ _ _ _ hs hk => hs (hk ▸ rfl))
  form := h.form_succ
  func := h.func_succ
  body heading := by
    rw [parseBodyAt]
    refine (bindAll_recounts T _).bind fun _ => h.block.mono ?_
    rintro _ _ _ _ hb _ _ ⟨rfl, rfl⟩
    exact hb
  block := by
    rw [parseBlockAt]
    refine Recounts.token (.demand (by decide) _) fun opening => ?_
    refine (h.statements.inScope Context.enter fun _ => rfl).bind fun ss => ?_
    refine Recounts.stays (Stays.spanSince _) fun span => .pure ?_
    rintro _ _ _ ⟨us, c, rfl, hc, hss⟩ ho
    simpa using Braces.mk ho hss hc
  statements := h.statements_succ
  branch := by
    rw [parseBranchAt]
    exact h.stmt.inScope Context.enter fun _ => rfl
  orElse := by
    rw [parseElseAt]
    refine Recounts.look fun kind => ?_
    split <;> rename_i hk
    · subst hk
      refine Recounts.next (fun _ _ _ h => by cases h) fun l => h.branch.bind fun s => .pure ?_
      intro _ _ us hs hl
      exact .inr ⟨rfl, l, us, s, by simp, hl, rfl, hs⟩
    · exact .pure fun _ hkind => .inl ⟨rfl, hkind, hk, rfl⟩
  cond := h.cond_succ
  loop := h.loop_succ

theorem all (n : Nat) : Recounted T n := by
  induction n with
  | zero => exact zero
  | succ n ih => exact ih.succ

end Recounted

end Stmt

namespace Cursor

theorem ofTokens_append {last : Token} (hlast : last.kind = .eof) (ts : List Token) :
    ofTokens (ts ++ [last]) = start ts last := by
  simp [ofTokens, hlast]

@[simp] theorem upcoming_start (ts : List Token) (last : Token) :
    (start ts last).upcoming = ts ++ [last] := by
  cases ts <;> rfl

@[simp] theorem reported_start (ts : List Token) (last : Token) :
    (start ts last).reported = [] := by
  cases ts <;> rfl

theorem Reaches.eq_of_kind {c d : Cursor} {ts us : List Token} {last : Token}
    (h : c.Reaches us d) (hc : c.upcoming = ts ++ [last]) (hts : ∀ t ∈ ts, t.kind ≠ .eof)
    (hd : d.kind = .eof) : us = ts := by
  rw [h.upcoming, Cursor.upcoming, List.append_eq_append_iff] at hc
  obtain ⟨vs, rfl, hvs⟩ | ⟨vs, rfl, hvs⟩ := hc
  · cases vs with
    | nil => exact (List.append_nil us).symm
    | cons v vs =>
      have hv : d.current = v := (List.cons.inj hvs).1
      exact absurd hd (hts d.current (by simp [hv]))
  · cases vs with
    | nil => exact List.append_nil ts
    | cons v vs => simp at hvs

end Cursor

namespace Program

variable {T} in
theorem parseStatementsAt_recounts (n : Nat) : (parseStatementsAt n).Recounts T fun _ ts ss k' =>
    Sequence T ts ss ∧ k' = .eof := by
  induction n with
  | zero => exact .exhausted
  | succ n ih =>
    rw [parseStatementsAt]
    refine Recounts.look fun kind => ?_
    cases kind with
    | eof => exact .pure fun _ hk => ⟨.nil, hk⟩
    | semicolon =>
      refine Recounts.next (fun _ _ _ h => by cases h) fun s => ih.mono ?_
      exact fun _ us ss _ hss hs => ⟨.stray hs hss.1, hss.2⟩
    | _ =>
      refine (Stmt.cons_recounts (Stmt.Recounted.all n).stmt ih ?_).mono fun _ _ _ _ hs _ => hs
      exact fun _ _ _ _ _ ht hss => ⟨.cons ht hss.1, hss.2⟩

/-- A list of tokens that is read without a report is that of the statements read, one after the
other, with nothing between them but stray semicolons. A statement is left out only with a new
report. -/
theorem sequence_of_ofTokens {ts : List Token} {last : Token} (hlast : last.kind = .eof)
    (hts : ∀ t ∈ ts, t.kind ≠ .eof) {Γ : Context} {p : Program}
    (h : ofTokens (ts ++ [last]) Γ = (p, [])) :
    Sequence p.context.types.get? ts p.statements ∧
    ∀ n r r', r.cursor.Closed → Stmt.parseAt n r = .ok none r' →
      ∃ ds, ds ≠ [] ∧ r'.cursor.reported = r.cursor.reported ++ ds := by
  constructor
  · rw [ofTokens, Cursor.ofTokens_append hlast] at h
    dsimp only at h
    split at h
    · rename_i ss r hr
      have hquiet : r.cursor.reported = [] := congrArg Prod.snd h
      cases congrArg Prod.fst h
      obtain ⟨-, hP⟩ := (parseStatementsAt_recounts _).ok hr
      obtain ⟨-, hread⟩ := hP (by simpa using hquiet) fun _ _ hx => hx
      obtain ⟨us, hus, hss, hk⟩ := hread (Cursor.closed_start ts hlast)
      exact hus.eq_of_kind (Cursor.upcoming_start ts last) hts hk ▸ hss
    · exact absurd (congrArg Prod.snd h) (by simp)
    · cases h
  · intro n r r' hc hr
    obtain ⟨⟨ds, hds⟩, hP⟩ := (Stmt.Recounted.all (T := r'.context.types.get?) n).stmt.ok hr
    refine ⟨ds, ?_, hds.symm⟩
    rintro rfl
    obtain ⟨-, hread⟩ := hP (by simpa using hds.symm) fun _ _ hx => hx
    obtain ⟨_, _, t, ht, _⟩ := hread hc
    cases ht

/-- `let y: int; ; if y if y y++; else { y = null; }`, where the `else` belongs to the second
`if`. -/
theorem sequence_of_danglingElse :
    let ts : List Token := [(.kwLet, "let"), (.identifier, "y"), (.colon, ":"),
      (.identifier, "int"), (.semicolon, ";"), (.semicolon, ";"), (.kwIf, "if"), (.identifier, "y"),
      (.kwIf, "if"), (.identifier, "y"), (.identifier, "y"), (.plusPlus, "++"), (.semicolon, ";"),
      (.kwElse, "else"), (.openCurly, "\x7b"), (.identifier, "y"), (.assignment, "="),
      (.kwNull, "null"), (.semicolon, ";"), (.closeCurly, "\x7d")].map
      fun (kind, value) => ⟨kind, value, ⟨.nowhere, .nowhere⟩⟩
    let last := Token.endAt .nowhere
    last.kind = .eof ∧ (∀ t ∈ ts, t.kind ≠ .eof) ∧ ∃ p,
      ofTokens (ts ++ [last]) .initial = (p, []) ∧
      Sequence p.context.types.get? ts p.statements ∧
      ∀ n r r', r.cursor.Closed → Stmt.parseAt n r = .ok none r' →
        ∃ ds, ds ≠ [] ∧ r'.cursor.reported = r.cursor.reported ++ ds := by
  intro ts last
  have hts : ∀ t ∈ ts, t.kind ≠ .eof := by decide
  have h : ofTokens (ts ++ [last]) .initial = ((ofTokens (ts ++ [last]) .initial).1, []) :=
    ofTokens_eq (by decide +kernel)
  exact ⟨rfl, hts, _, h, sequence_of_ofTokens rfl hts h⟩

end Program

end TypedScript
