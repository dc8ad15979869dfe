import TypedScript.Program.Basic
import TypedScript.Proofs.Static.ReadExpr

namespace TypedScript

/-- What a parser of statements gives, between the contexts before and behind it, if nothing is
reported up to its end. -/
structure Parse.Leads {α : Type} (p : Parse Reader α) (Q : Context → α → Context → Prop) :
    Prop where
  run : ∀ {r r' a}, p r = .ok a r' → r'.cursor.reported = [] →
    r.cursor.reported = [] ∧ Q r.context a r'.context

namespace Parse.Leads

open Reader

variable {α β : Type} {p : Parse Reader α} {Q : Context → α → Context → Prop}
  {R : Context → β → Context → Prop} {f : α → Parse Reader β}

theorem mono {Q' : Context → α → Context → Prop} (h : p.Leads Q)
    (hq : ∀ Γ a Δ, Q Γ a Δ → Q' Γ a Δ) : p.Leads Q' where
  run hp hc := (h.run hp hc).imp_right (hq _ _ _)

theorem pure {a : α} (h : ∀ Γ, Q Γ a Γ) : Leads (Pure.pure a : Parse Reader α) Q where
  run hb hc := by
    cases hb
    exact ⟨hc, h _⟩

theorem exhausted : Leads (Parse.exhausted : Parse Reader α) Q := ⟨nofun⟩

theorem bind (h : p.Leads Q) (hf : ∀ a, (f a).Leads fun Γ' b Δ => ∀ Γ, Q Γ a Γ' → R Γ b Δ) :
    (p >>= f).Leads R where
  run hb hc := by
    obtain ⟨a, t, hp, hb⟩ := Parse.bind_eq_ok.1 hb
    obtain ⟨ht, hr⟩ := (hf a).run hb hc
    obtain ⟨hc, hq⟩ := h.run hp ht
    exact ⟨hc, hr _ hq⟩

theorem map {g : α → β} (h : p.Leads fun Γ a Δ => R Γ (g a) Δ) : (g <$> p).Leads R :=
  h.bind (f := fun a => Pure.pure (g a)) fun _ => .pure fun _ _ hr => hr

theorem reading {q : Context → Parse Cursor α} {S : Context → α → Prop}
    (h : ∀ Γ, (q Γ).Cleanly (S Γ)) : (Reader.reading q).Leads fun Γ a Δ => Δ = Γ ∧ S Γ a where
  run {r r' a} hp hc := by
    rw [Reader.reading] at hp
    split at hp
    · rename_i b c hq
      cases hp
      obtain ⟨hr, hs⟩ := (h _).run hq hc
      exact ⟨hr, rfl, hs⟩
    · cases hp
    · cases hp

theorem after {q : Context → Parse Cursor α} {S : Context → α → Prop}
    (h : ∀ Γ, (q Γ).Cleanly (S Γ)) (hf : ∀ a, (f a).Leads fun Γ b Δ => S Γ a → R Γ b Δ) :
    (Reader.reading q >>= f).Leads R := by
  refine (reading h).bind fun a => (hf a).mono fun Γ b Δ hr Γ' hq => ?_
  obtain ⟨rfl, hs⟩ := hq
  exact hr hs

theorem skip {q : Parse Cursor α} (h : q.Cleanly fun _ => True) (hf : ∀ a, (f a).Leads R) :
    (onCursor q >>= f).Leads R :=
  after (fun _ => h) fun a => (hf a).mono fun _ _ _ hr _ => hr

theorem inScope (h : p.Leads Q) (enter : Context → Context) :
    (Reader.inScope enter p).Leads fun Γ a Δ => ∃ Δ', Q (enter Γ) a Δ' ∧ Δ = Δ'.leave where
  run {r r' a} hp hc := by
    rw [Reader.inScope] at hp
    split at hp
    · rename_i b t hq
      cases hp
      obtain ⟨hr, hs⟩ := h.run hq hc
      exact ⟨hr, t.context, hs, rfl⟩
    · cases hp
    · cases hp

theorem declaring (g : Context → Except Diagnostic Context) :
    (Reader.declaring g).Leads fun Γ ok Δ => ok = true ∧ g Γ = .ok Δ where
  run {r r' a} hp hc := by
    rw [Reader.declaring] at hp
    split at hp
    · rename_i Δ hg
      cases hp
      exact ⟨hc, rfl, hg⟩
    · cases hp
      exact absurd hc (by simp [Cursor.report])

end Parse.Leads

open Parse Reader

theorem Cursor.skip_reported (ds : List Diagnostic) (depth : Nat) (passed : List Token)
    (current : Token) (ahead : List Token) :
    (skip ds depth passed current ahead).reported = ds := by
  fun_induction skip <;> simp_all

theorem Cursor.recover_reported (c : Cursor) (start : Nat) (d : Diagnostic) :
    (c.recover start d).reported = c.reported ++ [d] := by
  have hskip : (c.report d).skipStatement.reported = c.reported ++ [d] := skip_reported ..
  rw [recover]
  split
  · rw [Cursor.next]
    split <;> exact hskip
  · exact hskip

namespace Stmt

theorem recovering_leads {p : Parse Reader (Option Stmt)}
    {Q : Context → Option Stmt → Context → Prop} (h : p.Leads Q) : (recovering p).Leads Q where
  run {r r' a} hp hc := by
    rw [recovering] at hp
    split at hp
    · cases hp
      exact absurd hc (by simp [Cursor.recover_reported])
    · exact h.run hp hc

theorem declare?_of_bind {name : String} {ty : Ty} {place : Position} {Γ Δ : Context}
    (h : Γ.bind name ty place = .ok Δ) : Γ.declare? none name ty = some Δ := by
  rw [Context.bind] at h
  rw [Context.declare?]
  split at h
  · cases h
  · rename_i hc
    cases h
    rw [if_neg hc]

theorem declare?_of_declare {receiver : Option Ty} {name : Token} {ty : Ty} {Γ Δ : Context}
    (h : declare receiver name ty Γ = .ok Δ) : Γ.declare? receiver name.value ty = some Δ := by
  cases receiver with
  | some r =>
    rw [declare, Context.bindMember] at h
    rw [Context.declare?]
    split at h
    · cases h
    · rename_i hc
      cases h
      rw [if_neg hc]
  | none => exact declare?_of_bind h

theorem declareType?_of_declareType {name : String} {place : Position} {Γ Δ : Context}
    (h : (Γ.declareType name place).map Prod.snd = .ok Δ) : Γ.declareType? name = some Δ := by
  rw [Context.declareType] at h
  rw [Context.declareType?]
  split at h
  · cases h
  · rename_i hc
    cases h
    rw [if_neg hc]

theorem bindAll_leads (bs : List (String × Ty)) :
    (bindAll bs).Leads fun Γ _ Δ => Γ.bindAll? bs = some Δ := by
  induction bs with
  | nil => exact .pure fun _ => rfl
  | cons b rest ih =>
    obtain ⟨name, ty⟩ := b
    have hfirst : Leads (fun s => declaring (·.bind name ty s.cursor.place) s : Parse Reader Bool)
        fun Γ _ Δ => Γ.declare? none name ty = some Δ := by
      refine ⟨fun {r r' a} hp hc => ?_⟩
      obtain ⟨hr, -, hd⟩ := (Leads.declaring _).run hp hc
      exact ⟨hr, declare?_of_bind hd⟩
    refine hfirst.bind fun _ => ih.mono fun Γ' _ Δ hrest Γ hd => ?_
    rw [Context.bindAll?, hd]
    exact hrest

theorem reportSome_leads (fault : Option Diagnostic) :
    (reportSome fault).Leads fun Γ _ Δ => Δ = Γ ∧ fault = none := by
  cases fault with
  | none => exact .pure fun _ => ⟨rfl, rfl⟩
  | some d => exact (Leads.reading fun _ => Cleanly.reporting d).mono fun _ _ _ h => nomatch h.2

theorem parseDeclared_cleanly (what : String) (Γ : Context) :
    (parseDeclared what Γ).Cleanly fun d => Γ.Proper → d.1.all Ty.isProper = true := by
  refine (Cleanly.demand _ _).skip fun first => Cleanly.currentKind.skip fun _ => ?_
  split
  · refine Cleanly.advance.skip fun _ => (Ty.resolve_cleanly Γ first).bind fun r => ?_
    exact (Cleanly.demand _ _).skip fun _ => .pure fun hr hΓ => hr hΓ
  · exact .pure fun _ => rfl

theorem parseExprStmt_cleanly (n : Nat) (Γ : Context) :
    (parseExprStmt n Γ).Cleanly fun s => Γ.Proper → s.check Γ = some Γ := by
  refine ((Expr.Reads.all n).expr Γ .default).bind fun e => (Cleanly.demand _ _).skip fun _ => ?_
  refine (Cleanly.spanSince _).skip fun span => .pure fun he hΓ => ?_
  rw [check, if_pos (he hΓ)]

theorem parseAscription_cleanly (n : Nat) (Γ : Context) :
    Parse.Cleanly (parseAscription n Γ) fun t => Γ.Proper → t.all Ty.isProper = true := by
  refine Cleanly.currentKind.skip fun _ => ?_
  split
  · exact Cleanly.advance.skip fun _ => ((Ty.Reads.all n).type Γ).bind fun t => .pure fun ht => ht
  · exact .pure fun _ => rfl

theorem parseInitial_cleanly (n : Nat) (annotated : Bool) (Γ : Context) :
    (parseInitial n annotated Γ).Cleanly fun e => Γ.Proper → ∀ e' ∈ e, e'.checks Γ = true := by
  refine Cleanly.currentKind.skip fun _ => ?_
  split
  · refine Cleanly.advance.skip fun _ => ((Expr.Reads.all n).expr Γ .default).bind fun e => ?_
    refine .pure fun he hΓ e' hmem => ?_
    cases hmem
    exact he hΓ
  · cases annotated with
    | true => exact .pure fun _ => nofun
    | false => exact ⟨nofun⟩

structure Definition.Fine (Γ : Context) (d : Definition) : Prop where
  value : d.value.checks Γ = true
  annotation : d.annotation.all Ty.isProper = true
  receiver : d.receiver.all Ty.isProper = true

theorem parseDefinition_cleanly (n : Nat) (Γ : Context) :
    (parseDefinition n Γ).Cleanly fun d => Γ.Proper → d.Fine Γ := by
  refine Cleanly.advance.skip fun _ => (parseDeclared_cleanly _ Γ).bind fun declared => ?_
  obtain ⟨receiver, name⟩ := declared
  refine (parseAscription_cleanly n Γ).bind fun annotation => ?_
  refine (parseInitial_cleanly n _ Γ).bind fun value => (Cleanly.demand _ _).skip fun _ => ?_
  refine (Cleanly.spanSince _).skip fun span => .pure fun hvalue hann hreceiver hΓ => ?_
  refine ⟨?_, hann hΓ, hreceiver hΓ⟩
  cases value with
  | some e => exact hvalue hΓ e rfl
  | none => exact Expr.checks_literal.2 rfl

theorem Definition.Fine.check {Γ : Context} (hΓ : Γ.Proper) {d : Definition} (h : d.Fine Γ)
    {ty : Ty}
    (hc : d.check = (ty, none)) : d.value.ty.assignable ty = true ∧ ty.isProper = true := by
  rw [Definition.check] at hc
  split at hc
  · rename_i t ht
    split at hc <;> cases hc
    rename_i ha
    refine ⟨ha, ?_⟩
    simpa [ht] using h.annotation
  · split at hc <;> cases hc
    rename_i hnull
    refine ⟨?_, (Expr.isProper_or_isNull hΓ h.value).resolve_right hnull⟩
    rw [Ty.assignable, decide_eq_true rfl, Bool.or_true]

def Accepted (Γ : Context) (s : Option Stmt) (Δ : Context) : Prop :=
  ∃ t, s = some t ∧ (Γ.Proper → t.check Γ = some Δ)

theorem parseLet_leads (n : Nat) : (parseLet n).Leads Accepted := by
  refine Leads.after (parseDefinition_cleanly n) fun d => ?_
  rcases hcheck : d.check with ⟨ty, fault⟩
  refine (reportSome_leads fault).bind fun _ => ?_
  refine (Leads.declaring _).bind fun ok => .pure fun Δ Γ' hd Γ hfault hfine => ?_
  obtain ⟨rfl, hd⟩ := hd
  obtain ⟨rfl, rfl⟩ := hfault
  refine ⟨_, rfl, fun hΓ => ?_⟩
  obtain ⟨hassign, hproper⟩ := (hfine hΓ).check hΓ hcheck
  rw [Stmt.check, (hfine hΓ).value, hassign, hproper, (hfine hΓ).receiver]
  exact declare?_of_declare hd

theorem parseReturn_cleanly (n : Nat) (Γ : Context) :
    (parseReturn n Γ).Cleanly fun s => Accepted Γ s Γ := by
  refine Cleanly.advance.skip fun keyword => ?_
  have hvalue : (parseReturned n keyword Γ).Cleanly fun e => Γ.Proper → e.checks Γ = true := by
    refine Cleanly.currentKind.skip fun _ => ?_
    split
    · exact .pure fun _ => rfl
    · exact (Expr.Reads.all n).expr Γ .default
  refine hvalue.bind fun e => (Cleanly.demand _ _).skip fun _ => (Cleanly.spanSince _).skip
    fun span => ?_
  cases hr : Γ.returning? with
  | none => exact (Cleanly.reporting _).bind fun _ => .pure nofun
  | some result =>
    dsimp only
    split
    · rename_i ha
      refine .pure fun he => ⟨_, rfl, fun hΓ => ?_⟩
      rw [Stmt.check, hr]
      dsimp only
      rw [he hΓ, ha]
      rfl
    · exact (Cleanly.reporting _).bind fun _ => .pure nofun

theorem parseParametersAt_cleanly (n : Nat) (Γ : Context) :
    (parseParametersAt n Γ).Cleanly fun ps =>
    Γ.Proper → Ty.areProper (ps.map Parameter.ty) = true := by
  induction n with
  | zero => exact .exhausted
  | succ n ih =>
    rw [parseParametersAt]
    refine Cleanly.currentKind.skip fun _ => ?_
    split
    · exact .pure fun _ => rfl
    · refine (Cleanly.demand _ _).skip fun name => (Cleanly.expect _).skip fun _ => ?_
      refine ((Ty.Reads.all n).type Γ).bind fun t => Cleanly.currentKind.skip fun _ => ?_
      split
      · refine .pure fun ht hΓ => ?_
        rw [List.map_singleton, Ty.areProper, ht hΓ, Ty.areProper, Bool.and_self]
      · refine (Cleanly.demand _ _).skip fun _ => ih.bind fun ps => .pure fun hps ht hΓ => ?_
        rw [List.map_cons, Ty.areProper, ht hΓ, hps hΓ, Bool.and_self]

theorem parseHeading_cleanly (n : Nat) (Γ : Context) : (parseHeading n Γ).Cleanly fun r =>
    r.2.2.name = r.2.1.value ∧ (Γ.Proper → r.2.2.isProper = true) := by
  refine Cleanly.advance.skip fun keyword => (parseDeclared_cleanly _ Γ).bind fun declared => ?_
  obtain ⟨receiver, name⟩ := declared
  refine (Cleanly.expect _).skip fun _ => (parseParametersAt_cleanly n Γ).bind fun ps => ?_
  refine (Cleanly.expect _).skip fun _ => ((Ty.Reads.all n).result Γ).bind fun t => ?_
  refine .pure fun ht hps hreceiver => ⟨rfl, fun hΓ => ?_⟩
  simp [Heading.isProper, Signature.toTy, Ty.isProper, ht hΓ, hps hΓ, hreceiver hΓ]

theorem parseTypeDecl_leads : parseTypeDecl.Leads Accepted := by
  refine Leads.skip Cleanly.advance fun _ => Leads.skip (Cleanly.demand _ _) fun name => ?_
  refine Leads.skip (Cleanly.demand _ _) fun _ => (Leads.declaring _).bind fun ok => ?_
  refine Leads.skip (Cleanly.spanSince _) fun span => .pure fun Δ Γ hd => ?_
  obtain ⟨rfl, hd⟩ := hd
  exact ⟨_, rfl, fun _ => declareType?_of_declareType hd⟩

theorem cons_leads {p : Parse Reader (Option Stmt)}
    {q : Parse Reader (List Stmt)} (hp : p.Leads Accepted)
    (hq : q.Leads fun Γ ss Δ => Γ.Proper → checkList Γ ss = some Δ) :
    Leads (do return (← p).toList ++ (← q)) fun Γ ss Δ => Γ.Proper → checkList Γ ss = some Δ := by
  refine hp.bind fun s => hq.bind fun ss => .pure ?_
  rintro Δ Γ₁ hss Γ ⟨t, rfl, ht⟩ hΓ
  rw [Option.toList_some, List.singleton_append, checkList, ht hΓ, Option.bind_some]
  exact hss (t.check_proper hΓ (ht hΓ))

theorem check_func {heading : Heading} {body : Block} {span : Span} {Γ Γ₁ Γ₂ Γ₃ : Context}
    (hp : heading.isProper = true)
    (hr : heading.signature.result = .void ∨ body.alwaysReturns = true)
    (h₁ : Γ.declare? heading.receiver heading.name heading.signature.toTy = some Γ₁)
    (h₂ : (Γ₁.enterFunction heading.signature.result).bindAll? heading.bindings = some Γ₂)
    (h₃ : body.check Γ₂ = some Γ₃) : (Stmt.func heading body span).check Γ = some Γ₃.leave := by
  have hr' : (decide (heading.signature.result = .void) || body.alwaysReturns) = true := by
    rwa [Bool.or_eq_true, decide_eq_true_eq]
  rw [Stmt.check, hp, hr', h₁, Option.bind_some, h₂, Option.bind_some, h₃]
  rfl

structure Reads (n : Nat) : Prop where
  stmt : (parseAt n).Leads Accepted
  form : ∀ form, (parseFormAt n form).Leads Accepted
  func : (parseFuncAt n).Leads Accepted
  body : ∀ heading, (parseBodyAt n heading).Leads fun Γ b Δ =>
    ∃ Γ', Γ.bindAll? heading.bindings = some Γ' ∧ (Γ'.Proper → b.check Γ' = some Δ)
  block : (parseBlockAt n).Leads fun Γ b Δ => Γ.Proper → b.check Γ = some Δ
  statements : (parseStatementsAt n).Leads fun Γ ss Δ => Γ.Proper → checkList Γ ss = some Δ
  branch : (parseBranchAt n).Leads fun Γ s Δ =>
    ∃ t, s = some t ∧ (Γ.Proper → (t.check Γ.enter).map Context.leave = some Δ)
  orElse : (parseElseAt n).Leads fun Γ s Δ =>
    ∃ t : Option Stmt, s = t.map some ∧ (Γ.Proper → checkOption Γ t = some Δ)
  cond : (parseCondAt n).Leads Accepted
  loop : (parseLoopAt n).Leads Accepted

namespace Reads

theorem zero : Reads 0 where
  stmt := .exhausted
  form _ := .exhausted
  func := .exhausted
  body _ := .exhausted
  block := .exhausted
  statements := .exhausted
  branch := .exhausted
  orElse := .exhausted
  cond := .exhausted
  loop := .exhausted

variable {n : Nat}

theorem form_succ (h : Reads n) (form : Form) : (parseFormAt (n + 1) form).Leads Accepted := by
  simp only [parseFormAt]
  cases form with
  | expression =>
    refine ((Leads.reading (parseExprStmt_cleanly n)).mono fun Γ s Δ hs => ?_).map
    obtain ⟨rfl, hs⟩ := hs
    exact ⟨s, rfl, hs⟩
  | define => exact parseLet_leads n
  | ret =>
    refine (Leads.reading (parseReturn_cleanly n)).mono fun Γ s Δ hs => ?_
    obtain ⟨rfl, hs⟩ := hs
    exact hs
  | func => exact h.func
  | block =>
    refine (h.block.mono fun Γ b Δ hb => ?_).map
    refine ⟨.block b, rfl, fun hΓ => ?_⟩
    rw [Stmt.check]
    exact hb hΓ
  | cond => exact h.cond
  | loop => exact h.loop
  | typeDecl => exact parseTypeDecl_leads

theorem func_succ (h : Reads n) : (parseFuncAt (n + 1)).Leads Accepted := by
  rw [parseFuncAt]
  refine Leads.after (parseHeading_cleanly n) fun r => ?_
  obtain ⟨keyword, name, heading⟩ := r
  refine (Leads.declaring _).bind fun ok => ?_
  refine ((h.body heading).inScope _).bind fun body => (reportSome_leads _).bind fun _ => ?_
  refine Leads.skip (Cleanly.spanSince _) fun span => .pure ?_
  rintro Δ _ ⟨rfl, hreturns⟩ Γ₁ ⟨Γ₃, ⟨Γ₂, hbind, hbody⟩, rfl⟩ Γ ⟨rfl, hd⟩ ⟨hname, hproper⟩
  refine ⟨_, rfl, fun hΓ => ?_⟩
  have hp := hproper hΓ
  have hr : heading.signature.result = .void ∨ body.alwaysReturns = true := by
    split at hreturns
    · cases hreturns
    · rename_i hn
      rwa [Decidable.not_and_iff_not_or_not, Decidable.not_not, Bool.not_eq_false] at hn
  have hd' := declare?_of_declare hd
  rw [← hname] at hd'
  have hbs := heading.bindings_isProper hp
  simp only [Heading.isProper, Bool.and_eq_true] at hproper
  have hsig := (hproper hΓ).1
  have hΓ₂ := (hΓ.declare? hsig.1 hsig.2 hd').enterFunction (Ty.isProper_func.1 hsig.1).2
  exact check_func hp hr hd' hbind (hbody (hΓ₂.bindAll? hbs hbind))

theorem statements_succ (h : Reads n) : (parseStatementsAt (n + 1)).Leads fun Γ ss Δ =>
    Γ.Proper → checkList Γ ss = some Δ := by
  rw [parseStatementsAt]
  refine Leads.skip Cleanly.currentKind fun kind => ?_
  cases kind with
  | closeCurly => exact Leads.skip (Cleanly.expect _) fun _ => .pure fun _ _ => rfl
  | eof => exact ⟨nofun⟩
  | semicolon => exact Leads.skip Cleanly.advance fun _ => h.statements
  | _ => exact cons_leads h.stmt h.statements

theorem cond_succ (h : Reads n) : (parseCondAt (n + 1)).Leads Accepted := by
  rw [parseCondAt]
  refine Leads.skip Cleanly.advance fun keyword => ?_
  refine Leads.after (fun Γ => (Expr.Reads.all n).expr Γ .default) fun c => ?_
  refine h.branch.bind fun yes => h.orElse.bind fun no => ?_
  refine Leads.skip (Cleanly.spanSince _) fun span => .pure ?_
  rintro Δ Γ₁ ⟨no, rfl, hno⟩ Γ ⟨yes, rfl, hyes⟩ hc
  refine ⟨.cond c yes no span, ?_, fun hΓ => ?_⟩
  · cases no <;> rfl
  · obtain ⟨Γ₂, hyes', rfl⟩ := Option.map_eq_some_iff.1 (hyes hΓ)
    rw [Stmt.check, if_pos (hc hΓ), hyes', Option.map_some, Option.bind_some]
    exact hno (yes.check_proper hΓ.enter hyes').leave

theorem loop_succ (h : Reads n) : (parseLoopAt (n + 1)).Leads Accepted := by
  rw [parseLoopAt]
  refine Leads.skip Cleanly.advance fun keyword => ?_
  refine Leads.after (fun Γ => (Expr.Reads.all n).expr Γ .default) fun c => ?_
  refine h.branch.bind fun body => Leads.skip (Cleanly.spanSince _) fun span => .pure ?_
  rintro Δ Γ ⟨body, rfl, hbody⟩ hc
  refine ⟨.loop c body span, rfl, fun hΓ => ?_⟩
  rw [Stmt.check, if_pos (hc hΓ)]
  exact hbody hΓ

theorem succ (h : Reads n) : Reads (n + 1) where
  stmt := by
    rw [parseAt]
    exact recovering_leads (Leads.skip Cleanly.currentKind fun kind => h.form _)
  form := h.form_succ
  func := h.func_succ
  body heading := by
    rw [parseBodyAt]
    exact (bindAll_leads _).bind fun _ => h.block.mono fun Γ' b Δ hb Γ hΓ' => ⟨Γ', hΓ', hb⟩
  block := by
    rw [parseBlockAt]
    refine Leads.skip (Cleanly.demand _ _) fun opening => ?_
    refine (h.statements.inScope _).bind fun ss => Leads.skip (Cleanly.spanSince _) fun span => ?_
    refine .pure ?_
    rintro _ Γ ⟨Δ, hss, rfl⟩ hΓ
    rw [Block.check, hss hΓ.enter]
    rfl
  statements := h.statements_succ
  branch := by
    rw [parseBranchAt]
    refine (h.stmt.inScope _).mono ?_
    rintro Γ s _ ⟨Δ, ⟨t, rfl, ht⟩, rfl⟩
    exact ⟨t, rfl, fun hΓ => by rw [ht hΓ.enter]; rfl⟩
  orElse := by
    rw [parseElseAt]
    refine Leads.skip Cleanly.currentKind fun _ => ?_
    split
    · refine Leads.skip Cleanly.advance fun _ => h.branch.bind fun s => .pure ?_
      rintro Δ Γ ⟨t, rfl, ht⟩
      exact ⟨some t, rfl, ht⟩
    · exact .pure fun Γ => ⟨none, rfl, fun _ => rfl⟩
  cond := h.cond_succ
  loop := h.loop_succ

theorem all (n : Nat) : Reads n := by
  induction n with
  | zero => exact zero
  | succ n ih => exact ih.succ

end Reads

end Stmt

namespace Program

theorem parseStatementsAt_leads (n : Nat) : (parseStatementsAt n).Leads fun Γ ss Δ =>
    Γ.Proper → Stmt.checkList Γ ss = some Δ := by
  induction n with
  | zero => exact .exhausted
  | succ n ih =>
    rw [parseStatementsAt]
    refine Leads.skip Cleanly.currentKind fun kind => ?_
    split
    · exact .pure fun _ _ => rfl
    · exact Leads.skip Cleanly.advance fun _ => ih
    · exact Stmt.cons_leads (Stmt.Reads.all n).stmt ih

theorem ofTokens_eq {tokens : List Token} {Γ : Context}
    (h : (ofTokens tokens Γ).2.isEmpty = true) :
    ofTokens tokens Γ = ((ofTokens tokens Γ).1, []) :=
  Prod.ext rfl (List.isEmpty_iff.1 h)

theorem parse_eq {source : String} {file : Option String}
    (h : (parse source file).2.isEmpty = true) :
    parse source file = ((parse source file).1, []) :=
  Prod.ext rfl (List.isEmpty_iff.1 h)

theorem checkList_of_ofTokens {tokens : List Token} {Γ : Context} (hΓ : Γ.Proper) {p : Program}
    (h : ofTokens tokens Γ = (p, [])) : Stmt.checkList Γ p.statements = some p.context := by
  rw [ofTokens] at h
  dsimp only at h
  split at h
  · rename_i ss r hp
    have hr : r.cursor.reported = [] := congrArg Prod.snd h
    cases congrArg Prod.fst h
    exact ((parseStatementsAt_leads _).run hp hr).2 hΓ
  · exact absurd (congrArg Prod.snd h) (by simp)
  · cases h

/-- A source that is read without diagnostics is accepted by the rules. -/
theorem checkList_of_parse {source : String} {file : Option String} {p : Program}
    (h : parse source file = (p, [])) :
    Stmt.checkList .initial p.statements = some p.context := by
  rw [parse] at h
  split at h
  · exact checkList_of_ofTokens .initial h
  · cases h

end Program

end TypedScript
