import TypedScript.Proofs.Eval.Returns
import TypedScript.Proofs.Parsing.Passage

namespace TypedScript

open Parse Reader

namespace Stmt

/-- What is read from one context to another, with what its `return`s give. -/
structure Outer (Γ : Context) (es : List Expr) (Δ : Context) : Prop where
  context : Γ.Extends Δ
  returns : Γ.returning? = none → es = []

namespace Outer

variable {Γ Δ Ξ : Context} {es fs : List Expr}

theorem of_extends (h : Γ.Extends Δ) : Outer Γ [] Δ := ⟨h, fun _ => rfl⟩

theorem trans (h : Outer Γ es Δ) (h' : Outer Δ fs Ξ) : Outer Γ (es ++ fs) Ξ where
  context := h.context.trans h'.context
  returns hΓ := by rw [h.returns hΓ, h'.returns (h.context.returns.trans hΓ), List.append_nil]

theorem leave (h : Outer Γ.enter es Δ) : Outer Γ es Δ.leave := ⟨h.context.leave_enter, h.returns⟩

end Outer

theorem parseLet_outer (n : Nat) :
    (parseLet n).Leads fun Γ s Δ => Outer Γ (returnsOption s) Δ := by
  refine Leads.after (parseDefinition_cleanly n) fun d => ?_
  rcases d.check with ⟨ty, fault⟩
  refine (reportSome_leads fault).bind fun _ => (Leads.declaring _).bind fun ok => ?_
  refine .pure fun Δ Γ' hd Γ hfault _ => ?_
  obtain ⟨rfl, hd⟩ := hd
  obtain ⟨rfl, rfl⟩ := hfault
  exact .of_extends (.declare hd)

theorem parseExprStmt_outer (n : Nat) (Γ : Context) :
    (parseExprStmt n Γ).Cleanly fun s => s.returns = [] := by
  refine ((Expr.Reads.all n).expr Γ .default).bind fun e => (Cleanly.demand _ _).skip fun _ => ?_
  exact (Cleanly.spanSince _).skip fun span => .pure fun _ => rfl

theorem parseReturn_outer (n : Nat) (Γ : Context) :
    (parseReturn n Γ).Cleanly fun s => Γ.returning? = none → returnsOption s = [] := by
  refine Cleanly.advance.skip fun keyword => ?_
  have hvalue : (parseReturned n keyword Γ).Cleanly fun _ => True := by
    refine Cleanly.currentKind.skip fun _ => ?_
    split
    · exact .pure trivial
    · exact ((Expr.Reads.all n).expr Γ .default).mono fun _ _ => trivial
  refine hvalue.skip fun e => (Cleanly.demand _ _).skip fun _ => (Cleanly.spanSince _).skip
    fun span => ?_
  cases hr : Γ.returning? with
  | none => exact (Cleanly.reporting _).bind fun _ => .pure fun _ _ => rfl
  | some result =>
    dsimp only
    split
    · exact .pure nofun
    · exact (Cleanly.reporting _).bind fun _ => .pure fun _ => nofun

theorem parseTypeDecl_outer : parseTypeDecl.Leads fun Γ s Δ => Outer Γ (returnsOption s) Δ := by
  refine Leads.skip Cleanly.advance fun _ => Leads.skip (Cleanly.demand _ _) fun name => ?_
  refine Leads.skip (Cleanly.demand _ _) fun _ => (Leads.declaring _).bind fun ok => ?_
  refine Leads.skip (Cleanly.spanSince _) fun span => .pure fun Δ Γ hd => ?_
  obtain ⟨rfl, hd⟩ := hd
  exact .of_extends (.declareType hd)

theorem bindAll_extends (bs : List (String × Ty)) :
    (bindAll bs).Leads fun Γ _ Δ => Γ.Extends Δ := by
  induction bs with
  | nil => exact .pure .refl
  | cons b rest ih =>
    have hfirst : Leads (fun s => declaring (·.bind b.1 b.2 s.cursor.place) s : Parse Reader Bool)
        fun Γ _ Δ => Γ.Extends Δ := by
      refine ⟨fun {r r' a} hp hc => ?_⟩
      obtain ⟨hr, -, hd⟩ := (Leads.declaring _).run hp hc
      exact ⟨hr, .bind hd⟩
    exact hfirst.bind fun _ => ih.mono fun Γ' _ Δ hrest Γ hd => hd.trans hrest

theorem cons_outer {p : Parse Reader (Option Stmt)} {q : Parse Reader (List Stmt)}
    (hp : p.Leads fun Γ s Δ => Outer Γ (returnsOption s) Δ)
    (hq : q.Leads fun Γ ss Δ => Outer Γ (returnsAll ss) Δ) :
    Leads (do return (← p).toList ++ (← q)) fun Γ ss Δ => Outer Γ (returnsAll ss) Δ := by
  refine hp.bind fun s => hq.bind fun ss => .pure fun Δ Γ' hss Γ hs => ?_
  cases s <;> exact hs.trans hss

structure ReadOutside (n : Nat) : Prop where
  stmt : (parseAt n).Leads fun Γ s Δ => Outer Γ (returnsOption s) Δ
  form : ∀ form, (parseFormAt n form).Leads fun Γ s Δ => Outer Γ (returnsOption s) Δ
  func : (parseFuncAt n).Leads fun Γ s Δ => Outer Γ (returnsOption s) Δ
  body : ∀ heading, (parseBodyAt n heading).Leads fun Γ _ Δ => Γ.Extends Δ
  block : (parseBlockAt n).Leads fun Γ b Δ => Outer Γ b.returns Δ
  statements : (parseStatementsAt n).Leads fun Γ ss Δ => Outer Γ (returnsAll ss) Δ
  branch : (parseBranchAt n).Leads fun Γ s Δ => Outer Γ (returnsOption s) Δ
  orElse : (parseElseAt n).Leads fun Γ s Δ => Outer Γ (returnsOption s.join) Δ
  cond : (parseCondAt n).Leads fun Γ s Δ => Outer Γ (returnsOption s) Δ
  loop : (parseLoopAt n).Leads fun Γ s Δ => Outer Γ (returnsOption s) Δ

namespace ReadOutside

theorem zero : ReadOutside 0 where
  stmt := .exhausted
  form _ := .exhausted
  func := .exhausted
  body _ := .exhausted
  block := .exhausted
  statements := .exhausted
  branch := .exhausted
  orElse := .exhausted
  cond := .exhausted
  loop := .exhausted

variable {n : Nat}

theorem form_succ (h : ReadOutside n) (form : Form) :
    (parseFormAt (n + 1) form).Leads fun Γ s Δ => Outer Γ (returnsOption s) Δ := by
  simp only [parseFormAt]
  cases form with
  | expression =>
    refine Leads.map (g := some) ((Leads.reading (parseExprStmt_outer n)).mono fun Γ s Δ hs => ?_)
    obtain ⟨rfl, hs⟩ := hs
    exact ⟨.refl _, fun _ => hs⟩
  | define => exact parseLet_outer n
  | ret =>
    refine (Leads.reading (parseReturn_outer n)).mono fun Γ s Δ hs => ?_
    obtain ⟨rfl, hs⟩ := hs
    exact ⟨.refl _, hs⟩
  | func => exact h.func
  | block => exact Leads.map (g := some ∘ Stmt.block) h.block
  | cond => exact h.cond
  | loop => exact h.loop
  | typeDecl => exact parseTypeDecl_outer

theorem func_succ (h : ReadOutside n) :
    (parseFuncAt (n + 1)).Leads fun Γ s Δ => Outer Γ (returnsOption s) Δ := by
  rw [parseFuncAt]
  refine Leads.after (parseHeading_cleanly n) fun r => ?_
  obtain ⟨keyword, name, heading⟩ := r
  refine (Leads.declaring _).bind fun ok => ?_
  refine ((h.body heading).inScope _).bind fun body => (reportSome_leads _).bind fun _ => ?_
  refine Leads.skip (Cleanly.spanSince _) fun span => .pure ?_
  rintro Δ _ ⟨rfl, -⟩ Γ₁ ⟨Γ₂, hbody, rfl⟩ Γ ⟨rfl, hd⟩ -
  exact .of_extends (.trans (.declare hd) hbody.leave_enterFunction)

theorem statements_succ (h : ReadOutside n) :
    (parseStatementsAt (n + 1)).Leads fun Γ ss Δ => Outer Γ (returnsAll ss) Δ := by
  rw [parseStatementsAt]
  refine Leads.skip Cleanly.currentKind fun kind => ?_
  cases kind with
  | closeCurly =>
    exact Leads.skip (Cleanly.expect _) fun _ => .pure fun Γ => .of_extends (.refl Γ)
  | eof => exact ⟨fun hp => by cases hp⟩
  | semicolon => exact Leads.skip Cleanly.advance fun _ => h.statements
  | _ => exact cons_outer h.stmt h.statements

theorem cond_succ (h : ReadOutside n) :
    (parseCondAt (n + 1)).Leads fun Γ s Δ => Outer Γ (returnsOption s) Δ := by
  rw [parseCondAt]
  refine Leads.skip Cleanly.advance fun keyword => ?_
  refine Leads.after (fun Γ => (Expr.Reads.all n).expr Γ .default) fun c => ?_
  refine h.branch.bind fun yes => h.orElse.bind fun no => ?_
  refine Leads.skip (Cleanly.spanSince _) fun span => .pure fun Δ Γ₁ hno Γ hyes _ => ?_
  have hboth := hyes.trans hno
  rcases yes with _ | yes <;> rcases no with _ | _ | no
  case some.none => exact hboth
  case some.some.some => exact hboth
  all_goals exact .of_extends hboth.context

theorem loop_succ (h : ReadOutside n) :
    (parseLoopAt (n + 1)).Leads fun Γ s Δ => Outer Γ (returnsOption s) Δ := by
  rw [parseLoopAt]
  refine Leads.skip Cleanly.advance fun keyword => ?_
  refine Leads.after (fun Γ => (Expr.Reads.all n).expr Γ .default) fun c => ?_
  refine h.branch.bind fun body => Leads.skip (Cleanly.spanSince _) fun span => ?_
  refine .pure fun Δ Γ hbody _ => ?_
  cases body <;> exact hbody

theorem succ (h : ReadOutside n) : ReadOutside (n + 1) where
  stmt := by
    rw [parseAt]
    exact recovering_leads (Leads.skip Cleanly.currentKind fun kind => h.form _)
  form := h.form_succ
  func := h.func_succ
  body heading := by
    rw [parseBodyAt]
    exact (bindAll_extends _).bind fun _ => h.block.mono fun Γ' b Δ hb Γ hΓ' => hΓ'.trans hb.context
  block := by
    rw [parseBlockAt]
    refine Leads.skip (Cleanly.demand _ _) fun opening => ?_
    refine (h.statements.inScope _).bind fun ss => Leads.skip (Cleanly.spanSince _) fun span => ?_
    refine .pure ?_
    rintro _ Γ ⟨Δ, hss, rfl⟩
    exact hss.leave
  statements := h.statements_succ
  branch := by
    rw [parseBranchAt]
    refine (h.stmt.inScope _).mono ?_
    rintro Γ s _ ⟨Δ, hs, rfl⟩
    exact hs.leave
  orElse := by
    rw [parseElseAt]
    refine Leads.skip Cleanly.currentKind fun _ => ?_
    split
    · exact Leads.skip Cleanly.advance fun _ => h.branch.bind fun s => .pure fun Δ Γ hs => hs
    · exact .pure fun Γ => .of_extends (.refl Γ)
  cond := h.cond_succ
  loop := h.loop_succ

theorem all (n : Nat) : ReadOutside n := by
  induction n with
  | zero => exact zero
  | succ n ih => exact ih.succ

end ReadOutside

end Stmt

namespace Program

theorem parseStatementsAt_outer (n : Nat) :
    (parseStatementsAt n).Leads fun Γ ss Δ => Stmt.Outer Γ (Stmt.returnsAll ss) Δ := by
  induction n with
  | zero => exact .exhausted
  | succ n ih =>
    rw [parseStatementsAt]
    refine Leads.skip Cleanly.currentKind fun kind => ?_
    cases kind with
    | eof => exact .pure fun Γ => .of_extends (.refl Γ)
    | semicolon => exact Leads.skip Cleanly.advance fun _ => ih
    | _ => exact Stmt.cons_outer (Stmt.ReadOutside.all n).stmt ih

theorem returnsAll_of_ofTokens {tokens : List Token} {Γ : Context} (hΓ : Γ.returning? = none)
    {p : Program} (h : ofTokens tokens Γ = (p, [])) : Stmt.returnsAll p.statements = [] := by
  rw [ofTokens] at h
  dsimp only at h
  split at h
  · rename_i ss r hp
    have hr : r.cursor.reported = [] := congrArg Prod.snd h
    cases congrArg Prod.fst h
    exact ((parseStatementsAt_outer _).run hp hr).2.returns hΓ
  · exact absurd (congrArg Prod.snd h) (by simp)
  · cases h

end Program

end TypedScript
