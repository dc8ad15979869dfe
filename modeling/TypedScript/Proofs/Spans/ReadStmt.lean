import TypedScript.Proofs.Spans.ReadExpr

namespace TypedScript

open Token Parse Cursor Reader

theorem Parse.Goes.reaches {α : Type} {p : Parse Reader α} {r s : Reader} {n k : Nat}
    {good bad : List Token → Cursor → Prop} {a : α} (h : p.Goes r n k good bad)
    (hp : p r = .ok a s) : ∃ ts, r.cursor.Reaches ts s.cursor := by
  rw [Goes, hp] at h
  obtain ⟨ts, hts, -⟩ := h
  exact ⟨ts, hts.tokens⟩

namespace Stmt

open Phrase (Row Stands)

def Held (_ ts : List Token) (s : Option Stmt) : Prop := ∀ x ∈ s, Stands ts (.stmt x)

theorem Held.some {past ts : List Token} {s : Stmt} (h : Stands ts (.stmt s)) :
    Held past ts (some s) := by
  rintro _ ⟨⟩
  exact h

theorem Held.none {past ts : List Token} : Held past ts none := nofun

theorem Held.row {past ts : List Token} {s : Option Stmt} (h : Held past ts s) :
    Row Stands ts (s.toList.map .stmt) := by
  cases s with
  | none => exact .nil ts
  | some s => exact .one (h s rfl)

theorem parseExprStmt_lays (n : Nat) (Γ : Context) :
    (parseExprStmt n Γ).Lays (fun _ => True) fun _ ts s => Stands ts (.stmt s) := by
  refine ((Expr.Standing.all n).expr Γ _).bind fun e => Lays.one (.demand (by decide) _) fun c => ?_
  refine Lays.spanSince (fun _ => rfl) fun stop => .pure ?_
  rintro _ hstop _ rfl _ ts rfl he
  refine ⟨⟨he.covers.start.append _, (hstop c [] _ rfl).behind ts⟩, ?_⟩
  exact (Row.one he).before [c]

theorem parseInitial_lays (n : Nat) (annotated : Bool) (Γ : Context) :
    (parseInitial n annotated Γ).Lays (fun _ => True)
      fun _ ts value => Row Stands ts (value.toList.map .expr) := by
  refine Lays.look (fun _ => rfl) fun kind _ => ?_
  split <;> rename_i hk
  · refine Lays.one (.advance (by rintro _ rfl; rw [hk]; decide)) fun operator => ?_
    refine ((Expr.Standing.all n).expr Γ _).bind fun e => .pure ?_
    rintro _ _ ts rfl he _ rfl
    rw [List.append_nil]
    exact .behind [operator] (.one he)
  · cases annotated
    · exact .error
    · exact .pure fun _ => .nil []

theorem parseDefinition_lays (n : Nat) (Γ : Context) : (parseDefinition n Γ).Lays (· ≠ .eof)
    fun _ ts d => ∀ x ty receiver, Stands ts (.stmt (.define x ty d.value receiver d.span)) := by
  refine Lays.one (.advance fun _ h => h) fun keyword => ?_
  refine Lays.bind (.treads (parseDeclared_treads (n := n) (k := 0) _ Γ)) fun (receiver, name) => ?_
  refine Lays.bind (.treads (parseAscription_treads n Γ)) fun annotation => ?_
  refine (parseInitial_lays n _ Γ).bind fun value => Lays.one (.demand (by decide) _) fun c => ?_
  refine Lays.spanSince (fun _ => rfl) fun stop => .pure ?_
  rintro _ hstop _ rfl _ vs rfl hvalue _ ts rfl - _ ds rfl - past rfl x ty receiver
  have hcovers : Covers (keyword :: (ds ++ (ts ++ (vs ++ [c])))) ⟨keyword.span.start, stop⟩ :=
    ⟨startsAt_cons keyword _, hstop _ _ past (by simp)⟩
  refine ⟨hcovers, ?_⟩
  cases value with
  | none => exact .one (.leaf rfl hcovers)
  | some e => exact (((hvalue.before [c]).behind ts).behind ds).behind [keyword]

theorem parseLet_lays (n : Nat) : (parseLet n).Lays (· ≠ .eof) Held := by
  refine Lays.bind (.reading (parseDefinition_lays n)) fun d => ?_
  rcases d.check with ⟨ty, fault⟩
  refine .still (.idles fun _ => reportSome_idles _) fun _ => ?_
  refine .still (.idles fun _ => .declaring fun _ => .declare) fun declared => .pure ?_
  rintro _ _ ts rfl hd
  rw [List.append_nil]
  split
  · exact .some (hd _ _ _)
  · exact .none

theorem parseReturned_lays (n : Nat) (keyword : Token) (Γ : Context) :
    (parseReturned n keyword Γ).Lays (fun _ => True)
      fun _ ts e => Row Stands (keyword :: ts) [.expr e] := by
  refine Lays.look (fun _ => rfl) fun _ _ => ?_
  split
  · exact .pure fun _ => .one (.leaf rfl (covers_singleton keyword))
  · refine ((Expr.Standing.all n).expr Γ _).anywhere.mono fun _ ts e he => ?_
    exact .behind [keyword] (.one he)

theorem parseReturn_lays (n : Nat) (Γ : Context) : (parseReturn n Γ).Lays (· ≠ .eof) Held := by
  refine Lays.one (.advance fun _ h => h) fun keyword => ?_
  refine (parseReturned_lays n keyword Γ).bind fun value => ?_
  refine Lays.one (.demand (by decide) _) fun c => Lays.spanSince (fun _ => rfl) fun stop => ?_
  -- Whatever the answer, nothing more is passed for it.
  refine Lays.mono (Q := fun _ us s =>
    us = [] ∧ ∀ x ∈ s, x = .ret value ⟨keyword.span.start, stop⟩) ?_ ?_
  · split
    · exact .still (.stays (.reporting _)) fun _ => .pure fun _ => ⟨rfl, by simp⟩
    · split
      · exact .pure fun _ => ⟨rfl, by simp⟩
      · exact .still (.stays (.reporting _)) fun _ => .pure fun _ => ⟨rfl, by simp⟩
  · rintro _ _ s ⟨rfl, hs⟩ hstop _ rfl _ ts rfl hvalue past rfl x hx
    obtain rfl := hs x hx
    exact ⟨⟨startsAt_cons keyword _, hstop _ _ past (by simp)⟩, hvalue.before [c]⟩

theorem parseTypeDecl_lays : parseTypeDecl.Lays (· ≠ .eof) Held := by
  refine Lays.one (.onCursor (.advance fun _ h => h)) fun keyword => ?_
  refine Lays.one (.onCursor (.demand (by decide) _)) fun name => ?_
  refine Lays.one (.onCursor (.demand (by decide) _)) fun c => ?_
  refine .still (.idles fun _ => .declaring fun _ => .declareType) fun declared => ?_
  refine Lays.spanSince (fun _ => rfl) fun stop => .pure ?_
  rintro _ hstop _ rfl _ rfl past rfl
  split
  · exact .some (.leaf rfl ⟨startsAt_cons keyword _, hstop keyword [name, c] past rfl⟩)
  · exact .none

theorem parseHeading_lays (n : Nat) (Γ : Context) :
    (parseHeading n Γ).Lays (· ≠ .eof) fun _ ts h => StartsAt ts h.1.span.start := by
  refine Lays.one (.advance fun _ h => h) fun keyword => ?_
  refine Lays.bind (.treads (parseDeclared_treads (n := n) (k := 0) _ Γ)) fun (receiver, name) => ?_
  refine Lays.one (.expect (by decide)) fun o => ?_
  refine Lays.bind (.treads (parseParametersAt_treads n Γ)) fun parameters => ?_
  refine Lays.one (.expect (by decide)) fun c => ?_
  refine Lays.bind (.treads ((Ty.Trodden.all n).result Γ)) fun result => .pure ?_
  rintro _ _ rs rfl - _ rfl _ ps rfl - _ rfl _ ds rfl - _ rfl
  exact startsAt_cons keyword _

structure Standing (n : Nat) : Prop where
  stmt : (parseAt n).Lays (fun _ => True) Held
  form : ∀ form, (parseFormAt n form).Lays (Form.ofKind · = form) Held
  func : (parseFuncAt n).Lays (· ≠ .eof) Held
  body : ∀ heading, (parseBodyAt n heading).Lays (fun _ => True)
    fun _ ts b => Stands ts (.stmt (.block b))
  block : (parseBlockAt n).Lays (fun _ => True) fun _ ts b => Stands ts (.stmt (.block b))
  statements : (parseStatementsAt n).Lays (fun _ => True)
    fun _ ts ss => Row Stands ts (ss.map .stmt)
  branch : (parseBranchAt n).Lays (fun _ => True) Held
  orElse : (parseElseAt n).Lays (fun _ => True)
    fun _ ts s => Row Stands ts (s.join.toList.map .stmt)
  cond : (parseCondAt n).Lays (· ≠ .eof) Held
  loop : (parseLoopAt n).Lays (· ≠ .eof) Held

theorem cons_lays {p : Parse Reader (Option Stmt)} {q : Parse Reader (List Stmt)}
    {K : Token.Kind → Prop} (hp : p.Lays (fun _ => True) Held)
    (hq : q.Lays (fun _ => True) fun _ ts ss => Row Stands ts (ss.map .stmt)) :
    (do
      let s ← p
      let rest ← q
      return s.toList ++ rest).Lays K fun _ ts ss => Row Stands ts (ss.map .stmt) := by
  refine Lays.bind hp.anywhere fun s => hq.bind fun rest => .pure ?_
  rintro _ _ us rfl hrest _ ts rfl hs
  rw [List.append_nil, List.map_append]
  exact hs.row.append hrest

namespace Standing

variable {n : Nat}

theorem zero : Standing 0 := by
  constructor <;> intros <;> exact .exhausted

theorem form_succ (h : Standing n) (form : Form) :
    (parseFormAt (n + 1) form).Lays (Form.ofKind · = form) Held := by
  have hne : form ≠ .expression → ∀ k, Form.ofKind k = form → k ≠ .eof := by
    rintro hform _ rfl rfl
    exact hform rfl
  simp only [parseFormAt]
  cases form with
  | expression => exact .map (.reading fun Γ => (parseExprStmt_lays n Γ).anywhere.mono
      fun _ _ _ => .some)
  | define => exact (parseLet_lays n).within (hne (by decide))
  | ret => exact .reading fun Γ => (parseReturn_lays n Γ).within (hne (by decide))
  | func => exact h.func.within (hne (by decide))
  | block => exact .map (h.block.anywhere.mono fun _ _ _ => .some)
  | cond => exact h.cond.within (hne (by decide))
  | loop => exact h.loop.within (hne (by decide))
  | typeDecl => exact parseTypeDecl_lays.within (hne (by decide))

theorem func_succ (h : Standing n) : (parseFuncAt (n + 1)).Lays (· ≠ .eof) Held := by
  rw [parseFuncAt]
  refine Lays.bind (.reading (parseHeading_lays n)) ?_
  rintro ⟨keyword, name, heading⟩
  refine .still (.idles fun _ => .declaring fun _ => .declare) fun declared => ?_
  refine Lays.bind (.inScope _ (h.body heading)) fun body => ?_
  refine .still (.idles fun _ => reportSome_idles _) fun _ => ?_
  refine Lays.spanSince (fun _ => rfl) fun stop => .pure ?_
  rintro _ hstop _ us rfl hbody past ts rfl hkeyword
  rw [List.append_nil]
  split
  · obtain ⟨t, vs, rfl, hstart⟩ := hkeyword
    refine .some ⟨⟨⟨t, _, rfl, hstart⟩, hstop t _ past (by simp)⟩, ?_⟩
    exact .behind (t :: vs) (.one hbody)
  · exact .none

theorem statements_succ (h : Standing n) : (parseStatementsAt (n + 1)).Lays (fun _ => True)
    fun _ ts ss => Row Stands ts (ss.map .stmt) := by
  rw [parseStatementsAt]
  refine Lays.look (fun _ => rfl) fun kind _ => ?_
  cases kind with
  | closeCurly =>
    exact Lays.one (.onCursor (.expect (by decide))) fun c => .pure fun _ _ _ => .nil [c]
  | eof => exact .error
  | semicolon =>
    refine Lays.one (.onCursor (.advance (by rintro _ rfl; decide))) fun c => h.statements.mono ?_
    exact fun _ ts ss hss _ _ => hss.behind [c]
  | _ => exact cons_lays h.stmt h.statements

theorem cond_succ (h : Standing n) : (parseCondAt (n + 1)).Lays (· ≠ .eof) Held := by
  rw [parseCondAt]
  refine Lays.one (.onCursor (.advance fun _ h => h)) fun keyword => ?_
  refine Lays.bind (.reading fun Γ => (Expr.Standing.all n).expr Γ _) fun c => ?_
  refine h.branch.bind fun yes => h.orElse.bind fun no => ?_
  refine Lays.spanSince (fun _ => rfl) fun stop => .pure ?_
  rintro _ hstop _ ns rfl hno _ ys rfl hyes _ cs rfl hc past rfl
  have hcovers : Covers (keyword :: (cs ++ (ys ++ (ns ++ [])))) ⟨keyword.span.start, stop⟩ :=
    ⟨startsAt_cons keyword _, hstop _ _ past (by simp)⟩
  have hrow := ((Row.one hc).append (hyes.row.append (hno.before []))).behind [keyword]
  -- A branch that is left out takes the conditional with it.
  rcases yes with _ | yes <;> rcases no with _ | _ | no
  case some.none => exact .some ⟨hcovers, hrow⟩
  case some.some.some => exact .some ⟨hcovers, hrow⟩
  all_goals exact .none

theorem loop_succ (h : Standing n) : (parseLoopAt (n + 1)).Lays (· ≠ .eof) Held := by
  rw [parseLoopAt]
  refine Lays.one (.onCursor (.advance fun _ h => h)) fun keyword => ?_
  refine Lays.bind (.reading fun Γ => (Expr.Standing.all n).expr Γ _) fun c => ?_
  refine h.branch.bind fun body => Lays.spanSince (fun _ => rfl) fun stop => .pure ?_
  rintro _ hstop _ bs rfl hbody _ cs rfl hc past rfl
  have hcovers : Covers (keyword :: (cs ++ (bs ++ []))) ⟨keyword.span.start, stop⟩ :=
    ⟨startsAt_cons keyword _, hstop _ _ past (by simp)⟩
  have hrow := ((Row.one hc).append (hbody.row.before [])).behind [keyword]
  cases body with
  | none => exact .none
  | some body => exact .some ⟨hcovers, hrow⟩

theorem succ (h : Standing n) : Standing (n + 1) where
  stmt := by
    have hgoes := (Passed.all (n + 1)).stmt
    rw [parseAt] at hgoes ⊢
    refine Lays.recovering ?_ (fun _ _ => .none) fun r _ _ hc hp => (hgoes r hc).reaches hp
    exact .look (fun _ => rfl) fun k _ => (h.form _).within (by rintro _ rfl; rfl)
  form := h.form_succ
  func := h.func_succ
  body heading := by
    rw [parseBodyAt]
    exact .still (.idles fun _ => bindAll_idles _) fun _ => h.block
  block := by
    rw [parseBlockAt]
    refine Lays.one (.onCursor (.demand (by decide) _)) fun o => ?_
    refine Lays.bind (.inScope _ h.statements) fun ss => ?_
    refine Lays.spanSince (fun _ => rfl) fun stop => .pure ?_
    rintro _ hstop _ ts rfl hss past rfl
    rw [List.append_nil]
    exact ⟨⟨startsAt_cons o ts, hstop o ts past (by simp)⟩, hss⟩
  statements := h.statements_succ
  branch := by
    rw [parseBranchAt]
    exact .inScope _ h.stmt
  orElse := by
    rw [parseElseAt]
    refine Lays.look (fun _ => rfl) fun kind _ => ?_
    split <;> rename_i hk
    · refine Lays.one (.onCursor (.advance (by rintro _ rfl; rw [hk]; decide))) fun keyword => ?_
      refine h.branch.bind fun s => .pure ?_
      rintro _ _ ts rfl hs _ rfl
      rw [List.append_nil]
      exact hs.row.behind [keyword]
    · exact .pure fun _ => .nil []
  cond := h.cond_succ
  loop := h.loop_succ

theorem all (n : Nat) : Standing n := by
  induction n with
  | zero => exact zero
  | succ n ih => exact ih.succ

end Standing

end Stmt

namespace Program

open Phrase (Row Stands)

theorem parseStatementsAt_lays (n : Nat) : (parseStatementsAt n).Lays (fun _ => True)
    fun _ ts ss => Row Stands ts (ss.map .stmt) := by
  induction n with
  | zero => exact .exhausted
  | succ n ih =>
    rw [parseStatementsAt]
    refine Lays.look (fun _ => rfl) fun kind _ => ?_
    cases kind with
    | eof => exact .pure fun _ => .nil []
    | semicolon =>
      refine Lays.one (.onCursor (.advance (by rintro _ rfl; decide))) fun c => ih.mono ?_
      exact fun _ ts ss hss _ _ => hss.behind [c]
    | _ => exact Stmt.cons_lays (Stmt.Standing.all n).stmt ih

theorem row_of_ofTokens (ts : List Token) {last : Token} (hlast : last.kind = .eof) (Γ : Context) :
    ∃ us, us <+: ts ∧ Row Stands us ((ofTokens (ts ++ [last]) Γ).1.statements.map .stmt) := by
  rw [ofTokens, Cursor.ofTokens_append hlast]
  dsimp only
  split
  · rename_i ss r hr
    obtain ⟨us, hus, hss⟩ :=
      (parseStatementsAt_lays _).ok hr (Cursor.closed_start ts hlast) trivial
    refine ⟨us, ?_, hss⟩
    have hall : ts ++ [last] = us ++ r.cursor.upcoming := by
      rw [← Cursor.upcoming_start]
      exact hus.upcoming
    refine List.prefix_of_prefix_length_le ⟨_, hall.symm⟩ (List.prefix_append ts [last]) ?_
    have hlength := congrArg List.length hall
    simp only [Cursor.upcoming, List.length_append, List.length_cons, List.length_nil] at hlength
    omega
  · exact ⟨[], List.nil_prefix, .nil []⟩
  · exact ⟨[], List.nil_prefix, .nil []⟩

theorem row_of_parse {source : String} (file : Option String)
    (hsize : Source.byteLength source.toList < Source.offsetBound) :
    ∃ us, Ordered us ∧ Row Stands us ((parse source file).1.statements.map .stmt) ∧
      ∀ t ∈ us, ∃ tokens, Token.scan source file = .ok tokens ∧ us ⊆ tokens := by
  rw [parse]
  split
  · rename_i tokens hscan
    obtain ⟨ts, stop, rfl, hlaid⟩ := Token.scan_laid hsize hscan
    have hlast : (Token.endAt ⟨stop, file.getD Source.defaultFile⟩).kind = .eof := rfl
    obtain ⟨us, hus, hrow⟩ := row_of_ofTokens ts hlast .initial
    refine ⟨us, hlaid.ordered.sublist hus.sublist, hrow, fun _ _ => ⟨_, hscan, ?_⟩⟩
    exact List.subset_append_of_subset_left _ hus.subset
  · exact ⟨[], ⟨.nil, List.forall_mem_nil _⟩, .nil [], List.forall_mem_nil _⟩

end Program

end TypedScript
