import TypedScript.Proofs.Spans.ReadStmt

namespace TypedScript

mutual
/-- The functions that a statement defines, at any depth, in the order of the text. -/
def Stmt.functions : Stmt → List (Heading × Block)
  | .func heading body _ => (heading, body) :: body.functions
  | .block b => b.functions
  | .cond _ yes no _ => yes.functions ++ Stmt.functionsOption no
  | .loop _ body _ => body.functions
  | _ => []

def Stmt.functionsOption : Option Stmt → List (Heading × Block)
  | none => []
  | some s => s.functions

def Block.functions : Block → List (Heading × Block)
  | .mk ss _ => Stmt.functionsAll ss

def Stmt.functionsAll : List Stmt → List (Heading × Block)
  | [] => []
  | s :: ss => s.functions ++ Stmt.functionsAll ss
end

mutual
theorem Stmt.functions_closed : ∀ s : Stmt, ∀ d ∈ s.functions, d.2.functions ⊆ s.functions
  | .func heading body _, d, hd => by
    obtain rfl | hd := List.mem_cons.1 hd
    · exact List.subset_cons_self _ _
    · exact List.subset_cons_of_subset _ (Block.functions_closed body d hd)
  | .block b, d, hd => Block.functions_closed b d hd
  | .cond _ yes no _, d, hd => by
    obtain hd | hd := List.mem_append.1 hd
    · exact List.subset_append_of_subset_left _ (Stmt.functions_closed yes d hd)
    · exact List.subset_append_of_subset_right _ (Stmt.functionsOption_closed no d hd)
  | .loop _ body _, d, hd => Stmt.functions_closed body d hd
  | .define .., _, hd | .ret .., _, hd | .expr .., _, hd | .typeDecl .., _, hd => nomatch hd

theorem Stmt.functionsOption_closed : ∀ s : Option Stmt, ∀ d ∈ Stmt.functionsOption s,
    d.2.functions ⊆ Stmt.functionsOption s
  | none, _, hd => nomatch hd
  | some s, d, hd => Stmt.functions_closed s d hd

theorem Block.functions_closed : ∀ b : Block, ∀ d ∈ b.functions, d.2.functions ⊆ b.functions
  | .mk ss _, d, hd => Stmt.functionsAll_closed ss d hd

theorem Stmt.functionsAll_closed : ∀ ss : List Stmt, ∀ d ∈ Stmt.functionsAll ss,
    d.2.functions ⊆ Stmt.functionsAll ss
  | [], _, hd => nomatch hd
  | s :: ss, d, hd => by
    obtain hd | hd := List.mem_append.1 hd
    · exact List.subset_append_of_subset_left _ (Stmt.functions_closed s d hd)
    · exact List.subset_append_of_subset_right _ (Stmt.functionsAll_closed ss d hd)
end

open Parse Reader

structure Parse.Gives {σ α : Type} (p : Parse σ α) (P : α → Prop) : Prop where
  ok : ∀ {s a t}, p s = .ok a t → P a

namespace Parse.Gives

variable {σ α β : Type} {p : Parse σ α} {f : α → Parse σ β} {P Q : α → Prop} {R : β → Prop}

theorem pure {a : α} (h : P a) : Gives (Pure.pure a : Parse σ α) P where
  ok hok := by
    cases hok
    exact h

theorem exhausted : Gives (Parse.exhausted : Parse σ α) P := ⟨nofun⟩

theorem mono (h : p.Gives Q) (hP : ∀ a, Q a → P a) : p.Gives P := ⟨fun hok => hP _ (h.ok hok)⟩

theorem bind (h : p.Gives Q) (hf : ∀ a, Q a → (f a).Gives R) : (p >>= f).Gives R where
  ok hok := by
    obtain ⟨a, t, ha, hb⟩ := bind_eq_ok.1 hok
    exact (hf a (h.ok ha)).ok hb

theorem skip (hf : ∀ a, (f a).Gives R) : (p >>= f).Gives R :=
  bind (Q := fun _ => True) ⟨fun _ => trivial⟩ fun a _ => hf a

theorem map {g : α → β} (h : p.Gives fun a => R (g a)) : (g <$> p).Gives R :=
  bind (f := fun a => Pure.pure (g a)) h fun _ => pure

theorem reading {q : Context → Parse Cursor α} (h : ∀ Γ, (q Γ).Gives P) :
    (Reader.reading q).Gives P where
  ok {r a s} hok := by
    rw [Reader.reading] at hok
    split at hok
    · rename_i hq
      cases hok
      exact (h _).ok hq
    · cases hok
    · cases hok

theorem inScope {p : Parse Reader α} (enter : Context → Context) (h : p.Gives P) :
    (Reader.inScope enter p).Gives P where
  ok {r a s} hok := by
    rw [Reader.inScope] at hok
    split at hok
    · rename_i hp
      cases hok
      exact h.ok hp
    · cases hok
    · cases hok

theorem recovering {p : Parse Reader (Option Stmt)} {P : Option Stmt → Prop} (h : p.Gives P)
    (hnone : P none) : (Stmt.recovering p).Gives P where
  ok {r a s} hok := by
    rw [Stmt.recovering] at hok
    split at hok
    · cases hok
      exact hnone
    · exact h.ok hok

end Parse.Gives

namespace Stmt

theorem parseLet_gives (n : Nat) : (parseLet n).Gives fun s => functionsOption s = [] := by
  refine .skip fun d => ?_
  rcases d.check with ⟨ty, fault⟩
  refine .skip fun _ => .skip fun declared => .pure ?_
  split <;> rfl

theorem parseReturn_gives (n : Nat) (Γ : Context) :
    (parseReturn n Γ).Gives fun s => functionsOption s = [] := by
  refine .skip fun keyword => .skip fun value => .skip fun _ => .skip fun span => ?_
  split
  · exact .skip fun _ => .pure rfl
  · split
    · exact .pure rfl
    · exact .skip fun _ => .pure rfl

theorem parseExprStmt_gives (n : Nat) (Γ : Context) :
    (parseExprStmt n Γ).Gives fun s => s.functions = [] :=
  .skip fun _ => .skip fun _ => .skip fun _ => .pure rfl

theorem parseTypeDecl_gives : parseTypeDecl.Gives fun s => functionsOption s = [] := by
  refine .skip fun _ => .skip fun _ => .skip fun _ => .skip fun declared => .skip fun _ => .pure ?_
  split <;> rfl

theorem functionsAll_append (s : Option Stmt) (ss : List Stmt) :
    functionsAll (s.toList ++ ss) = functionsOption s ++ functionsAll ss := by
  cases s <;> rfl

end Stmt

def Heading.IsTyped (h : Heading) : Prop := h.signature.parameters = h.parameters.map Parameter.ty

namespace Stmt

def Headed (ds : List (Heading × Block)) : Prop := ∀ d ∈ ds, d.1.IsTyped

theorem Headed.append {ds es : List (Heading × Block)} (hds : Headed ds) (hes : Headed es) :
    Headed (ds ++ es) := List.forall_mem_append.2 ⟨hds, hes⟩

theorem parseHeading_gives (n : Nat) (Γ : Context) :
    (parseHeading n Γ).Gives fun h => h.2.2.IsTyped := by
  refine .skip fun keyword => .skip fun (receiver, name) => .skip fun _ => ?_
  exact .skip fun parameters => .skip fun _ => .skip fun result => .pure rfl

structure GivesHeaded (n : Nat) : Prop where
  stmt : (parseAt n).Gives fun s => Headed (functionsOption s)
  form : ∀ form, (parseFormAt n form).Gives fun s => Headed (functionsOption s)
  func : (parseFuncAt n).Gives fun s => Headed (functionsOption s)
  body : ∀ heading, (parseBodyAt n heading).Gives fun b => Headed b.functions
  block : (parseBlockAt n).Gives fun b => Headed b.functions
  statements : (parseStatementsAt n).Gives fun ss => Headed (functionsAll ss)
  branch : (parseBranchAt n).Gives fun s => Headed (functionsOption s)
  orElse : (parseElseAt n).Gives fun s => Headed (functionsOption s.join)
  cond : (parseCondAt n).Gives fun s => Headed (functionsOption s)
  loop : (parseLoopAt n).Gives fun s => Headed (functionsOption s)

namespace GivesHeaded

variable {n : Nat}

theorem zero : GivesHeaded 0 where
  stmt := .exhausted
  form _ := .exhausted
  func := .exhausted
  body _ := .exhausted
  block := .exhausted
  statements := .exhausted
  branch := .exhausted
  orElse := .exhausted
  cond := .exhausted
  loop := .exhausted

theorem form_succ (h : GivesHeaded n) (form : Form) :
    (parseFormAt (n + 1) form).Gives fun s => Headed (functionsOption s) := by
  have hleaf {s : Option Stmt} (hs : functionsOption s = []) : Headed (functionsOption s) := by
    rw [hs]
    exact List.forall_mem_nil _
  simp only [parseFormAt]
  cases form with
  | expression => exact .map (.reading fun Γ => (parseExprStmt_gives n Γ).mono fun s =>
      hleaf (s := some s))
  | define => exact (parseLet_gives n).mono fun _ => hleaf
  | ret => exact .reading fun Γ => (parseReturn_gives n Γ).mono fun _ => hleaf
  | func => exact h.func
  | block => exact .map h.block
  | cond => exact h.cond
  | loop => exact h.loop
  | typeDecl => exact parseTypeDecl_gives.mono fun _ => hleaf

theorem func_succ (h : GivesHeaded n) :
    (parseFuncAt (n + 1)).Gives fun s => Headed (functionsOption s) := by
  rw [parseFuncAt]
  refine Gives.bind (.reading (parseHeading_gives n)) ?_
  rintro ⟨keyword, name, heading⟩ hheading
  refine .skip fun declared => ((h.body heading).inScope _).bind fun body hbody => ?_
  refine .skip fun _ => .skip fun span => .pure ?_
  split
  · exact List.forall_mem_cons.2 ⟨hheading, hbody⟩
  · exact List.forall_mem_nil _

theorem statements_succ (h : GivesHeaded n) :
    (parseStatementsAt (n + 1)).Gives fun ss => Headed (functionsAll ss) := by
  rw [parseStatementsAt]
  refine .skip fun kind => ?_
  cases kind with
  | closeCurly => exact .skip fun _ => .pure (List.forall_mem_nil _)
  | eof => exact ⟨fun hok => by cases hok⟩
  | semicolon => exact .skip fun _ => h.statements
  | _ =>
    refine h.stmt.bind fun s hs => h.statements.bind fun ss hss => .pure ?_
    exact functionsAll_append s ss ▸ hs.append hss

theorem cond_succ (h : GivesHeaded n) :
    (parseCondAt (n + 1)).Gives fun s => Headed (functionsOption s) := by
  rw [parseCondAt]
  refine .skip fun keyword => .skip fun condition => h.branch.bind fun yes hyes => ?_
  refine h.orElse.bind fun no hno => .skip fun span => .pure ?_
  rcases yes with _ | yes <;> rcases no with _ | _ | no
  case some.none => exact hyes.append hno
  case some.some.some => exact hyes.append hno
  all_goals exact List.forall_mem_nil _

theorem loop_succ (h : GivesHeaded n) :
    (parseLoopAt (n + 1)).Gives fun s => Headed (functionsOption s) := by
  rw [parseLoopAt]
  refine .skip fun keyword => .skip fun condition => h.branch.bind fun body hbody => ?_
  refine .skip fun span => .pure ?_
  cases body <;> exact hbody

theorem succ (h : GivesHeaded n) : GivesHeaded (n + 1) where
  stmt := by
    rw [parseAt]
    exact .recovering (.skip fun _ => h.form _) (List.forall_mem_nil _)
  form := h.form_succ
  func := h.func_succ
  body heading := by
    rw [parseBodyAt]
    exact .skip fun _ => h.block
  block := by
    rw [parseBlockAt]
    refine .skip fun _ => (h.statements.inScope _).bind fun ss hss => ?_
    exact .skip fun span => .pure hss
  statements := h.statements_succ
  branch := by
    rw [parseBranchAt]
    exact h.stmt.inScope _
  orElse := by
    rw [parseElseAt]
    refine .skip fun _ => ?_
    split
    · exact .skip fun _ => h.branch.bind fun s hs => .pure hs
    · exact .pure (List.forall_mem_nil _)
  cond := h.cond_succ
  loop := h.loop_succ

theorem all (n : Nat) : GivesHeaded n := by
  induction n with
  | zero => exact zero
  | succ n ih => exact ih.succ

end GivesHeaded

def Starts (ds : List (Heading × Block)) (ts : List Token) : Prop :=
  List.Sublist (ds.map fun d => d.2.span.start) (ts.map fun t => t.span.start)

namespace Starts

variable {ds es : List (Heading × Block)} {ts us : List Token}

theorem nil : Starts [] ts := List.nil_sublist _

theorem append (hds : Starts ds ts) (hes : Starts es us) : Starts (ds ++ es) (ts ++ us) := by
  rw [Starts, List.map_append, List.map_append]
  exact List.Sublist.append hds hes

theorem behind (ts : List Token) (h : Starts ds us) : Starts ds (ts ++ us) := nil.append h

theorem before (h : Starts ds ts) (us : List Token) : Starts ds (ts ++ us) := by
  simpa using h.append (nil : Starts [] us)

theorem cons {d : Heading × Block} {t : Token} (hd : d.2.span.start = t.span.start)
    (h : Starts ds ts) : Starts (d :: ds) (t :: ts) := by
  rw [Starts, List.map_cons, List.map_cons, hd]
  exact List.Sublist.cons_cons _ h

end Starts

end Stmt

open Phrase (Row Stands)
open Stmt (Starts)

mutual
theorem Stmt.functions_starts : ∀ (s : Stmt) {ts : List Token}, Stands ts (.stmt s) →
    Starts s.functions ts
  | .func heading body _, _, h => by
    obtain ⟨gap, us, vs, rfl, hbody, -⟩ := h.row.uncons
    obtain ⟨o, us, rfl, hstart, hbody⟩ := Block.functions_starts body hbody
    exact .behind gap ((Starts.cons hstart hbody).before vs)
  | .block b, _, h => by
    obtain ⟨o, us, rfl, -, hb⟩ := Block.functions_starts b h
    exact hb.behind [o]
  | .cond _ yes no _, _, h => by
    obtain ⟨gap, cs, us, rfl, -, h⟩ := h.row.uncons
    obtain ⟨gap', ys, ns, rfl, hyes, hno⟩ := h.uncons
    have hboth := (Stmt.functions_starts yes hyes).append (Stmt.functionsOption_starts no hno)
    exact ((hboth.behind gap').behind cs).behind gap
  | .loop _ body _, _, h => by
    obtain ⟨gap, cs, us, rfl, -, h⟩ := h.row.uncons
    obtain ⟨gap', bs, vs, rfl, hbody, -⟩ := h.uncons
    have hbody := (Stmt.functions_starts body hbody).before vs
    exact ((hbody.behind gap').behind cs).behind gap
  | .define .., _, _ | .ret .., _, _ | .expr .., _, _ | .typeDecl .., _, _ => .nil

theorem Stmt.functionsOption_starts : ∀ (s : Option Stmt) {ts : List Token},
    Row Stands ts (s.toList.map .stmt) → Starts (Stmt.functionsOption s) ts
  | none, _, _ => .nil
  | some s, _, h => by
    obtain ⟨gap, us, vs, rfl, hs, -⟩ := h.uncons
    exact .behind gap ((Stmt.functions_starts s hs).before vs)

theorem Block.functions_starts : ∀ (b : Block) {ts : List Token}, Stands ts (.stmt (.block b)) →
    ∃ o us, ts = o :: us ∧ b.span.start = o.span.start ∧ Starts b.functions us
  | .mk ss _, _, h => by
    obtain ⟨o, us, rfl, hstart⟩ := h.covers.start
    exact ⟨o, us, rfl, hstart, Stmt.functionsAll_starts ss h.row⟩

theorem Stmt.functionsAll_starts : ∀ (ss : List Stmt) {ts : List Token},
    Row Stands ts (ss.map .stmt) → Starts (Stmt.functionsAll ss) ts
  | [], _, _ => .nil
  | s :: ss, _, h => by
    obtain ⟨gap, us, vs, rfl, hs, hss⟩ := h.uncons
    exact .behind gap ((Stmt.functions_starts s hs).append (Stmt.functionsAll_starts ss hss))
end

namespace Program

open Stmt (Headed Starts functionsAll)

theorem parseStatementsAt_gives (n : Nat) :
    (parseStatementsAt n).Gives fun ss => Headed (functionsAll ss) := by
  induction n with
  | zero => exact .exhausted
  | succ n ih =>
    rw [parseStatementsAt]
    refine .skip fun kind => ?_
    cases kind with
    | eof => exact .pure (List.forall_mem_nil _)
    | semicolon => exact .skip fun _ => ih
    | _ =>
      refine (Stmt.GivesHeaded.all n).stmt.bind fun s hs => ih.bind fun ss hss => .pure ?_
      exact Stmt.functionsAll_append s ss ▸ hs.append hss

theorem headed_ofTokens (tokens : List Token) (Γ : Context) :
    Headed (functionsAll (ofTokens tokens Γ).1.statements) := by
  rw [ofTokens]
  dsimp only
  split
  · rename_i hr
    exact (parseStatementsAt_gives _).ok hr
  · exact List.forall_mem_nil _
  · exact List.forall_mem_nil _

theorem recounted_of_ofTokens {ts : List Token} {last : Token} (hlast : last.kind = .eof)
    {Γ : Context} {p : Program} (h : ofTokens (ts ++ [last]) Γ = (p, []))
    {P : List Token → List Stmt → Prop} (hP : ∀ n, (parseStatementsAt n).Recounts
      p.context.types.get? fun _ us ss _ => P us ss) :
    ∃ us vs, ts ++ [last] = us ++ vs ∧ P us p.statements := by
  rw [ofTokens, Cursor.ofTokens_append hlast] at h
  dsimp only at h
  split at h
  · rename_i ss r hr
    have hquiet : r.cursor.reported = [] := congrArg Prod.snd h
    cases congrArg Prod.fst h
    obtain ⟨-, hread⟩ := (hP _).ok hr
    obtain ⟨-, hread⟩ := hread (by simpa using hquiet) fun _ _ hx => hx
    obtain ⟨us, hus, hss⟩ := hread (Cursor.closed_start ts hlast)
    refine ⟨us, r.cursor.upcoming, ?_, hss⟩
    rw [← hus.upcoming, Cursor.upcoming_start]
  · exact absurd (congrArg Prod.snd h) (by simp)
  · cases h

theorem tokens_of_parse {source : String} {file : Option String} {p : Program}
    (hsize : Source.byteLength source.toList < Source.offsetBound)
    (hp : parse source file = (p, [])) : ∃ name stop us,
      Token.scan source file = .ok (us ++ [Token.endAt ⟨stop, name⟩]) ∧ Token.Laid name stop us ∧
        ofTokens (us ++ [Token.endAt ⟨stop, name⟩]) .initial = (p, []) := by
  rw [parse] at hp
  split at hp
  · rename_i tokens hscan
    obtain ⟨us, stop, rfl, hlaid⟩ := Token.scan_laid hsize hscan
    exact ⟨_, stop, us, hscan, hlaid, hp⟩
  · cases hp

/-- No two functions of a text have bodies at the same place, whatever is reported. -/
theorem nodup_bodies {source : String} {file : Option String} {p : Program} {ds : List Diagnostic}
    (hsize : Source.byteLength source.toList < Source.offsetBound)
    (hp : parse source file = (p, ds)) :
    ((functionsAll p.statements).map fun d => d.2.span.start).Nodup := by
  obtain ⟨us, hordered, hrow, -⟩ := row_of_parse file hsize
  rw [hp] at hrow
  exact List.Nodup.sublist (Stmt.functionsAll_starts p.statements hrow) hordered.nodup_starts

end Program

end TypedScript
