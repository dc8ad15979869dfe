import TypedScript.Proofs.Parsing.Passage

namespace TypedScript

namespace Parse

variable {σ α : Type}

instance : LawfulMonad (Parse σ) := by
  refine LawfulMonad.mk' _ (fun p => ?_) (fun _ _ => rfl) fun p f g => ?_
  · funext s
    change (p >>= Pure.pure) s = p s
    rw [bind_apply]
    cases p s <;> rfl
  · funext s
    rw [bind_apply, bind_apply, bind_apply]
    cases p s <;> rfl

def rounds (round : Nat → Parse σ (List α × Bool)) : Nat → Parse σ (List α)
  | 0 => exhausted
  | n + 1 => do
    let (results, more) ← round n
    if more then
      let rest ← rounds round n
      return results ++ rest
    else return results

/-- A loop of rounds that pass a token, but for the last one. -/
structure Loops (loop : Nat → Parse σ (List α)) (round : Nat → Parse σ (List α × Bool))
    (cursor : σ → Cursor) : Prop where
  unrolls : ∀ n, loop n = rounds round n
  advances : ∀ {n s results t}, (cursor s).Closed → round n s = .ok (results, true) t →
    (cursor s).index < (cursor t).index

end Parse

open Parse Reader

namespace Cursor

def itemRound {α : Type} (item : Parse Cursor α) (comma : Parse Cursor Token) :
    Parse Cursor (List α × Bool) := do
  if (← currentKind) = .closeParen then return ([], false)
  else
    let a ← item
    if (← currentKind) = .closeParen then return ([a], false)
    else
      let _ ← comma
      return ([a], true)

theorem rounds_itemRound {α : Type} (item : Nat → Parse Cursor α) (comma : Parse Cursor Token)
    (n : Nat) : rounds (fun n => itemRound (item n) comma) (n + 1) = (do
      if (← currentKind) = .closeParen then return []
      else
        let a ← item n
        if (← currentKind) = .closeParen then return [a]
        else
          let _ ← comma
          let rest ← rounds (fun n => itemRound (item n) comma) n
          return a :: rest) := by
  rw [rounds, itemRound, bind_assoc]
  congr 1
  funext kind
  by_cases hk : kind = .closeParen
  · simp [hk]
  · simp only [hk, if_false, bind_assoc]
    congr 1
    funext a
    congr 1
    funext kind
    by_cases hk : kind = .closeParen
    · simp [hk]
    · simp [hk]

theorem itemRound_advances {α : Type} {item : Parse Cursor α} {comma : Parse Cursor Token}
    {n k i j : Nat} {c d : Cursor} {results : List α}
    (hitem : item.Treads (fun _ => True) n k (i + 1))
    (hcomma : comma.Treads (fun _ => True) n k j) (hc : c.Closed)
    (h : itemRound item comma c = .ok (results, true) d) : c.index < d.index := by
  obtain ⟨_, _, hk, h⟩ := bind_eq_ok.1 h
  cases hk
  split at h
  · cases h
  · obtain ⟨a, e, ha, h⟩ := bind_eq_ok.1 h
    obtain ⟨_, _, hk, h⟩ := bind_eq_ok.1 h
    cases hk
    split at h
    · cases h
    · obtain ⟨_, _, hcomma', h⟩ := bind_eq_ok.1 h
      cases h
      obtain ⟨ts, hts, hlen⟩ := hitem.ok hc trivial ha
      obtain ⟨us, hus, -⟩ := hcomma.ok (hts.closed hc) trivial hcomma'
      have := (hts.trans hus).index
      rw [List.length_append] at this
      omega

end Cursor

def Ty.round (n : Nat) (Γ : Context) : Parse Cursor (List Ty × Bool) :=
  Cursor.itemRound (parseAt n Γ) (Cursor.expect .comma)

theorem Ty.parseListAt_loops (Γ : Context) : Loops (parseListAt · Γ) (round · Γ) id where
  unrolls n := by
    induction n with
    | zero => rfl
    | succ n ih =>
      simp only [round] at ih ⊢
      rw [Cursor.rounds_itemRound, ← ih, parseListAt]
  advances {n _ _ _} hc h :=
    Cursor.itemRound_advances ((Trodden.all n).type Γ) (.expect (by decide)) hc h

def Expr.argumentRound (n : Nat) (Γ : Context) : Parse Cursor (List Expr × Bool) :=
  Cursor.itemRound (parseAt n Γ .default)
    (Cursor.demand .comma "expected `,` or `)` in argument list")

theorem Expr.parseArgumentsAt_loops (Γ : Context) :
    Loops (parseArgumentsAt · Γ) (argumentRound · Γ) id where
  unrolls n := by
    induction n with
    | zero => rfl
    | succ n ih =>
      simp only [argumentRound] at ih ⊢
      rw [Cursor.rounds_itemRound, ← ih, parseArgumentsAt]
  advances {n _ _ _} hc h :=
    Cursor.itemRound_advances ((Trodden.all n).expr Γ _) (.demand (by decide) _) hc h

namespace Stmt

def parseParameter (n : Nat) (Γ : Context) : Parse Cursor Parameter := do
  let name ← Cursor.demand .identifier "expected parameter name"
  let _ ← Cursor.expect .colon
  let ty ← Ty.parseAt n Γ
  return ⟨name.value, ty⟩

theorem parseParameter_treads (n : Nat) (Γ : Context) :
    (parseParameter n Γ).Treads (fun _ => True) n 0 1 := by
  refine Treads.bind (.demand (by decide) _) fun _ => ?_
  refine Treads.bind (.expect (by decide)) fun _ => ?_
  exact Treads.bind (((Ty.Trodden.all n).type Γ).within (by decide)) fun _ => .pure _

def parameterRound (n : Nat) (Γ : Context) : Parse Cursor (List Parameter × Bool) :=
  Cursor.itemRound (parseParameter n Γ)
    (Cursor.demand .comma "expected `,` or `)` in parameter list")

theorem parseParametersAt_loops (Γ : Context) :
    Loops (parseParametersAt · Γ) (parameterRound · Γ) id where
  unrolls n := by
    induction n with
    | zero => rfl
    | succ n ih =>
      simp only [parameterRound] at ih ⊢
      rw [Cursor.rounds_itemRound, ← ih, parseParametersAt]
      simp only [parseParameter, bind_assoc, pure_bind]
  advances {n _ _ _} hc h :=
    Cursor.itemRound_advances (parseParameter_treads n Γ) (.demand (by decide) _) hc h

theorem advance_advances {r s : Reader} {results : List Stmt} (hc : r.cursor.Closed)
    (hk : r.cursor.kind = .semicolon)
    (h : (onCursor Cursor.advance >>= fun _ => pure ([], true)) r = .ok (results, true) s) :
    r.cursor.index < s.cursor.index := by
  cases h
  have := (Cursor.reaches_next hc (by simp [hk])).index
  simp only [List.length_singleton] at this
  exact Nat.lt_of_lt_of_eq (Nat.lt_succ_self _) this.symm

theorem parseAt_advances {n : Nat} {r s : Reader} {results : List Stmt} (hc : r.cursor.Closed)
    (hk : r.cursor.kind ≠ .eof)
    (h : (parseAt n >>= fun statement => pure (statement.toList, true)) r = .ok (results, true) s) :
    r.cursor.index < s.cursor.index := by
  obtain ⟨statement, t, hp, h⟩ := bind_eq_ok.1 h
  cases h
  have hgoes := (Passed.all n).stmt r hc
  rw [Goes, hp] at hgoes
  obtain ⟨ts, hts, hmoves, -⟩ := hgoes
  have hlen : 0 < ts.length := List.length_pos_iff.2 fun hnil => hk (hts.kind_of_end hc hmoves hnil)
  have := hts.tokens.index
  omega

def round (n : Nat) : Parse Reader (List Stmt × Bool) := do
  match ← onCursor Cursor.currentKind with
  | .closeCurly =>
    let _ ← onCursor (Cursor.expect .closeCurly)
    return ([], false)
  | .eof => fun s => .error ⟨.unclosedBlock, s.cursor.place⟩ s
  | .semicolon =>
    let _ ← onCursor Cursor.advance
    return ([], true)
  | _ =>
    let statement ← parseAt n
    return (statement.toList, true)

theorem parseStatementsAt_loops : Loops parseStatementsAt round cursor where
  unrolls n := by
    induction n with
    | zero => rfl
    | succ n ih =>
      rw [rounds, round, bind_assoc, ← ih, parseStatementsAt]
      congr 1
      funext kind
      cases kind with
      | closeCurly => simp
      | eof => rfl
      | semicolon => simp
      | _ => simp
  advances {n r _ _} hc h := by
    obtain ⟨kind, _, hk, h⟩ := bind_eq_ok.1 h
    cases hk
    generalize hk : r.cursor.kind = kind at h
    cases kind with
    | closeCurly =>
      obtain ⟨_, _, _, h⟩ := bind_eq_ok.1 h
      cases h
    | eof => cases h
    | semicolon => exact advance_advances hc hk h
    | _ => exact parseAt_advances hc (by simp [hk]) h

end Stmt

namespace Program

def round (n : Nat) : Parse Reader (List Stmt × Bool) := do
  match ← onCursor Cursor.currentKind with
  | .eof => return ([], false)
  | .semicolon =>
    let _ ← onCursor Cursor.advance
    return ([], true)
  | _ =>
    let statement ← Stmt.parseAt n
    return (statement.toList, true)

theorem parseStatementsAt_loops : Loops parseStatementsAt round cursor where
  unrolls n := by
    induction n with
    | zero => rfl
    | succ n ih =>
      rw [rounds, round, bind_assoc, ← ih, parseStatementsAt]
      congr 1
      funext kind
      cases kind with
      | eof => simp
      | semicolon => simp
      | _ => simp
  advances {n r _ _} hc h := by
    obtain ⟨kind, _, hk, h⟩ := bind_eq_ok.1 h
    cases hk
    generalize hk : r.cursor.kind = kind at h
    cases kind with
    | eof => cases h
    | semicolon => exact Stmt.advance_advances hc hk h
    | _ => exact Stmt.parseAt_advances hc (by simp [hk]) h

/-- Reading a program ends at an end token. Reading a statement always succeeds and passes a token
unless none is left; reading an expression or a type passes one if it succeeds. Nothing goes back
or behind the last token, and no loop stays where it is. -/
theorem terminates (tokens : List Token) (Γ : Context) {r : Reader} {n : Nat}
    (hc : r.cursor.Closed) (hn : r.fuel ≤ n) :
    (∃ statements ts, ∃ s : Reader,
      parseStatementsAt (fuel ⟨.ofTokens tokens, Γ⟩) ⟨.ofTokens tokens, Γ⟩ = .ok statements s ∧
      s.cursor.kind = .eof ∧ (Cursor.ofTokens tokens).Reaches ts s.cursor ∧
      ofTokens tokens Γ = (⟨statements, s.context⟩, s.cursor.reported)) ∧
    (∃ statement ts s, Stmt.parseAt n r = .ok statement s ∧ r.cursor.Reaches ts s.cursor ∧
      (r.cursor.ahead ≠ [] → ts ≠ [])) ∧
    (∀ bound, (∃ e ts d, Expr.parseAt n Γ bound r.cursor = .ok e d ∧ r.cursor.Reaches ts d ∧
        ts ≠ []) ∨
      ∃ fault ts d, Expr.parseAt n Γ bound r.cursor = .error fault d ∧ r.cursor.Reaches ts d) ∧
    ((∃ t ts d, Ty.parseAt n Γ r.cursor = .ok t d ∧ r.cursor.Reaches ts d ∧ ts ≠ []) ∨
      ∃ fault ts d, Ty.parseAt n Γ r.cursor = .error fault d ∧ r.cursor.Reaches ts d) ∧
    Loops parseStatementsAt round cursor ∧ Loops Stmt.parseStatementsAt Stmt.round cursor ∧
    Loops (Expr.parseArgumentsAt · Γ) (Expr.argumentRound · Γ) id ∧
    Loops (Stmt.parseParametersAt · Γ) (Stmt.parameterRound · Γ) id ∧
    Loops (Ty.parseListAt · Γ) (Ty.round · Γ) id := by
  refine ⟨?_, ?_, fun bound => ?_, ?_, parseStatementsAt_loops, Stmt.parseStatementsAt_loops,
    Expr.parseArgumentsAt_loops Γ, Stmt.parseParametersAt_loops Γ, Ty.parseListAt_loops Γ⟩
  · obtain ⟨statements, ts, s, hrun, heof, hs, hof⟩ := ofTokens_ends tokens Γ
    exact ⟨statements, ts, s, hrun, heof, hs.tokens, hof⟩
  · obtain ⟨statement, ts, s, hp, hs, hmoves, -⟩ | ⟨_, _, _, _, _, h⟩ :=
      ((Stmt.Passed.all n).stmt r hc).ends (by decide) hn
    · refine ⟨statement, ts, s, hp, hs.tokens, fun hahead hnil => hahead ?_⟩
      subst hnil
      rw [← hs.tokens.ahead_of_nil, hmoves rfl]
    · exact h.elim
  · refine (((Expr.Trodden.all n).expr Γ bound).ends hc trivial hn (by decide)).imp_left ?_
    rintro ⟨e, ts, d, hp, hts, hlen⟩
    exact ⟨e, ts, d, hp, hts, List.length_pos_iff.1 hlen⟩
  · refine (((Ty.Trodden.all n).type Γ).ends hc trivial hn (by decide)).imp_left ?_
    rintro ⟨t, ts, d, hp, hts, hlen⟩
    exact ⟨t, ts, d, hp, hts, List.length_pos_iff.1 hlen⟩

/-- `} x EOF ;`, with an end token in the middle and none at the end. -/
theorem terminates_of_stray :
    let ts : List Token := [(.closeCurly, "\x7d"), (.identifier, "x"), (.eof, "EOF"),
      (.semicolon, ";")].map fun (kind, value) => ⟨kind, value, ⟨.nowhere, .nowhere⟩⟩
    let r : Reader := ⟨.ofTokens ts, .initial⟩
    (∃ statements us, ∃ s : Reader, parseStatementsAt r.fuel r = .ok statements s ∧
      s.cursor.kind = .eof ∧ r.cursor.Reaches us s.cursor ∧ us ≠ []) ∧
    ∃ statement us s, Stmt.parseAt r.fuel r = .ok statement s ∧ r.cursor.Reaches us s.cursor ∧
      us ≠ [] := by
  intro ts r
  have hahead : r.cursor.ahead ≠ [] := by simp [r, ts, Cursor.ofTokens, Cursor.start]
  have hkind : r.cursor.kind = .closeCurly := rfl
  have hc : r.cursor.Closed := Cursor.closed_ofTokens ts
  obtain ⟨⟨statements, us, s, hrun, heof, hus, -⟩, ⟨statement, us', s', hp, hus', hne⟩, -⟩ :=
    terminates ts .initial hc (Nat.le_refl r.fuel)
  refine ⟨⟨statements, us, s, hrun, heof, hus, ?_⟩, statement, us', s', hp, hus', hne hahead⟩
  rintro rfl
  exact absurd (hus.kind_of_nil.symm.trans heof) (by rw [hkind]; decide)

end Program

end TypedScript
