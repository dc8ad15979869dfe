import TypedScript.Proofs.Grammar.StmtSoundness
import TypedScript.Proofs.Layout.ReadStmt
import TypedScript.Proofs.Parsing.Termination

namespace TypedScript

open Parse Tandem Reader
open Parse.Mimics (look advance onCursor)

theorem Parse.map_apply {σ α β : Type} (f : α → β) (p : Parse σ α) (s : σ) :
    (f <$> p) s = match p s with
      | .ok a t => .ok (f a) t
      | .error d t => .error d t
      | .exhausted => .exhausted := rfl

namespace Cursor

theorem ofTokens_fresh (ts : List Token) :
    (ofTokens ts).passed = [] ∧ (ofTokens ts).reported = [] := by
  have hstart (ts : List Token) (last : Token) :
      (start ts last).passed = [] ∧ (start ts last).reported = [] := by
    cases ts <;> exact ⟨rfl, rfl⟩
  rw [ofTokens]
  split
  · exact hstart ..
  · split <;> exact hstart ..

theorem upcoming_ofTokens {ts : List Token} (h : ∀ t ∈ ts, t.kind ≠ .eof) :
    ∃ last, (ofTokens ts).upcoming = ts ++ [last] ∧ last.kind = .eof := by
  rw [ofTokens]
  split
  · rename_i hl
    rw [List.getLast?_eq_none_iff.1 hl]
    exact ⟨_, rfl, rfl⟩
  · rename_i last hl
    rw [if_neg (h last (List.mem_of_getLast? hl))]
    exact ⟨_, upcoming_start .., rfl⟩

theorem upcoming_ofTokens_append (ts : List Token) {us : List Token} (h : us ≠ []) :
    (ofTokens (ts ++ us)).upcoming = ts ++ (ofTokens us).upcoming := by
  obtain ⟨init, last, rfl⟩ := (List.eq_nil_or_concat us).resolve_left h
  simp only [ofTokens, List.concat_eq_append, ← List.append_assoc, List.getLast?_concat,
    List.dropLast_concat]
  split <;> simp [upcoming_start]

theorem head?_upcoming_ofTokens {ts : List Token} (h : ts ≠ []) :
    (ofTokens ts).upcoming.head? = ts.head? := by
  obtain ⟨init, last, rfl⟩ := (List.eq_nil_or_concat ts).resolve_left h
  simp only [ofTokens, List.concat_eq_append, List.getLast?_concat, List.dropLast_concat]
  split <;> simp [upcoming_start]

end Cursor

namespace Tandem

def behind (base : List Token) (last : Token) (h : last.kind = .eof) : Tandem where
  places := .refl
  base := base
  last := last
  rest := [last]
  cut := false
  last_eof := h
  rest_ne_nil := by simp
  rest_eq _ := ⟨last, rfl, h, rfl, rfl⟩
  rest_ne_else := nofun

def before (last : Token) (h : last.kind = .eof) (rest : List Token) (hne : rest ≠ [])
    (helse : ∀ t ∈ rest.head?, t.kind ≠ .kwElse) : Tandem where
  places := .refl
  base := []
  last := last
  rest := rest
  cut := true
  last_eof := h
  rest_ne_nil := hne
  rest_eq := nofun
  rest_ne_else _ := helse

theorem like_before {ts us : List Token} {last : Token} (hlast : last.kind = .eof)
    (hts : (Cursor.ofTokens ts).upcoming = ts ++ [last]) (hus : us ≠ [])
    (hne : (Cursor.ofTokens us).upcoming ≠ [])
    (helse : ∀ t ∈ (Cursor.ofTokens us).upcoming.head?, t.kind ≠ .kwElse) :
    (before last hlast (Cursor.ofTokens us).upcoming hne helse).Like (Cursor.ofTokens ts)
      (Cursor.ofTokens (ts ++ us)) := by
  obtain ⟨hpassed, hreported⟩ := Cursor.ofTokens_fresh ts
  obtain ⟨hpassed', hreported'⟩ := Cursor.ofTokens_fresh (ts ++ us)
  refine ⟨⟨ts, hts, ?_⟩, ?_, ?_, fun _ => hreported⟩
  · rw [Cursor.upcoming_ofTokens_append ts hus]
    exact congrArg (· ++ _) (List.map_id ts).symm
  · rw [hpassed, hpassed']
    rfl
  · rw [hreported, hreported']
    rfl

theorem Like.unique {w : Tandem} {s t t' : Cursor} (h : w.Like s t) (h' : w.Like s t') :
    t = t' := by
  obtain ⟨us, hs, ht⟩ := h.upcoming
  obtain ⟨us', hs', ht'⟩ := h'.upcoming
  have hus : us = us' := List.append_cancel_right (hs.symm.trans hs')
  have hup : t.upcoming = t'.upcoming := by rw [ht, ht', hus]
  obtain ⟨hcurrent, hahead⟩ := List.cons.inj hup
  have hpassed := h.passed.trans h'.passed.symm
  have hreported := h.reported.trans h'.reported.symm
  cases t
  cases t'
  cases hpassed
  cases hcurrent
  cases hahead
  cases hreported
  rfl

theorem Stage.Linked.unique {w : Tandem} {s t t' : Reader} (h : (Stage.firm w).Linked s t)
    (h' : (Stage.firm w).Linked s t') : t = t' := by
  have hcursor : t.cursor = t'.cursor := h.1.unique h'.1
  have hcontext : t.context = t'.context := h.2.trans h'.2.symm
  cases t
  cases t'
  cases hcursor
  cases hcontext
  rfl

end Tandem

namespace Program

variable {n m : Nat}

theorem parseStatementsAt_mimics (w : Tandem) (h : n ≤ m) :
    Mimics (.loose w) (.loose w) (parseStatementsAt n) (parseStatementsAt m) := by
  induction n generalizing m with
  | zero => simpa only [parseStatementsAt] using .exhausted _
  | succ n ih =>
    obtain ⟨m, rfl⟩ : ∃ k, m = k + 1 := ⟨m - 1, by omega⟩
    have hle : n ≤ m := Nat.le_of_succ_le_succ h
    simp only [parseStatementsAt]
    refine look (fun _ => rfl) (.refl _) fun k => ?_
    have hloose := Stage.Within.seeing (.refl (.loose w)) k
    cases k with
    | eof => exact (Mimics.pure rfl).before hloose
    | semicolon =>
      exact ((onCursor advance).weaken (.seeing_inside (.refl _) (by decide)) (.moved _)).bind
        fun _ => ih hle
    | _ =>
      exact Stmt.cons_mimics ((Stmt.InTandem.all w hle).statement.before hloose)
        ((ih hle).before .firm_loose)

theorem parseStatementsAt_behind {s t s' : Reader} {base : List Token} {ss : List Stmt} (hn : n ≤ m)
    (hc : s.cursor.Closed) (hup : t.cursor.upcoming = s.cursor.upcoming)
    (hpassed : t.cursor.passed = s.cursor.passed ++ base)
    (hreported : t.cursor.reported = s.cursor.reported) (hΓ : t.context = s.context)
    (h : parseStatementsAt n s = .ok ss s') :
    ∃ t', parseStatementsAt m t = .ok ss t' ∧ t'.cursor.reported = s'.cursor.reported ∧
      t'.context = s'.context := by
  obtain ⟨last, hl, hlast⟩ := hc
  obtain ⟨us, hus⟩ := List.getLast?_eq_some_iff.1 hl
  have hid (ts : List Token) : ts.map (Token.relocate .refl) = ts := List.map_id ts
  have hlike : (behind base last hlast).Like s.cursor t.cursor := by
    refine ⟨⟨us, hus, ?_⟩, ?_, ?_, nofun⟩
    · rw [hup, hus]
      exact congrArg (· ++ [last]) (hid us).symm
    · rw [hpassed]
      exact congrArg (· ++ base) (hid _).symm
    · rw [hreported]
      exact (List.map_id s.cursor.reported).symm
  obtain hgone | ⟨t', ht, hl', -⟩ := (parseStatementsAt_mimics _ hn).ok ⟨hlike, hΓ⟩ h
  · cases hgone.1
  · refine ⟨t', ?_, ?_, hl'.2⟩
    · rw [ht]
      exact congrArg (Reply.ok · t')
        ((Stmt.relocateAll_eq _ ss).symm.trans (Stmt.relocateAll_refl ss))
    · exact hl'.1.reported.trans (List.map_id s'.cursor.reported)

theorem ofTokens_of_run {tokens : List Token} {Γ : Context} {ss : List Stmt} {s : Reader}
    (h : parseStatementsAt n ⟨.ofTokens tokens, Γ⟩ = .ok ss s) :
    ofTokens tokens Γ = (⟨ss, s.context⟩, s.cursor.reported) := by
  obtain ⟨ss', -, s', h', -, -, hof⟩ := ofTokens_ends tokens Γ
  have hmore {k : Nat} {us : List Stmt} {t : Reader} (hk : k ≤ n + fuel ⟨.ofTokens tokens, Γ⟩)
      (ht : parseStatementsAt k ⟨.ofTokens tokens, Γ⟩ = .ok us t) :=
    parseStatementsAt_behind hk (Cursor.closed_ofTokens tokens) rfl (List.append_nil _).symm
      rfl rfl ht
  obtain ⟨t, ht, hreported, hΓ⟩ := hmore (Nat.le_add_right _ _) h
  obtain ⟨t', ht', hreported', hΓ'⟩ := hmore (Nat.le_add_left _ _) h'
  obtain ⟨rfl, rfl⟩ := Reply.ok.inj (ht.symm.trans ht')
  rw [hof, ← hreported, ← hreported', ← hΓ, ← hΓ']

theorem round_goesOn {w : Tandem} {s t s' : Reader} {ss : List Stmt} (hn : n ≤ m)
    (hst : (Stage.firm w).Linked s t) (h : round n s = .ok (ss, true) s')
    (hclean : s'.cursor.reported = []) :
    ∃ t', round m t = .ok (ss.map (Stmt.relocate w.places), true) t' ∧
      (Stage.firm w).Linked s' t' := by
  obtain ⟨_, _, hcurrent, h⟩ := bind_eq_ok.1 h
  cases hcurrent
  have hkind : s.cursor.kind ≠ .eof → t.cursor.kind = s.cursor.kind := fun hk =>
    (congrArg Token.kind (hst.1.next hk).1).trans rfl
  generalize hk : s.cursor.kind = kind at h
  cases kind with
  | eof => cases h
  | semicolon =>
    cases h
    have hne : s.cursor.kind ≠ .eof := by simp [hk]
    refine ⟨{ t with cursor := t.cursor.next }, bind_eq_ok.2 ⟨_, t, rfl, ?_⟩, ⟨?_, hst.2⟩⟩
    · rw [hkind hne, hk]
      rfl
    · exact (hst.1.next hne).2.1
  | _ =>
    have hne : s.cursor.kind ≠ .eof := by simp [hk]
    obtain ⟨statement, u, hs, h⟩ := bind_eq_ok.1 h
    cases h
    obtain hdirty | ⟨t', ht, hl, -⟩ := (Stmt.InTandem.all w hn).statement.ok hst hs
    · exact absurd hclean hdirty.2
    · refine ⟨t', bind_eq_ok.2 ⟨_, t, rfl, ?_⟩, hl⟩
      rw [hkind hne, hk]
      refine bind_eq_ok.2 ⟨_, t', ht, ?_⟩
      cases statement <;> rfl

theorem eq_of_round {s s' : Reader} {ss : List Stmt} (h : round n s = .ok (ss, false) s') :
    ss = [] ∧ s' = s := by
  obtain ⟨_, _, hcurrent, h⟩ := bind_eq_ok.1 h
  cases hcurrent
  generalize s.cursor.kind = kind at h
  cases kind with
  | eof =>
    cases h
    exact ⟨rfl, rfl⟩
  | semicolon => cases h
  | _ =>
    obtain ⟨_, _, _, h⟩ := bind_eq_ok.1 h
    cases h

theorem parseStatementsAt_succ (n : Nat) : parseStatementsAt (n + 1) = (do
    let (results, more) ← round n
    if more then (results ++ ·) <$> parseStatementsAt n else return results) := by
  rw [parseStatementsAt_loops.unrolls, parseStatementsAt_loops.unrolls, rounds]
  rfl

/-- Where the first reading ends without a report, the second has read the same statements, and
goes on from there. -/
theorem parseStatementsAt_goesOn {w : Tandem} {s t s' : Reader} {ss : List Stmt}
    (hst : (Stage.firm w).Linked s t) (h : parseStatementsAt n s = .ok ss s')
    (hclean : s'.cursor.reported = []) :
    ∃ t', (Stage.firm w).Linked s' t' ∧ ∀ m, n ≤ m → ∃ k, m ≤ n + k ∧
      parseStatementsAt m t = ((ss.map (Stmt.relocate w.places) ++ ·) <$> parseStatementsAt k)
        t' := by
  induction n generalizing s t ss with
  | zero => cases h
  | succ n ih =>
    rw [parseStatementsAt_succ] at h
    obtain ⟨⟨results, more⟩, u, hround, hmore⟩ := bind_eq_ok.1 h
    cases more with
    | false =>
      cases hmore
      obtain ⟨rfl, rfl⟩ := eq_of_round hround
      refine ⟨t, hst, fun m _ => ⟨m, by omega, ?_⟩⟩
      exact (congrFun (id_map (parseStatementsAt m)) t).symm
    | true =>
      obtain ⟨rest, u', hrest, heq⟩ := bind_eq_ok.1 hmore
      cases heq
      have hu : u.cursor.reported = [] := ((parseStatementsAt_leads n).run hrest hclean).1
      obtain ⟨t₁, -, hl⟩ := round_goesOn (Nat.le_refl n) hst hround hu
      obtain ⟨t', hl', hrun⟩ := ih hl hrest
      refine ⟨t', hl', fun m hm => ?_⟩
      obtain ⟨m, rfl⟩ : ∃ k, m = k + 1 := ⟨m - 1, by omega⟩
      have hle : n ≤ m := Nat.le_of_succ_le_succ hm
      obtain ⟨k, hk, hrun⟩ := hrun m hle
      refine ⟨k, by omega, ?_⟩
      obtain ⟨t₂, ht, hl₂⟩ := round_goesOn hle hst hround hu
      have ht₂ : t₂ = t₁ := hl₂.unique hl
      rw [parseStatementsAt_succ, bind_apply, ht, ht₂]
      change ((results.map (Stmt.relocate w.places) ++ ·) <$> parseStatementsAt m) t₁ = _
      rw [map_apply, hrun, map_apply, map_apply]
      cases parseStatementsAt k t' <;> simp

/-- Reading goes on behind a part that is read without a report as if that part had been a program
of its own. Only an `else` could still belong to it. -/
theorem ofTokens_append {ts us : List Token} {Γ : Context} {p : Program}
    (hts : ∀ t ∈ ts, t.kind ≠ .eof) (hus : ∀ t ∈ us.head?, t.kind ≠ .kwElse)
    (h : ofTokens ts Γ = (p, [])) :
    ofTokens (ts ++ us) Γ =
      (⟨p.statements ++ (ofTokens us p.context).1.statements, (ofTokens us p.context).1.context⟩,
        (ofTokens us p.context).2) := by
  by_cases hnil : us = []
  · subst hnil
    have hempty : ofTokens [] p.context = (⟨[], p.context⟩, []) := rfl
    rw [List.append_nil, h, hempty, List.append_nil]
  · obtain ⟨ss, ts', s, hs, heof, hpasses, hof⟩ := ofTokens_ends ts Γ
    obtain ⟨ss₂, -, s₂, hs₂, -, -, hof₂⟩ := ofTokens_ends us p.context
    generalize fuel ⟨.ofTokens ts, Γ⟩ = n at hs
    generalize fuel ⟨.ofTokens us, p.context⟩ = k at hs₂
    obtain ⟨hp, hclean⟩ := Prod.mk.inj (hof.symm.trans h)
    obtain ⟨last, hlast, hkind⟩ := Cursor.upcoming_ofTokens hts
    have helse : ∀ t ∈ (Cursor.ofTokens us).upcoming.head?, t.kind ≠ .kwElse := by
      rwa [Cursor.head?_upcoming_ofTokens hnil]
    have hlike := Tandem.like_before hkind hlast hnil (by simp [Cursor.upcoming]) helse
    obtain ⟨t, ht, hgoesOn⟩ := parseStatementsAt_goesOn (s := ⟨.ofTokens ts, Γ⟩)
      (t := ⟨.ofTokens (ts ++ us), Γ⟩) ⟨hlike, rfl⟩ hs hclean
    -- The first reading is at its end, so the second stands before `us`.
    have hup : t.cursor.upcoming = (Cursor.ofTokens us).upcoming := by
      have hrest : s.cursor.upcoming = [last] :=
        hpasses.tokens.rest (hpasses.tokens.eq_of_kind hlast hts heof ▸ hlast)
      obtain ⟨vs, hvs, htup⟩ := ht.1.upcoming
      have hvs' : vs = [] := List.append_cancel_right (hvs.symm.trans hrest)
      rw [hvs'] at htup
      exact htup
    have hreported : t.cursor.reported = (Cursor.ofTokens us).reported := by
      rw [(Cursor.ofTokens_fresh us).2]
      exact ht.1.reported.trans (by rw [show (Located.cursor s).reported = [] from hclean]; rfl)
    have hpassed : t.cursor.passed = (Cursor.ofTokens us).passed ++ t.cursor.passed := by
      rw [(Cursor.ofTokens_fresh us).1, List.nil_append]
    have hΓ : t.context = p.context := ht.2.trans (congrArg Program.context hp)
    obtain ⟨k', hk', hrun⟩ := hgoesOn (n + k) (Nat.le_add_right n k)
    obtain ⟨t₂, ht₂, hreported₂, hΓ₂⟩ := parseStatementsAt_behind (by omega : k ≤ k')
      (Cursor.closed_ofTokens us) hup hpassed hreported hΓ hs₂
    have hall : parseStatementsAt (n + k) ⟨.ofTokens (ts ++ us), Γ⟩ = .ok (ss ++ ss₂) t₂ := by
      rw [hrun, map_apply, ht₂, ← Stmt.relocateAll_eq]
      exact congrArg (fun ss => Reply.ok (ss ++ ss₂) t₂) (Stmt.relocateAll_refl ss)
    rw [ofTokens_of_run hall, hof₂, ← hp, hreported₂, hΓ₂]

end Program

end TypedScript
