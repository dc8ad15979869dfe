import TypedScript.Proofs.Parsing.Passage

namespace TypedScript

open Token Grammar

theorem Cursor.Reaches.prefix_of_eof {c d : Cursor} {ts us rest : List Token} (h : c.Reaches ts d)
    (hd : d.kind = .eof) (hc : c.upcoming = us ++ rest) (hus : ∀ t ∈ us, t.kind ≠ .eof) :
    us <+: ts := by
  have hts : ts <+: us ++ rest := ⟨d.upcoming, by rw [← hc, h.upcoming]⟩
  obtain hle | ⟨vs, hvs⟩ := List.prefix_or_prefix_of_prefix (List.prefix_append us rest) hts
  · exact hle
  · cases vs with
    | nil => simp [← hvs]
    | cons v vs =>
      have hrest : d.upcoming = v :: vs ++ rest := by
        apply h.rest
        rw [hc, ← hvs, List.append_assoc]
      obtain ⟨hv, -⟩ := List.cons_eq_cons.1 hrest
      rw [Cursor.kind, hv] at hd
      exact absurd hd (hus v (by simp [← hvs]))

namespace Grammar

variable {us vs rest : List Token} {y z : Token}

theorem Orderly.of_close (h : Orderly vs .closeCurly) (hy : y.kind = .closeCurly)
    (hus : Balanced us) (hz : z.kind = .closeCurly) (hle : vs ++ [y] <+: us ++ z :: rest) :
    vs ++ [y] = us ++ [z] ∨ LacksBranch (us ++ [z]) ∧ us ++ [z] <+: vs := by
  have hvs : vs <+: us ++ z :: rest := (List.prefix_append vs [y]).trans hle
  cases h with
  | whole h =>
    obtain rfl := h.eq_of_close hy hus hz hle
    have hle := (List.prefix_append_right_inj vs).1 hle
    obtain ⟨rfl, -⟩ := List.cons_prefix_cons.1 hle
    exact .inl rfl
  | cut _ heof => cases heof
  | astray h hclose =>
    have hclose : surplus vs < 0 := hclose.resolve_right nofun
    exact .inr ⟨h.lacksBranch hus hz hvs, close_prefix hus.1 hclose hvs⟩

/-- The tokens end before a closing brace is found only if some branch is missing. -/
theorem Orderly.of_eof (h : Orderly vs .eof) (hus : Balanced us) (hz : z.kind = .closeCurly)
    (hvs : vs <+: us ++ z :: rest) (hle : us ++ [z] <+: vs) : LacksBranch (us ++ [z]) := by
  have hopen : ¬ Sheltered vs := by
    intro h
    have := h _ hle
    simp [hus.2, hz, Kind.weight] at this
  cases h with
  | whole h => exact absurd h.1 hopen
  | cut h _ => exact absurd h hopen
  | astray h _ => exact h.lacksBranch hus hz hvs

theorem LacksBranch.exists_keyword {ts : List Token} (h : LacksBranch ts) :
    ∃ t ∈ ts, t.kind ∈ [Kind.kwIf, .kwElse, .kwWhile] := by
  obtain ⟨hs, z, hhead, -, hin⟩ := h
  cases hhead with
  | cond hk _ => exact ⟨_, hin.subset List.mem_cons_self, by simp [hk]⟩
  | orElse hk => exact ⟨_, hin.subset List.mem_cons_self, by simp [hk]⟩
  | loop hk _ => exact ⟨_, hin.subset List.mem_cons_self, by simp [hk]⟩

end Grammar

namespace Stmt

/-- Reading a block, the braces of which match, never stops inside it, and ends right behind it
unless some branch is missing before a closing brace. -/
theorem parseBlockAt_contained {r : Reader} {o z : Token} {us rest : List Token} {n : Nat}
    (hc : r.cursor.Closed) (hr : r.cursor.upcoming = o :: us ++ z :: rest)
    (ho : o.kind = .openCurly) (hz : z.kind = .closeCurly) (hus : Balanced us)
    (heof : ∀ t ∈ us, t.kind ≠ .eof) (hn : r.fuel ≤ n) :
    (∃ b s, parseBlockAt n r = .ok b s ∧ r.cursor.Reaches (o :: us ++ [z]) s.cursor) ∨
      LacksBranch (us ++ [z]) ∧ ∃ ts s, o :: us ++ [z] <+: ts ∧ r.cursor.Reaches ts s.cursor ∧
        ((∃ b, parseBlockAt n r = .ok b s ∧ ts ≠ o :: us ++ [z]) ∨
          ∃ d, parseBlockAt n r = .error d s) := by
  have hinside : ∀ t ∈ o :: us ++ [z], t.kind ≠ .eof := by
    intro t ht
    obtain rfl | ht | rfl : t = o ∨ t ∈ us ∨ t = z := by simpa using ht
    · simp [ho]
    · exact heof t ht
    · simp [hz]
  have hblock := ((Passed.all n).block r hc).ends (by decide) hn
  obtain ⟨b, ts, s, hp, hts, o', vs, y, -, hy, hvs, rfl⟩ | ⟨d, ts, s, hp, hts, hbad⟩ := hblock
  · obtain ⟨rfl, htail⟩ := List.cons_eq_cons.1 (hr.symm.trans hts.tokens.upcoming)
    obtain heq | ⟨hlacks, hle⟩ := hvs.of_close hy hus hz ⟨_, htail.symm⟩
    · exact .inl ⟨b, s, hp, by simpa [heq] using hts.tokens⟩
    · refine .inr ⟨hlacks, o :: vs ++ [y], s, ?_, hts.tokens, .inl ⟨b, hp, fun heq => ?_⟩⟩
      · exact List.cons_prefix_cons.2 ⟨rfl, hle.trans (List.prefix_append vs [y])⟩
      · have hlen := hle.length_le
        have := congrArg List.length heq
        simp at hlen this
        omega
  · obtain ⟨hne, -⟩ | ⟨o', vs, -, hend, hvs, rfl⟩ := hbad
    · obtain ⟨hcurrent, -⟩ := List.cons_eq_cons.1 hr
      exact absurd (by rw [Cursor.kind, hcurrent, ho]) hne
    · have hsplit : r.cursor.upcoming = (o :: us ++ [z]) ++ rest := by simp [hr]
      have hle := hts.tokens.prefix_of_eof hend hsplit hinside
      obtain ⟨rfl, htail⟩ := List.cons_eq_cons.1 (hr.symm.trans hts.tokens.upcoming)
      have hlacks := hvs.of_eof hus hz ⟨_, htail.symm⟩ (List.cons_prefix_cons.1 hle).2
      exact .inr ⟨hlacks, _, s, hle, hts.tokens, .inr ⟨d, hp⟩⟩

theorem parseBlockAt_contained_of_faults :
    let read : Token.Kind × String → Token :=
      fun (kind, value) => ⟨kind, value, ⟨.nowhere, .nowhere⟩⟩
    let o := read (.openCurly, "\x7b")
    let us := [(.kwLet, "let"), (.assignment, "="), (.openCurly, "\x7b"), (.closeParen, ")"),
      (.closeCurly, "\x7d"), (.semicolon, ";"), (.identifier, "f"), (.openParen, "(")].map read
    let z := read (.closeCurly, "\x7d")
    let r : Reader := ⟨.ofTokens (o :: us ++ [z, read (.identifier, "x")]), .initial⟩
    Balanced us ∧ ∃ b s, parseBlockAt r.fuel r = .ok b s ∧
      r.cursor.Reaches (o :: us ++ [z]) s.cursor := by
  intro read o us z r
  have hus : Balanced us := by decide
  refine ⟨hus, ?_⟩
  obtain h | ⟨hlacks, -⟩ := parseBlockAt_contained (Cursor.closed_ofTokens _) rfl rfl rfl hus
    (by decide) (Nat.le_refl r.fuel)
  · exact h
  · obtain ⟨t, ht, hkind⟩ := hlacks.exists_keyword
    exact absurd hkind ((by decide : ∀ t ∈ us ++ [z], t.kind ∉ [.kwIf, .kwElse, .kwWhile]) t ht)

/-- `{ if true }`: what is read as the branch is the brace that closes the block, so that the
block is said not to be closed. -/
theorem not_parseBlockAt_contained :
    let read : Token.Kind × String → Token :=
      fun (kind, value) => ⟨kind, value, ⟨.nowhere, .nowhere⟩⟩
    let o := read (.openCurly, "\x7b")
    let us := [(.kwIf, "if"), (.kwTrue, "true")].map read
    let z := read (.closeCurly, "\x7d")
    let r : Reader := ⟨.ofTokens (o :: us ++ [z]), .initial⟩
    Balanced us ∧ (∀ t ∈ us, t.kind ≠ .eof) ∧
      ∃ d s, parseBlockAt r.fuel r = .error d s ∧ d.fault = .unclosedBlock := by
  intro read o us z r
  exact ⟨by decide, by decide, _, _, rfl, rfl⟩

end Stmt

end TypedScript
