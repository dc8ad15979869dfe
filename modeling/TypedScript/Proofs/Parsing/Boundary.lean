import Mathlib.Order.Bounds.Defs
import TypedScript.Proofs.Layout.Split
import TypedScript.Proofs.Parsing.Passage
import TypedScript.Proofs.Static.ReadStmt

/-! Where the skipping of a malformed statement ends. The depth that is counted is the surplus of
braces among the tokens skipped, so the place is the first one with which these are a whole
statement, or that ends the block around it or the text. -/

namespace TypedScript

namespace Token

/-- The tokens end with a `;` outside the braces that they open, or with the brace that closes the
last of these. -/
def Concludes (us : List Token) : Prop :=
  ∃ vs x, us = vs ++ [x] ∧
    ((x.kind = .semicolon ∧ surplus vs = 0) ∨ (x.kind = .closeCurly ∧ surplus us = 0))

structure Boundary (us : List Token) (t : Token) : Prop where
  sheltered : Sheltered us
  ends : t.kind = .eof ∨ (t.kind = .closeCurly ∧ surplus us = 0) ∨ Concludes us

/-- Skipping from the place `i` in a list of tokens can end at the place `k`. -/
def BoundaryAt (tokens : List Token) (i k : Nat) : Prop :=
  ∃ before us t after, tokens = before ++ us ++ t :: after ∧ before.length = i ∧
    (before ++ us).length = k ∧ Boundary us t

theorem not_concludes_nil : ¬ Concludes [] := by
  rintro ⟨vs, x, hnil, -⟩
  simp at hnil

theorem concludes_concat {us : List Token} {x : Token} : Concludes (us ++ [x]) ↔
    (x.kind = .semicolon ∧ surplus us = 0) ∨ (x.kind = .closeCurly ∧ surplus (us ++ [x]) = 0) := by
  refine ⟨?_, fun h => ⟨us, x, rfl, h⟩⟩
  rintro ⟨vs, y, heq, h⟩
  obtain ⟨rfl, hlast⟩ := List.append_inj' heq rfl
  cases hlast
  exact h

def NoBoundary (us vs : List Token) : Prop :=
  ∀ ws x xs, vs = ws ++ x :: xs → ¬ Boundary (us ++ ws) x

theorem NoBoundary.nil (us : List Token) : NoBoundary us [] := by
  intro ws x xs hsplit
  simp at hsplit

theorem NoBoundary.cons {us vs : List Token} {c : Token} (hc : ¬ Boundary us c)
    (h : NoBoundary (us ++ [c]) vs) : NoBoundary us (c :: vs) := by
  intro ws x xs hsplit
  obtain ⟨rfl, hcons⟩ | ⟨ws, rfl, hvs⟩ := List.cons_eq_append_iff.1 hsplit
  · cases hcons
    rwa [List.append_nil]
  · have := h ws x xs hvs
    rwa [List.append_assoc] at this

theorem NoBoundary.length_le {vs rest ws after : List Token} {t : Token} (h : NoBoundary [] vs)
    (hsplit : vs ++ rest = ws ++ t :: after) (ht : Boundary ws t) : vs.length ≤ ws.length := by
  obtain ⟨xs, rfl, -⟩ | ⟨xs, rfl, hxs⟩ := List.append_eq_append_iff.1 hsplit
  · rw [List.length_append]
    exact Nat.le_add_right _ _
  · cases xs with
    | nil => rw [List.append_nil]
    | cons x xs =>
      cases hxs
      exact absurd ht (h ws t xs rfl)

theorem Sheltered.concat {us : List Token} {x : Token} (h : Sheltered us)
    (hx : 0 ≤ surplus (us ++ [x])) : Sheltered (us ++ [x]) := by
  intro vs hvs
  obtain rfl | hvs := List.prefix_concat_iff.1 hvs
  · exact hx
  · exact h vs hvs

end Token

namespace Cursor

open Token

variable {depth : Nat} {k : Token.Kind}

theorem skipRound_eq_none : skipRound depth k = none ↔
    k = .eof ∨ (k = .closeCurly ∧ depth = 0) := by
  cases k <;> rcases depth with _ | _ | depth <;> simp [skipRound]

theorem skipRound_eq_last : skipRound depth k = some none ↔
    (k = .semicolon ∧ depth = 0) ∨ (k = .closeCurly ∧ depth = 1) := by
  cases k <;> rcases depth with _ | _ | depth <;> simp [skipRound]

theorem skipRound_goesOn {depth' : Nat} (h : skipRound depth k = some (some depth')) :
    (depth' : Int) = depth + k.weight ∧ ¬ (k = .semicolon ∧ depth = 0) ∧
      ¬ (k = .closeCurly ∧ depth' = 0) := by
  cases k <;> rcases depth with _ | _ | depth <;> cases h <;>
    simp only [Kind.weight, reduceCtorEq, false_and, true_and, not_false_eq_true, and_true] <;>
    omega

structure Skipped (us : List Token) (depth : Nat) : Prop where
  sheltered : Sheltered us
  depth : surplus us = depth
  goesOn : ¬ Concludes us

namespace Skipped

variable {us : List Token} {t : Token}

theorem nil : Skipped [] 0 := ⟨.nil, rfl, not_concludes_nil⟩

theorem boundary_iff (h : Skipped us depth) : Boundary us t ↔ skipRound depth t.kind = none := by
  rw [skipRound_eq_none]
  have hdepth : surplus us = 0 ↔ depth = 0 := by rw [h.depth, Int.natCast_eq_zero]
  constructor
  · rintro ⟨-, hend | hclose | hconcl⟩
    · exact .inl hend
    · exact .inr ⟨hclose.1, hdepth.1 hclose.2⟩
    · exact absurd hconcl h.goesOn
  · intro hround
    refine ⟨h.sheltered, hround.imp_right fun hclose => .inl ?_⟩
    exact ⟨hclose.1, hdepth.2 hclose.2⟩

theorem boundary_behind (h : Skipped us depth) {c : Token}
    (hround : skipRound depth c.kind = some none) : Boundary (us ++ [c]) t := by
  have hlast := skipRound_eq_last.1 hround
  have hsum : surplus (us ++ [c]) = 0 := by
    obtain ⟨hc, rfl⟩ | ⟨hc, rfl⟩ := hlast
    · simp [h.depth, hc, Kind.weight]
    · simp [h.depth, hc, Kind.weight]
  have hconcludes : Concludes (us ++ [c]) := by
    rw [concludes_concat]
    obtain ⟨hc, rfl⟩ | ⟨hc, -⟩ := hlast
    · exact .inl ⟨hc, h.depth⟩
    · exact .inr ⟨hc, hsum⟩
  exact ⟨h.sheltered.concat (Int.le_of_eq hsum.symm), .inr (.inr hconcludes)⟩

theorem step (h : Skipped us depth) {c : Token} {depth' : Nat}
    (hround : skipRound depth c.kind = some (some depth')) : Skipped (us ++ [c]) depth' := by
  obtain ⟨hdepth, hsemicolon, hbrace⟩ := skipRound_goesOn hround
  have hsum : surplus (us ++ [c]) = depth' := by simp [h.depth, hdepth]
  refine ⟨h.sheltered.concat (by omega), hsum, ?_⟩
  rw [concludes_concat, h.depth, hsum]
  rintro (⟨hc, hzero⟩ | ⟨hc, hzero⟩)
  · exact hsemicolon ⟨hc, Int.natCast_eq_zero.1 hzero⟩
  · exact hbrace ⟨hc, Int.natCast_eq_zero.1 hzero⟩

end Skipped

theorem skipFrom_boundary {s : Cursor} (hs : s.Closed) {us : List Token} (h : Skipped us depth) :
    ∃ vs, s.Reaches vs (s.skipFrom depth) ∧ Boundary (us ++ vs) (s.skipFrom depth).current ∧
      NoBoundary us vs := by
  induction hn : s.ahead.length generalizing s us depth with
  | zero =>
    have hnil : s.ahead = [] := List.length_eq_zero_iff.1 hn
    rw [skipFrom_of_nil hnil]
    refine ⟨[], .refl s, ?_, .nil us⟩
    rw [List.append_nil, h.boundary_iff, skipRound_eq_none]
    exact .inl (hs.kind hnil)
  | succ n ih =>
    have hne : s.ahead ≠ [] := fun hnil => by simp [hnil] at hn
    rw [skipFrom_of_ne_nil hne]
    cases hround : skipRound depth s.kind with
    | none =>
      refine ⟨[], .refl s, ?_, .nil us⟩
      rw [List.append_nil, h.boundary_iff]
      exact hround
    | some round =>
      have hhere : ¬ Boundary us s.current := by
        rw [h.boundary_iff]
        intro hnone
        exact absurd (hround.symm.trans hnone) nofun
      have hnext : s.Reaches [s.current] s.next := by
        apply reaches_next hs
        intro heof
        exact hhere (h.boundary_iff.2 (skipRound_eq_none.2 (.inl heof)))
      cases round with
      | none => exact ⟨[s.current], hnext, h.boundary_behind hround, .cons hhere (.nil _)⟩
      | some depth' =>
        have hlength : s.next.ahead.length = n := by
          have := (next_of_ne_nil hne).1
          omega
        obtain ⟨vs, hvs, hboundary, hfirst⟩ := ih (hnext.closed hs) (h.step hround) hlength
        refine ⟨s.current :: vs, hnext.trans hvs, ?_, .cons hhere hfirst⟩
        rwa [List.append_assoc] at hboundary

/-- Skipping a statement from any place in a list of tokens ends at the first boundary. -/
theorem skipStatement_isLeast {tokens us : List Token} {s : Cursor}
    (h : (ofTokens tokens).Reaches us s) :
    IsLeast {k | BoundaryAt (ofTokens tokens).upcoming s.index k} s.skipStatement.index ∧
      (∃ vs, (ofTokens tokens).Reaches vs s.skipStatement) ∧
      s.skipStatement.reported = s.reported := by
  obtain ⟨vs, hvs, hboundary, hfirst⟩ := skipFrom_boundary (h.closed (closed_ofTokens tokens)) .nil
  have hstart : (ofTokens tokens).index = 0 := congrArg List.length (ofTokens_fresh tokens).1
  have hindex : s.index = us.length := by rw [h.index, hstart, Nat.zero_add]
  have hstop : s.skipStatement.index = us.length + vs.length := by
    rw [skipStatement, ← skipFrom, hvs.index, hindex]
  have hall : (ofTokens tokens).upcoming = us ++ vs ++ (s.skipFrom 0).upcoming :=
    (h.trans hvs).upcoming
  refine ⟨⟨⟨us, vs, _, _, hall, hindex.symm, ?_, hboundary⟩, ?_⟩, ⟨_, h.trans hvs⟩,
    skip_reported ..⟩
  · rw [List.length_append, hstop]
  · rintro k ⟨before, ws, t, after, hsplit, hbefore, rfl, ht⟩
    rw [hall, List.append_assoc, List.append_assoc] at hsplit
    obtain ⟨rfl, hrest⟩ := List.append_inj hsplit (by rw [hbefore, hindex])
    rw [hstop, List.length_append]
    exact Nat.add_le_add_left (hfirst.length_le hrest ht) _

/-- `x { ; { } } ; }` from its start, where the outer braces are closed before the second `;`, and
from behind that, where the last brace closes a block around. -/
theorem skipStatement_isLeast_of_nested :
    let tokens : List Token := [.identifier, .openCurly, .semicolon, .openCurly, .closeCurly,
      .closeCurly, .semicolon, .closeCurly].map fun kind => ⟨kind, "", default⟩
    ∃ s t, (ofTokens tokens).Reaches [] s ∧ (ofTokens tokens).Reaches (tokens.take 7) t ∧
      IsLeast {k | BoundaryAt (ofTokens tokens).upcoming 0 k} 6 ∧
      IsLeast {k | BoundaryAt (ofTokens tokens).upcoming 7 k} 7 := by
  intro tokens
  let t : Cursor := next^[7] (ofTokens tokens)
  have hs : (ofTokens tokens).Reaches [] (ofTokens tokens) := .refl _
  have ht : (ofTokens tokens).Reaches (tokens.take 7) t := ⟨by decide, by decide⟩
  exact ⟨ofTokens tokens, t, hs, ht, (skipStatement_isLeast hs).1, (skipStatement_isLeast ht).1⟩

end Cursor

end TypedScript
