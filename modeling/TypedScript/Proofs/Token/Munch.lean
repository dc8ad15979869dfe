import Mathlib.Data.List.MinMax
import TypedScript.Proofs.Token.Cuts

namespace TypedScript

namespace Pattern

def candidates (cs : List Char) : List (Pattern × List Char) :=
  table.filterMap fun p => (p.lexeme? cs).map (p, ·)

/-- The candidate with the most bytes. -/
def longest? (cs : List Char) : Option (Pattern × List Char) :=
  (candidates cs).argmax fun found => Source.byteLength found.2

theorem mem_candidates {p : Pattern} {cs l : List Char} :
    (p, l) ∈ candidates cs ↔ p ∈ table ∧ p.lexeme? cs = some l := by
  simp only [candidates, List.mem_filterMap, Option.map_eq_some_iff, Prod.mk.injEq]
  constructor
  · rintro ⟨_, hp, _, hl, rfl, rfl⟩
    exact ⟨hp, hl⟩
  · rintro ⟨hp, hl⟩
    exact ⟨p, hp, l, hl, rfl, rfl⟩

theorem longest?_eq_first? (cs : List Char) : longest? cs = first? cs := by
  cases hlongest : longest? cs with
  | none =>
    have hnone : candidates cs = [] := List.argmax_eq_none.1 hlongest
    rw [eq_comm, first?_eq_none_iff]
    intro p hp
    cases hl : p.lexeme? cs with
    | none => rfl
    | some l =>
      have hmem := mem_candidates.2 ⟨hp, hl⟩
      rw [hnone] at hmem
      cases hmem
  | some found =>
    obtain ⟨p, l⟩ := found
    obtain ⟨hp, hl⟩ := mem_candidates.1 (List.argmax_mem hlongest)
    refine (first?_of_longest hp hl fun q hq m hm => ?_).symm
    exact List.le_of_mem_argmax (f := fun found => Source.byteLength found.2)
      (mem_candidates.2 ⟨hq, hm⟩) hlongest

theorem ne_nil_of_longest? {p : Pattern} {cs l : List Char} (h : longest? cs = some (p, l)) :
    l ≠ [] :=
  (isPrefix_of_first? ((longest?_eq_first? cs).symm.trans h)).1

end Pattern

namespace Token

open Pattern (first? longest? Cuts taken table)

def munchFrom (file : String) (offset : Nat) (cs : List Char) : Except Diagnostic (List Token) :=
  match cs with
  | [] => .ok [endAt (Source.positionAt file offset)]
  | c :: cs =>
    match hlongest : longest? (c :: cs) with
    | none => .error ⟨.unrecognisedToken (String.singleton c), Source.positionAt file offset⟩
    | some (pattern, lexeme) =>
      let length := Source.byteLength lexeme
      let made := (ofLexeme? pattern lexeme).map fun (kind, value) =>
        (⟨kind, value, Source.spanAt file offset length⟩ : Token)
      (munchFrom file (offset + length) ((c :: cs).drop lexeme.length)).map (made.toList ++ ·)
termination_by cs.length
decreasing_by
  have hpos := List.length_pos_iff.2 (Pattern.ne_nil_of_longest? hlongest)
  rw [List.length_drop, List.length_cons]
  omega

def munch (source : String) (file : Option String) : Except Diagnostic (List Token) :=
  munchFrom (file.getD Source.defaultFile) 0 source.toList

variable {file : String}

theorem munchFrom_round {p : Pattern} {lexeme cs : List Char} {offset : Nat}
    (h : first? (lexeme ++ cs) = some (p, lexeme)) :
    munchFrom file offset (lexeme ++ cs) =
      (munchFrom file (offset + Source.byteLength lexeme) cs).map
        ((⟨p, lexeme, Source.spanAt file offset (Source.byteLength lexeme)⟩ :
          Piece).token?.toList ++ ·) := by
  obtain ⟨c, l, rfl⟩ := List.exists_cons_of_ne_nil (Pattern.isPrefix_of_first? h).1
  rw [← Pattern.longest?_eq_first?, List.cons_append] at h
  rw [List.cons_append, munchFrom]
  split
  · rename_i hnone
    rw [h] at hnone
    cases hnone
  · rename_i hsome
    rw [h] at hsome
    cases hsome
    rw [← List.cons_append, List.drop_left]
    rfl

theorem munchFrom_cuts {cs rest : List Char} {rounds : List (Pattern × List Char)} {offset : Nat}
    (h : Cuts cs rounds rest) : munchFrom file offset cs =
      (munchFrom file (offset + Source.byteLength (taken rounds)) rest).map
        (ofRounds file offset rounds ++ ·) := by
  induction h generalizing offset with
  | stop cs =>
    change _ = (munchFrom file offset cs).map id
    rw [Except.map_id]
    rfl
  | round hfirst _ ih =>
    rw [munchFrom_round hfirst, ih, Pattern.taken_cons, Source.byteLength_append, ← Nat.add_assoc,
      ofRounds_cons]
    cases munchFrom file _ _ with
    | error d => rfl
    | ok ts => exact congrArg Except.ok (List.append_assoc ..).symm

theorem munchFrom_of_first? {rest : List Char} {offset : Nat} (h : first? rest = none) :
    munchFrom file offset rest = match rest with
      | [] => .ok [endAt (Source.positionAt file offset)]
      | c :: _ => .error ⟨.unrecognisedToken (String.singleton c),
          Source.positionAt file offset⟩ := by
  cases rest with
  | nil => rw [munchFrom]
  | cons c rest =>
    rw [munchFrom]
    split
    · rfl
    · rename_i hsome
      rw [Pattern.longest?_eq_first?, h] at hsome
      cases hsome

/-- The pattern that is taken because it comes first also takes most, so that to take the first
match and to take the longest is the same scan. -/
theorem scan_eq_munch :
    (∀ cs p lexeme, first? cs = some (p, lexeme) → ∀ q ∈ table.erase p, ∀ other,
      q.lexeme? cs = some other → Source.byteLength other < Source.byteLength lexeme) ∧
    ∀ source file, scan source file = munch source file := by
  refine ⟨fun cs p lexeme h q hq other hother => Pattern.lt_of_first? h hq hother, ?_⟩
  intro source file
  obtain ⟨rounds, rest, hcuts, hrest⟩ := Pattern.exists_cuts source.toList
  rw [scan_of_cuts hcuts hrest, munch, munchFrom_cuts hcuts, munchFrom_of_first? hrest,
    Nat.zero_add]
  cases rest with
  | nil => rfl
  | cons c rest => rfl

theorem scan_eq_munch_of_comment :
    let cs := "// a / b\nc".toList
    first? cs = some (.comment, "// a / b".toList) ∧
    Pattern.fixed .slash "/" ∈ table.erase .comment ∧
    (Pattern.fixed .slash "/").lexeme? cs = some ['/'] ∧
    Source.byteLength ['/'] < Source.byteLength "// a / b".toList := by
  intro cs
  have hfirst : first? cs = some (.comment, "// a / b".toList) := by decide
  have hslash : Pattern.fixed .slash "/" ∈ table.erase .comment := by decide
  have hmatch : (Pattern.fixed .slash "/").lexeme? cs = some ['/'] := by decide
  exact ⟨hfirst, hslash, hmatch, scan_eq_munch.1 cs .comment _ hfirst _ hslash _ hmatch⟩

end Token

end TypedScript
