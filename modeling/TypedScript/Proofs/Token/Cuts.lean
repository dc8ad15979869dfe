import TypedScript.Proofs.Token.Order

/-! A scan round by round. Every round takes a piece off the text, so the rounds come to an end,
and what the scan answers is read off the pieces. -/

namespace TypedScript

namespace Pattern

/-- Round after round the first pattern that matches takes its text, up to `rest`. -/
inductive Cuts : List Char → List (Pattern × List Char) → List Char → Prop
  | stop (cs : List Char) : Cuts cs [] cs
  | round {p : Pattern} {lexeme cs rest : List Char} {rounds : List (Pattern × List Char)}
      (h : first? (lexeme ++ cs) = some (p, lexeme)) (hcuts : Cuts cs rounds rest) :
      Cuts (lexeme ++ cs) ((p, lexeme) :: rounds) rest

def taken (rounds : List (Pattern × List Char)) : List Char := rounds.flatMap Prod.snd

@[simp] theorem taken_cons (p : Pattern) (lexeme : List Char)
    (rounds : List (Pattern × List Char)) :
    taken ((p, lexeme) :: rounds) = lexeme ++ taken rounds := rfl

theorem exists_cuts (cs : List Char) : ∃ rounds rest, Cuts cs rounds rest ∧ first? rest = none := by
  induction hn : cs.length using Nat.strong_induction_on generalizing cs with
  | _ n ih =>
    cases hfirst : first? cs with
    | none => exact ⟨[], cs, .stop cs, hfirst⟩
    | some found =>
      obtain ⟨p, lexeme⟩ := found
      obtain ⟨hne, ds, rfl⟩ := isPrefix_of_first? hfirst
      have hshort : ds.length < n := by
        have := List.length_pos_iff.2 hne
        rw [List.length_append] at hn
        omega
      obtain ⟨rounds, rest, hcuts, hrest⟩ := ih ds.length hshort ds rfl
      exact ⟨(p, lexeme) :: rounds, rest, .round hfirst hcuts, hrest⟩

theorem Bounds.of_append {p : Pattern} {text ds es : List Char} (h : p.Bounds text (ds ++ es)) :
    p.Bounds text ds := by
  have hhead {c : Char} (hc : c ∈ ds.head?) : c ∈ (ds ++ es).head? := by
    rw [List.head?_append, Option.mem_def.1 hc]
    rfl
  cases p with
  | number =>
    obtain ⟨hdigit, hfraction⟩ := h
    exact ⟨fun c hc => hdigit c (hhead hc), hfraction.imp_right fractionOf_append_eq_nil⟩
  | quoted => trivial
  | fixed => trivial
  | _ => exact fun c hc => h c (hhead hc)

theorem first?_of_append {p : Pattern} {lexeme ds es : List Char}
    (h : first? (lexeme ++ (ds ++ es)) = some (p, lexeme)) :
    first? (lexeme ++ ds) = some (p, lexeme) := by
  obtain ⟨hp, hl⟩ := mem_of_first? h
  have hsolid := isSolid_of_mem_table p hp
  obtain ⟨before, p', behind, htable, hmap, hnone⟩ := List.findSome?_eq_some_iff.1 h
  obtain ⟨l', -, heq⟩ := Option.map_eq_some_iff.1 hmap
  cases heq
  refine List.findSome?_eq_some_iff.2 ⟨before, p, behind, htable, ?_, fun q hq => ?_⟩
  · obtain ⟨hmatches, hbounds⟩ := (lexeme?_append_eq_some_iff hsolid).1 hl
    rw [(lexeme?_append_eq_some_iff hsolid).2 ⟨hmatches, hbounds.of_append⟩]
    rfl
  · have hq' : q.isSolid = true := isSolid_of_mem_table q (htable ▸ List.mem_append_left _ hq)
    rw [Option.map_eq_none_iff, lexeme?_eq_none_iff hq']
    rintro text htext
    refine (lexeme?_eq_none_iff hq').1 (Option.map_eq_none_iff.1 (hnone q hq)) text ?_
    rw [← List.append_assoc]
    exact htext.trans (List.prefix_append _ es)

namespace Cuts

variable {cs rest : List Char} {rounds : List (Pattern × List Char)}

theorem eq (h : Cuts cs rounds rest) : cs = taken rounds ++ rest := by
  induction h with
  | stop cs => rfl
  | round _ _ ih => rw [taken_cons, List.append_assoc, ← ih]

theorem truncate (h : Cuts cs rounds rest) : Cuts (taken rounds) rounds [] := by
  induction h with
  | stop cs => exact .stop []
  | round hfirst hcuts ih =>
    rw [hcuts.eq] at hfirst
    exact .round (first?_of_append hfirst) ih

theorem length_le (h : Cuts cs rounds rest) : rounds.length ≤ cs.length := by
  induction h with
  | stop cs => exact Nat.zero_le _
  | round hfirst _ ih =>
    have := List.length_pos_iff.2 (isPrefix_of_first? hfirst).1
    rw [List.length_append, List.length_cons]
    omega

end Cuts

end Pattern

namespace Token

open Pattern (first? Cuts taken)

structure Piece where
  pattern : Pattern
  text : List Char
  span : Span

def Piece.token? (x : Piece) : Option Token :=
  (ofLexeme? x.pattern x.text).map fun made => ⟨made.1, made.2, x.span⟩

def pieces (file : String) : Nat → List (Pattern × List Char) → List Piece
  | _, [] => []
  | offset, (p, lexeme) :: rounds =>
    ⟨p, lexeme, Source.spanAt file offset (Source.byteLength lexeme)⟩ ::
      pieces file (offset + Source.byteLength lexeme) rounds

def ofRounds (file : String) (offset : Nat) (rounds : List (Pattern × List Char)) : List Token :=
  (pieces file offset rounds).filterMap Piece.token?

def outcome (file : String) (rounds : List (Pattern × List Char)) :
    List Char → Except Diagnostic (List Token)
  | [] => .ok (ofRounds file 0 rounds ++
      [endAt (Source.positionAt file (Source.byteLength (taken rounds)))])
  | c :: _ => .error ⟨.unrecognisedToken (String.singleton c),
      Source.positionAt file (Source.byteLength (taken rounds))⟩

variable {file : String} {found : List Token} {offset : Nat}

theorem ofRounds_cons (p : Pattern) (lexeme : List Char) (rounds : List (Pattern × List Char)) :
    ofRounds file offset ((p, lexeme) :: rounds) =
      (⟨p, lexeme, Source.spanAt file offset (Source.byteLength lexeme)⟩ : Piece).token?.toList ++
        ofRounds file (offset + Source.byteLength lexeme) rounds := by
  rw [ofRounds, pieces, List.filterMap_cons]
  cases Piece.token? _ with
  | none => rfl
  | some t => rfl

theorem scanFrom_inside (lexeme cs : List Char) :
    scanFrom file found offset lexeme.length (lexeme ++ cs) =
      scanFrom file found (offset + Source.byteLength lexeme) 0 cs := by
  induction lexeme generalizing offset with
  | nil => rfl
  | cons c lexeme ih =>
    rw [List.length_cons, List.cons_append, scanFrom, ih, Source.byteLength_cons, Nat.add_assoc]

theorem scanFrom_round {p : Pattern} {lexeme cs : List Char}
    (h : first? (lexeme ++ cs) = some (p, lexeme)) :
    scanFrom file found offset 0 (lexeme ++ cs) =
      scanFrom file ((⟨p, lexeme, Source.spanAt file offset (Source.byteLength lexeme)⟩ :
        Piece).token?.toList ++ found) (offset + Source.byteLength lexeme) 0 cs := by
  obtain ⟨c, l, rfl⟩ := List.exists_cons_of_ne_nil (Pattern.isPrefix_of_first? h).1
  rw [List.cons_append] at h
  rw [List.cons_append, scanFrom, h]
  dsimp only
  rw [List.length_cons, Nat.add_sub_cancel, scanFrom_inside, Nat.add_assoc,
    ← Source.byteLength_cons, Piece.token?]
  cases ofLexeme? p (c :: l) with
  | none => rfl
  | some made => rfl

theorem scanFrom_cuts {cs rest : List Char} {rounds : List (Pattern × List Char)}
    (h : Cuts cs rounds rest) : scanFrom file found offset 0 cs =
      scanFrom file ((ofRounds file offset rounds).reverse ++ found)
        (offset + Source.byteLength (taken rounds)) 0 rest := by
  induction h generalizing found offset with
  | stop cs => rfl
  | round hfirst _ ih =>
    rw [scanFrom_round hfirst, ih, ofRounds_cons, Pattern.taken_cons, Source.byteLength_append,
      Nat.add_assoc]
    cases Piece.token? _ with
    | none => rfl
    | some t => simp

theorem scan_of_cuts {source : String} {name : Option String} {rest : List Char}
    {rounds : List (Pattern × List Char)} (h : Cuts source.toList rounds rest)
    (hrest : first? rest = none) :
    scan source name = outcome (name.getD Source.defaultFile) rounds rest := by
  rw [scan, scanFrom_cuts h, List.append_nil, Nat.zero_add]
  cases rest with
  | nil => rw [scanFrom, List.reverse_cons, List.reverse_reverse, outcome]
  | cons c rest => rw [scanFrom, hrest, outcome]

end Token

end TypedScript
