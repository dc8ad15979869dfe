import Mathlib.Data.List.Pairwise
import TypedScript.Proofs.Token.Match

/-! Why the order of the table does no harm: of two patterns that match at the same place, the one
that stands before the other takes more. -/

namespace TypedScript

theorem Source.byteLength_lt_of_prefix {cs ds : List Char} (h : cs <+: ds) (hne : ¬ ds <+: cs) :
    byteLength cs < byteLength ds := by
  obtain ⟨_ | ⟨c, rest⟩, rfl⟩ := h
  · rw [List.append_nil] at hne
    exact absurd List.prefix_rfl hne
  · rw [byteLength_append, byteLength_cons]
    have := c.utf8Size_pos
    omega

theorem Source.byteLength_le_of_prefix {cs ds : List Char} (h : cs <+: ds) :
    byteLength cs ≤ byteLength ds := by
  obtain ⟨rest, rfl⟩ := h
  rw [byteLength_append]
  exact Nat.le_add_right ..

theorem Text.isBlank_eq_false {c : Char} (hlow : 33 ≤ c.toNat) (hhigh : c.toNat ≤ 126) :
    isBlank c = false := by
  simp only [isBlank, blankRanges, List.any_cons, List.any_nil, Bool.or_false, Bool.or_eq_false_iff,
    Bool.and_eq_false_iff, decide_eq_false_iff_not]
  omega

namespace Pattern

theorem isLetter_iff {c : Char} : isLetter c = true ↔
    97 ≤ c.toNat ∧ c.toNat ≤ 122 ∨ 65 ≤ c.toNat ∧ c.toNat ≤ 90 ∨ c.toNat = 95 := by
  have hline : c = '_' ↔ c.toNat = 95 := Char.toNat_inj.symm
  simp only [isLetter, Bool.or_eq_true, Bool.and_eq_true, decide_eq_true_eq, beq_iff_eq, or_assoc,
    hline]
  rfl

theorem isDigit_iff {c : Char} : isDigit c = true ↔ 48 ≤ c.toNat ∧ c.toNat ≤ 57 := by
  simp only [isDigit, Bool.and_eq_true, decide_eq_true_eq]
  rfl

inductive Head
  | letter
  | digit
  | blank
  | quote
  | sign
  deriving DecidableEq

def Head.of (c : Char) : Head :=
  if isLetter c then letter
  else if isDigit c then digit
  else if Text.isBlank c then blank
  else if c = '"' then quote
  else sign

theorem Head.of_letter {c : Char} (h : isLetter c = true) : Head.of c = letter := if_pos h

theorem Head.of_digit {c : Char} (h : isDigit c = true) : Head.of c = digit := by
  have hletter : isLetter c ≠ true := by
    rw [Ne, isLetter_iff]
    have := isDigit_iff.1 h
    omega
  rw [of, if_neg hletter, if_pos h]

theorem Head.of_blank {c : Char} (h : Text.isBlank c = true) : Head.of c = blank := by
  have hrange : ¬ (33 ≤ c.toNat ∧ c.toNat ≤ 126) := by
    rintro ⟨hlow, hhigh⟩
    rw [Text.isBlank_eq_false hlow hhigh] at h
    cases h
  have hletter : isLetter c ≠ true := by
    rw [Ne, isLetter_iff]
    omega
  have hdigit : isDigit c ≠ true := by
    rw [Ne, isDigit_iff]
    omega
  rw [of, if_neg hletter, if_neg hdigit, if_pos h]

def head : Pattern → Head
  | name => .letter
  | number => .digit
  | blank => .blank
  | quoted => .quote
  | comment => .sign
  | fixed .. => .sign

def sign : Pattern → List Char
  | comment => ['/', '/']
  | fixed _ text => text.toList
  | _ => []

theorem head?_sign : ∀ p ∈ table, p.head = .sign → p.sign.head?.map Head.of = some .sign := by
  decide

theorem Matches.head {p : Pattern} (hp : p ∈ table) {text : List Char} (h : p.Matches text) :
    ∃ c cs, text = c :: cs ∧ Head.of c = p.head := by
  cases p with
  | name =>
    obtain ⟨c, cs, rfl, hc, -⟩ := h
    exact ⟨c, cs, rfl, Head.of_letter hc⟩
  | number =>
    obtain ⟨hne, hall⟩ | ⟨ds, es, rfl, ⟨hne, hall⟩, -⟩ := h
    all_goals
      obtain ⟨c, cs, rfl⟩ := List.exists_cons_of_ne_nil hne
      exact ⟨c, _, rfl, Head.of_digit (hall c List.mem_cons_self)⟩
  | blank =>
    obtain ⟨hne, hall⟩ := h
    obtain ⟨c, cs, rfl⟩ := List.exists_cons_of_ne_nil hne
    exact ⟨c, cs, rfl, Head.of_blank (hall c List.mem_cons_self)⟩
  | quoted =>
    obtain ⟨inside, rfl, -⟩ := h
    exact ⟨'"', _, rfl, by decide⟩
  | comment =>
    obtain ⟨line, rfl, -⟩ := h
    exact ⟨'/', _, rfl, by decide⟩
  | fixed kind text =>
    obtain rfl := h
    obtain ⟨c, hc, hhead⟩ := Option.map_eq_some_iff.1 (head?_sign _ hp rfl)
    obtain ⟨cs, hcs⟩ := List.head?_eq_some_iff.1 hc
    exact ⟨c, cs, hcs, hhead⟩

theorem Matches.sign {p : Pattern} {text : List Char} (h : p.Matches text) : p.sign <+: text := by
  cases p with
  | comment =>
    obtain ⟨line, rfl, -⟩ := h
    exact ⟨line, rfl⟩
  | fixed kind text =>
    obtain rfl := h
    exact List.prefix_rfl
  | _ => exact List.nil_prefix

/-- Two patterns of one head, the first of which is tried before the second. Both are signs, and
the second does not carry on the first. -/
def Precedes (p q : Pattern) : Prop :=
  p.head = q.head → q.head = .sign ∧ q ≠ comment ∧ ¬ p.sign <+: q.sign

instance (p q : Pattern) : Decidable (Precedes p q) :=
  inferInstanceAs (Decidable (_ → _))

theorem table_precedes : table.Pairwise Precedes := by decide

section

variable {p q : Pattern} {cs l m : List Char}

theorem matches_of_lexeme? (hp : p ∈ table) (h : p.lexeme? cs = some l) :
    p.Matches l ∧ ∃ rest, cs = l ++ rest ∧ p.Bounds l rest := by
  have hsolid := isSolid_of_mem_table p hp
  obtain ⟨-, rest, rfl⟩ := isPrefix_of_lexeme? hsolid h
  obtain ⟨hmatches, hbounds⟩ := (lexeme?_append_eq_some_iff hsolid).1 h
  exact ⟨hmatches, rest, rfl, hbounds⟩

theorem head_eq_of_lexeme? (hp : p ∈ table) (hq : q ∈ table) (hl : p.lexeme? cs = some l)
    (hm : q.lexeme? cs = some m) : p.head = q.head := by
  obtain ⟨hpl, rest, rfl, -⟩ := matches_of_lexeme? hp hl
  obtain ⟨hqm, rest', heq, -⟩ := matches_of_lexeme? hq hm
  obtain ⟨c, ds, rfl, hc⟩ := hpl.head hp
  obtain ⟨d, es, rfl, hd⟩ := hqm.head hq
  have hcd : c = d := (List.cons.inj heq).1
  rw [← hc, ← hd, hcd]

theorem eq_sign_of_matches (hhead : q.head = .sign) (hne : q ≠ comment) (h : q.Matches m) :
    m = q.sign := by
  cases q with
  | fixed kind text => exact h
  | comment => exact absurd rfl hne
  | _ => cases hhead

theorem lt_of_precedes (hp : p ∈ table) (hq : q ∈ table) (h : Precedes p q)
    (hl : p.lexeme? cs = some l) (hm : q.lexeme? cs = some m) :
    Source.byteLength m < Source.byteLength l := by
  obtain ⟨hsign, hne, hnot⟩ := h (head_eq_of_lexeme? hp hq hl hm)
  obtain ⟨hpl, rest, rfl, -⟩ := matches_of_lexeme? hp hl
  obtain ⟨hqm, rest', heq, -⟩ := matches_of_lexeme? hq hm
  obtain rfl := eq_sign_of_matches hsign hne hqm
  have hpre : q.sign <+: p.sign := by
    refine (List.prefix_or_prefix_of_prefix ⟨rest', heq.symm⟩ ?_).resolve_right hnot
    exact hpl.sign.trans (List.prefix_append l rest)
  calc Source.byteLength q.sign
    _ < Source.byteLength p.sign := Source.byteLength_lt_of_prefix hpre hnot
    _ ≤ Source.byteLength l := Source.byteLength_le_of_prefix hpl.sign

theorem mem_of_first? (h : first? cs = some (p, l)) : p ∈ table ∧ p.lexeme? cs = some l := by
  obtain ⟨q, hq, hmap⟩ := List.exists_of_findSome?_eq_some h
  obtain ⟨l, hl, heq⟩ := Option.map_eq_some_iff.1 hmap
  cases heq
  exact ⟨hq, hl⟩

theorem first?_eq_none_iff : first? cs = none ↔ ∀ p ∈ table, p.lexeme? cs = none := by
  simp [first?, List.findSome?_eq_none_iff]

/-- The first pattern that matches takes more than any other entry of the table that does. -/
theorem lt_of_first? (h : first? cs = some (p, l)) (hq : q ∈ table.erase p)
    (hm : q.lexeme? cs = some m) : Source.byteLength m < Source.byteLength l := by
  obtain ⟨hp, hl⟩ := mem_of_first? h
  have hqtable : q ∈ table := List.mem_of_mem_erase hq
  obtain ⟨before, p', behind, htable, hmap, hnone⟩ := List.findSome?_eq_some_iff.1 h
  obtain ⟨l', hl', heq⟩ := Option.map_eq_some_iff.1 hmap
  cases heq
  have hbefore {r : Pattern} (hr : r ∈ before) : r.lexeme? cs = none :=
    Option.map_eq_none_iff.1 (hnone r hr)
  have hpbefore : p ∉ before := fun hmem => by
    rw [hbefore hmem] at hl
    cases hl
  -- An entry before `p` does not match, and one behind it takes less.
  rw [htable, List.erase_append_right _ hpbefore, List.erase_cons_head, List.mem_append] at hq
  obtain hq | hq := hq
  · rw [hbefore hq] at hm
    cases hm
  · have hpairs := table_precedes
    rw [htable, List.pairwise_append, List.pairwise_cons] at hpairs
    exact lt_of_precedes hp hqtable (hpairs.2.1.1 q hq) hl hm

theorem first?_of_longest (hp : p ∈ table) (hl : p.lexeme? cs = some l)
    (hlong : ∀ q ∈ table, ∀ m, q.lexeme? cs = some m →
      Source.byteLength m ≤ Source.byteLength l) : first? cs = some (p, l) := by
  cases hfirst : first? cs with
  | none =>
    rw [first?_eq_none_iff.1 hfirst p hp] at hl
    cases hl
  | some found =>
    obtain ⟨q, m⟩ := found
    obtain ⟨hq, hm⟩ := mem_of_first? hfirst
    by_cases heq : p = q
    · subst heq
      rw [Option.some.inj (hm.symm.trans hl)]
    · have hlt := lt_of_first? hfirst ((List.mem_erase_of_ne heq).2 hp) hl
      exact absurd (hlong q hq m hm) (Nat.not_le.2 hlt)

theorem head_eq_sign (hp : p ∈ table) (hq : q ∈ table) (hne : p ≠ q) (h : p.head = q.head) :
    q.head = .sign := by
  have hsymm : Std.Symm fun p q : Pattern => p.head = q.head → q.head = .sign :=
    ⟨fun _ _ h heq => heq ▸ h heq.symm⟩
  exact (table_precedes.imp fun h heq => (h heq).1).forall hp hq hne h

theorem not_comment_sign : ∀ p ∈ table, p ≠ comment → ¬ comment.sign <+: p.sign := by decide

/-- A text that nothing behind it carries on is what is taken, if no sign of the table goes on from
it with the next character. -/
theorem first?_of_matches {text rest : List Char} (hp : p ∈ table) (h : p.Matches text)
    (hrest : p.Bounds text rest)
    (hsign : p.head = .sign → ∀ c ∈ rest.head?, ∀ q ∈ table, ¬ text ++ [c] <+: q.sign) :
    first? (text ++ rest) = some (p, text) := by
  have hl : p.lexeme? (text ++ rest) = some text :=
    (lexeme?_append_eq_some_iff (isSolid_of_mem_table p hp)).2 ⟨h, hrest⟩
  refine first?_of_longest hp hl fun q hq m hm => ?_
  by_cases hpq : p = q
  · subst hpq
    rw [Option.some.inj (hm.symm.trans hl)]
  have hhead : p.head = q.head := head_eq_of_lexeme? hp hq hl hm
  have hqsign : q.head = .sign := head_eq_sign hp hq hpq hhead
  obtain ⟨hqm, rest', heq, -⟩ := matches_of_lexeme? hq hm
  -- A sign that goes beyond the text would go on from it with the next character.
  have hshort : q.sign <+: text := by
    have hqtext : q.sign <+: text ++ rest := hqm.sign.trans ⟨rest', heq.symm⟩
    obtain hle | ⟨more, hmore⟩ :=
      List.prefix_or_prefix_of_prefix hqtext (List.prefix_append text rest)
    · exact hle
    · cases more with
      | nil => exact ⟨[], by rw [← hmore, List.append_nil, List.append_nil]⟩
      | cons c more =>
        rw [← hmore, List.prefix_append_right_inj] at hqtext
        obtain ⟨rest, rfl⟩ := hqtext
        refine absurd ⟨more, ?_⟩ (hsign (hhead.trans hqsign) c rfl q hq)
        rw [List.append_assoc, ← hmore]
        rfl
  have hne : q ≠ comment := by
    rintro rfl
    rw [eq_sign_of_matches (hhead.trans hqsign) hpq h] at hshort
    exact not_comment_sign p hp hpq hshort
  rw [eq_sign_of_matches hqsign hne hqm]
  exact Source.byteLength_le_of_prefix hshort

theorem isBlank_sign (hq : q ∈ table) {c : Char} (hc : c ∈ q.sign) : Text.isBlank c = false := by
  have hany : ∀ q ∈ table, q.sign.any Text.isBlank = false := by decide
  simpa using List.any_eq_false.1 (hany q hq) c hc

theorem first?_of_blank {text rest : List Char} (hp : p ∈ table) (h : p.Matches text)
    (hblank : p ≠ blank) (hcomment : p ≠ comment)
    (hrest : ∀ c ∈ rest.head?, Text.isBlank c = true) : first? (text ++ rest) = some (p, text) := by
  have hhead {c : Char} (hc : c ∈ rest.head?) : Head.of c = .blank := Head.of_blank (hrest c hc)
  have hletter {c : Char} (hc : c ∈ rest.head?) : isLetter c = false := by
    by_contra hletter
    cases (Head.of_letter (by simpa using hletter)).symm.trans (hhead hc)
  have hdigit {c : Char} (hc : c ∈ rest.head?) : isDigit c = false := by
    by_contra hdigit
    cases (Head.of_digit (by simpa using hdigit)).symm.trans (hhead hc)
  refine first?_of_matches hp h ?_ fun _ c hc q hq hmore => ?_
  · cases p with
    | name => exact fun c hc => by rw [isWordChar, hletter hc, hdigit hc]; rfl
    | number =>
      refine ⟨fun c hc => hdigit hc, .inr ?_⟩
      obtain hnil | ⟨es, after, rfl, -⟩ := fractionOf_cases rest
      · exact hnil
      · cases hhead (c := '.') rfl
    | blank => exact absurd rfl hblank
    | comment => exact absurd rfl hcomment
    | quoted => trivial
    | fixed => trivial
  · have hmem : c ∈ q.sign := hmore.subset (List.mem_append_right _ List.mem_cons_self)
    cases (hrest c hc).symm.trans (isBlank_sign hq hmem)

end

end Pattern

end TypedScript
