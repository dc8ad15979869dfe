import Mathlib.Data.List.TakeWhile
import TypedScript.Proofs.Layout.Scan

/-! The texts that each pattern stands for, said without the matcher. What a pattern takes is the
one of its texts at the front that nothing behind it carries on. -/

namespace TypedScript.Pattern

/-- The inside of a string literal. A backslash takes the next character with it, and no
newline. -/
inductive Quotable : List Char → Prop
  | nil : Quotable []
  | plain {c : Char} {cs : List Char} (hquote : c ≠ '"') (hslash : c ≠ '\\') (h : Quotable cs) :
      Quotable (c :: cs)
  | escape {c : Char} {cs : List Char} (hline : c ≠ '\n') (h : Quotable cs) :
      Quotable ('\\' :: c :: cs)

def IsDigits (cs : List Char) : Prop := cs ≠ [] ∧ ∀ c ∈ cs, isDigit c = true

instance (cs : List Char) : Decidable (IsDigits cs) :=
  decidable_of_iff (cs ≠ [] ∧ cs.all isDigit = true) (and_congr_right' List.all_eq_true)

def Matches : Pattern → List Char → Prop
  | name, text => ∃ c cs, text = c :: cs ∧ isLetter c = true ∧ ∀ d ∈ cs, isWordChar d = true
  | number, text => IsDigits text ∨ ∃ ds es, text = ds ++ '.' :: es ∧ IsDigits ds ∧ IsDigits es
  | blank, text => text ≠ [] ∧ ∀ c ∈ text, Text.isBlank c = true
  | quoted, text => ∃ inside, text = '"' :: inside ++ ['"'] ∧ Quotable inside
  | comment, text => ∃ line, text = '/' :: '/' :: line ∧ ∀ c ∈ line, c ≠ '\n'
  | fixed _ sign, text => text = sign.toList

theorem matches_name {text : List Char} (hfirst : text.head?.any isLetter = true)
    (hall : text.all isWordChar = true) : name.Matches text := by
  cases text with
  | nil => cases hfirst
  | cons c cs => exact ⟨c, cs, rfl, hfirst, (List.forall_mem_cons.1 (List.all_eq_true.1 hall)).2⟩

/-- What stands behind a text does not carry it on. -/
def Bounds : Pattern → List Char → List Char → Prop
  | name, _, rest => ∀ c ∈ rest.head?, isWordChar c = false
  | number, text, rest =>
    (∀ c ∈ rest.head?, isDigit c = false) ∧ ('.' ∈ text ∨ fractionOf rest = [])
  | blank, _, rest => ∀ c ∈ rest.head?, Text.isBlank c = false
  | comment, _, rest => ∀ c ∈ rest.head?, c = '\n'
  | quoted, _, _ => True
  | fixed .., _, _ => True

section takeWhile

variable {q : Char → Bool} {cs ds : List Char}

theorem takeWhile_eq_nil (h : ∀ c ∈ cs.head?, q c = false) : cs.takeWhile q = [] := by
  cases cs with
  | nil => rfl
  | cons c cs => rw [List.takeWhile_cons, h c rfl, if_neg Bool.false_ne_true]

theorem takeWhile_append_eq_left :
    (cs ++ ds).takeWhile q = cs ↔ (∀ c ∈ cs, q c = true) ∧ ∀ c ∈ ds.head?, q c = false := by
  constructor
  · intro h
    have hcs : ∀ c ∈ cs, q c = true := fun c hc => List.mem_takeWhile_imp (h.symm ▸ hc)
    rw [List.takeWhile_append_of_pos hcs, List.append_right_eq_self] at h
    refine ⟨hcs, fun c hc => ?_⟩
    obtain ⟨ds, rfl⟩ := List.head?_eq_some_iff.1 hc
    by_contra hq
    rw [List.takeWhile_cons, if_pos (by simpa using hq)] at h
    cases h
  · rintro ⟨hcs, hds⟩
    rw [List.takeWhile_append_of_pos hcs, takeWhile_eq_nil hds, List.append_nil]

theorem dropWhile_append_eq_right (hcs : ∀ c ∈ cs, q c = true)
    (hds : ∀ c ∈ ds.head?, q c = false) : (cs ++ ds).dropWhile q = ds := by
  have h := List.takeWhile_append_dropWhile (p := q) (l := cs ++ ds)
  rw [takeWhile_append_eq_left.2 ⟨hcs, hds⟩] at h
  exact List.append_cancel_left h

theorem head?_dropWhile (q : Char → Bool) (cs : List Char) :
    ∀ c ∈ (cs.dropWhile q).head?, q c = false := by
  intro c h
  have hnot := List.head?_dropWhile_not q cs
  rw [Option.mem_def.1 h] at hnot
  exact hnot

end takeWhile

theorem dot_not_mem {ds : List Char} (h : ∀ c ∈ ds, isDigit c = true) : '.' ∉ ds :=
  fun hmem => absurd (h '.' hmem) (by decide)

theorem quotedTail_of_quotable {inside : List Char} (h : Quotable inside) (rest : List Char) :
    quotedTail (inside ++ '"' :: rest) = some (inside ++ ['"']) := by
  induction h with
  | nil => rfl
  | @plain c cs hquote hslash _ ih =>
    rw [List.cons_append, quotedTail, if_neg hquote, ih]
    · rfl
    · exact fun h _ => hslash h
    · exact fun _ _ h _ => hslash h
  | @escape c cs hline _ ih =>
    rw [List.cons_append, List.cons_append, quotedTail, if_neg hline, ih]
    rfl

theorem quotable_of_quotedTail {cs tail : List Char} (h : quotedTail cs = some tail) :
    ∃ inside, tail = inside ++ ['"'] ∧ Quotable inside := by
  fun_induction quotedTail cs generalizing tail with
  | case1 => cases h
  | case2 => cases h
  | case3 => cases h
  | case4 c cs hline ih =>
    obtain ⟨tail, htail, rfl⟩ := Option.map_eq_some_iff.1 h
    obtain ⟨inside, rfl, hinside⟩ := ih htail
    exact ⟨'\\' :: c :: inside, rfl, .escape hline hinside⟩
  | case5 cs =>
    cases h
    exact ⟨[], rfl, .nil⟩
  | case6 c cs hone htwo hquote ih =>
    obtain ⟨tail, htail, rfl⟩ := Option.map_eq_some_iff.1 h
    obtain ⟨inside, rfl, hinside⟩ := ih htail
    have hslash : c ≠ '\\' := by
      rintro rfl
      cases cs with
      | nil => exact hone rfl rfl
      | cons d ds => exact htwo d ds rfl rfl
    exact ⟨c :: inside, rfl, .plain hquote hslash hinside⟩

theorem fractionOf_cases (cs : List Char) :
    fractionOf cs = [] ∨ ∃ es rest, cs = '.' :: es ++ rest ∧ fractionOf cs = '.' :: es ∧
      IsDigits es ∧ ∀ c ∈ rest.head?, isDigit c = false := by
  rw [fractionOf.eq_def]
  split
  · rename_i cs
    split
    · exact .inl rfl
    · rename_i hsome
      refine .inr ⟨cs.takeWhile isDigit, cs.dropWhile isDigit, ?_, rfl, ⟨?_, ?_⟩,
        head?_dropWhile isDigit cs⟩
      · rw [List.cons_append, List.takeWhile_append_dropWhile]
      · simpa using hsome
      · exact fun c hc => List.mem_takeWhile_imp hc
  · exact .inl rfl

theorem fractionOf_append {es rest : List Char} (hes : IsDigits es)
    (hrest : ∀ c ∈ rest.head?, isDigit c = false) : fractionOf ('.' :: es ++ rest) = '.' :: es := by
  rw [List.cons_append, fractionOf, takeWhile_append_eq_left.2 ⟨hes.2, hrest⟩,
    if_neg (by simpa using hes.1)]

theorem fractionOf_append_eq_nil {cs ds : List Char} (h : fractionOf (cs ++ ds) = []) :
    fractionOf cs = [] := by
  obtain hnil | ⟨es, rest, rfl, -, hes, -⟩ := fractionOf_cases cs
  · exact hnil
  · rw [List.append_assoc, List.cons_append, fractionOf,
      List.takeWhile_append_of_pos hes.2, if_neg (by simp [hes.1])] at h
    cases h

theorem matches_of_number {text rest : List Char}
    (h : number.lexeme? (text ++ rest) = some text) :
    number.Matches text ∧ number.Bounds text rest := by
  obtain ⟨digits, hdigits, htext⟩ := Option.map_eq_some_iff.1 h
  obtain ⟨rfl, hne⟩ := someText_eq_some hdigits
  have hall : IsDigits ((text ++ rest).takeWhile isDigit) :=
    ⟨hne, fun c hc => List.mem_takeWhile_imp hc⟩
  have hsplit := List.takeWhile_append_dropWhile (p := isDigit) (l := text ++ rest)
  have hhead := head?_dropWhile isDigit (text ++ rest)
  generalize (text ++ rest).takeWhile isDigit = digits at htext hall hsplit
  generalize (text ++ rest).dropWhile isDigit = behind at htext hsplit hhead
  rw [← htext, List.append_assoc] at hsplit
  have hbehind : behind = fractionOf behind ++ rest := List.append_cancel_left hsplit
  obtain hnil | ⟨es, after, hes, hfraction, hfine, hafter⟩ := fractionOf_cases behind
  · rw [hnil, List.append_nil] at htext
    rw [hnil, List.nil_append] at hbehind
    subst htext hbehind
    exact ⟨.inl hall, hhead, .inr hnil⟩
  · rw [hfraction] at htext
    rw [hfraction, hes] at hbehind
    obtain rfl := List.append_cancel_left hbehind
    subst htext
    exact ⟨.inr ⟨digits, es, rfl, hall, hfine⟩, hafter, .inl (by simp)⟩

theorem lexeme?_number {text rest : List Char} (h : number.Matches text)
    (hrest : number.Bounds text rest) : number.lexeme? (text ++ rest) = some text := by
  obtain ⟨hhead, hfraction⟩ := hrest
  obtain hdigits | ⟨ds, es, rfl, hds, hes⟩ := h
  · have hnil : fractionOf rest = [] := hfraction.resolve_left (dot_not_mem hdigits.2)
    rw [lexeme?, takeWhile_append_eq_left.2 ⟨hdigits.2, hhead⟩,
      dropWhile_append_eq_right hdigits.2 hhead, hnil, someText, if_neg (by simpa using hdigits.1)]
    exact congrArg some (List.append_nil text)
  · have hdot : ∀ c ∈ ('.' :: es ++ rest).head?, isDigit c = false := by
      rintro c ⟨⟩
      decide
    rw [List.append_assoc, lexeme?, takeWhile_append_eq_left.2 ⟨hds.2, hdot⟩,
      dropWhile_append_eq_right hds.2 hdot, fractionOf_append hes hhead, someText,
      if_neg (by simpa using hds.1)]
    rfl

theorem lexeme?_append_eq_some_iff {p : Pattern} (hp : p.isSolid = true) {text rest : List Char} :
    p.lexeme? (text ++ rest) = some text ↔ p.Matches text ∧ p.Bounds text rest := by
  cases p with
  | name =>
    cases text with
    | nil => cases rest <;> simp [lexeme?, Matches]
    | cons c cs =>
      simp only [List.cons_append, lexeme?, Option.ite_none_right_eq_some, Option.some.injEq,
        List.cons.injEq, true_and, takeWhile_append_eq_left, Matches, Bounds]
      constructor
      · rintro ⟨hc, hcs, hrest⟩
        exact ⟨⟨c, cs, ⟨rfl, rfl⟩, hc, hcs⟩, hrest⟩
      · rintro ⟨⟨c, cs, ⟨rfl, rfl⟩, hc, hcs⟩, hrest⟩
        exact ⟨hc, hcs, hrest⟩
  | number => exact ⟨matches_of_number, fun h => lexeme?_number h.1 h.2⟩
  | blank =>
    simp only [lexeme?, Matches, Bounds]
    constructor
    · intro h
      obtain ⟨htext, hne⟩ := someText_eq_some h
      obtain ⟨hcs, hrest⟩ := takeWhile_append_eq_left.1 htext.symm
      exact ⟨⟨hne, hcs⟩, hrest⟩
    · rintro ⟨⟨hne, hcs⟩, hrest⟩
      rw [takeWhile_append_eq_left.2 ⟨hcs, hrest⟩, someText, if_neg (by simpa using hne)]
  | quoted =>
    constructor
    · intro h
      obtain ⟨hne, -⟩ := isPrefix_of_lexeme? hp h
      obtain ⟨c, cs, rfl⟩ := List.exists_cons_of_ne_nil hne
      simp only [lexeme?] at h
      split at h
      · rename_i heq
        cases heq
        obtain ⟨tail, htail, heq⟩ := Option.map_eq_some_iff.1 h
        cases heq
        obtain ⟨inside, rfl, hinside⟩ := quotable_of_quotedTail htail
        exact ⟨⟨inside, rfl, hinside⟩, trivial⟩
      · cases h
    · rintro ⟨⟨inside, rfl, hinside⟩, -⟩
      simp only [List.cons_append, List.append_assoc, List.nil_append, lexeme?]
      rw [quotedTail_of_quotable hinside]
      rfl
  | comment =>
    constructor
    · intro h
      simp only [lexeme?] at h
      split at h <;> cases h
      rename_i line hline
      simp only [List.cons_append, List.cons.injEq, true_and] at hline
      obtain ⟨hcs, hrest⟩ := takeWhile_append_eq_left.1 (congrArg (List.takeWhile _) hline)
      exact ⟨⟨_, rfl, fun c hc => by simpa using hcs c hc⟩, fun c hc => by simpa using hrest c hc⟩
    · rintro ⟨⟨line, rfl, hline⟩, hrest⟩
      simp only [List.cons_append, lexeme?]
      rw [takeWhile_append_eq_left.2]
      exact ⟨fun c hc => by simpa using hline c hc, fun c hc => by simpa using hrest c hc⟩
  | fixed kind sign =>
    simp only [lexeme?, Matches, Bounds, and_true]
    constructor
    · intro h
      obtain ⟨-, heq⟩ := Option.ite_none_right_eq_some.1 h
      exact (Option.some.inj heq).symm
    · rintro rfl
      simp

theorem isSome_lexeme? {p : Pattern} {text : List Char} (h : p.Matches text) (rest : List Char) :
    (p.lexeme? (text ++ rest)).isSome = true := by
  have hfirst {q : Char → Bool} {c : Char} {cs : List Char} (hc : q c = true) :
      (someText ((c :: cs ++ rest).takeWhile q)).isSome = true := by
    rw [List.cons_append, List.takeWhile_cons, if_pos hc]
    rfl
  cases p with
  | name =>
    obtain ⟨c, cs, rfl, hc, -⟩ := h
    simp [lexeme?, hc]
  | number =>
    obtain ⟨c, cs, rfl, hc⟩ : ∃ c cs, text = c :: cs ∧ isDigit c = true := by
      obtain ⟨hne, hall⟩ | ⟨ds, es, rfl, ⟨hne, hall⟩, -⟩ := h
      all_goals
        obtain ⟨c, cs, rfl⟩ := List.exists_cons_of_ne_nil hne
        exact ⟨c, _, rfl, hall c List.mem_cons_self⟩
    rw [lexeme?, Option.isSome_map]
    exact hfirst hc
  | blank =>
    obtain ⟨hne, hall⟩ := h
    obtain ⟨c, cs, rfl⟩ := List.exists_cons_of_ne_nil hne
    exact hfirst (hall c List.mem_cons_self)
  | quoted =>
    rw [(lexeme?_append_eq_some_iff rfl).2 ⟨h, trivial⟩]
    rfl
  | comment =>
    obtain ⟨line, rfl, -⟩ := h
    rfl
  | fixed kind sign =>
    obtain rfl := h
    simp [lexeme?]

theorem lexeme?_eq_none_iff {p : Pattern} (hp : p.isSolid = true) {cs : List Char} :
    p.lexeme? cs = none ↔ ∀ text, text <+: cs → ¬ p.Matches text := by
  constructor
  · rintro h text ⟨rest, rfl⟩ htext
    have hsome := isSome_lexeme? htext rest
    rw [h] at hsome
    cases hsome
  · intro h
    cases htext : p.lexeme? cs with
    | none => rfl
    | some text =>
      obtain ⟨-, rest, rfl⟩ := isPrefix_of_lexeme? hp htext
      exact absurd ((lexeme?_append_eq_some_iff hp).1 htext).1 (h text ⟨rest, rfl⟩)

end TypedScript.Pattern
