import TypedScript.Proofs.Layout.Faithful
import TypedScript.Proofs.Token.Cuts

namespace TypedScript

namespace Escape

def letters : List (Char × Char) :=
  [('n', '\n'), ('t', '\t'), ('r', '\r'), ('\\', '\\'), ('"', '"'), ('0', '\x00')]

def IsHexDigit (c : Char) (value : Nat) : Prop :=
  value < 16 ∧ (c = value.digitChar ∨ c = value.digitChar.toUpper)

instance (c : Char) (value : Nat) : Decidable (IsHexDigit c value) :=
  inferInstanceAs (Decidable (_ ∧ _))

/-- The ways to write a character between quotes. -/
inductive Spells : Char → List Char → Prop
  | raw {c : Char} (hquote : c ≠ '"') (hslash : c ≠ '\\') : Spells c [c]
  | letter {l c : Char} (h : (l, c) ∈ letters) : Spells c ['\\', l]
  | code {c a b : Char} {m n : Nat} (ha : IsHexDigit a m) (hb : IsHexDigit b n)
      (hc : c.toNat = 16 * m + n) : Spells c ['\\', 'x', a, b]

inductive SpellsAll : List Char → List Char → Prop
  | nil : SpellsAll [] []
  | cons {c : Char} {cs text rest : List Char} (h : Spells c text) (hs : SpellsAll cs rest) :
      SpellsAll (c :: cs) (text ++ rest)

theorem hexValue?_of_isHexDigit {c : Char} {value : Nat} (h : IsHexDigit c value) :
    hexValue? c = some value := by
  have hall : ∀ value < 16, hexValue? value.digitChar = some value ∧
      hexValue? value.digitChar.toUpper = some value := by decide
  obtain ⟨hlt, rfl | rfl⟩ := h
  · exact (hall value hlt).1
  · exact (hall value hlt).2

theorem IsHexDigit.plain {c : Char} {value : Nat} (h : IsHexDigit c value) :
    c ≠ '"' ∧ c ≠ '\\' := by
  constructor
  all_goals
    rintro rfl
    cases hexValue?_of_isHexDigit h

theorem named?_of_mem_letters : ∀ e ∈ letters, e.1 ≠ 'x' ∧ e.1 ≠ '\n' ∧ named? e.1 = some e.2 := by
  decide

theorem Spells.decode_append {c : Char} {text : List Char} (h : Spells c text) (rest : List Char) :
    decode (text ++ rest) = c :: decode rest := by
  cases h with
  | raw _ hslash =>
    rw [List.singleton_append, decode]
    · exact fun _ _ _ h _ => hslash h
    · exact fun _ h _ => hslash h
    · exact fun _ _ h _ => hslash h
  | letter hl =>
    obtain ⟨hx, -, hnamed⟩ := named?_of_mem_letters _ hl
    rw [List.cons_append, List.singleton_append, decode, hnamed]
    · exact fun _ _ _ h _ => hx h
    · exact fun _ h _ => hx h
  | code ha hb hc =>
    simp only [List.cons_append, List.nil_append, decode, hexValue?_of_isHexDigit ha,
      hexValue?_of_isHexDigit hb]
    rw [← hc, Char.ofNat_toNat]

theorem SpellsAll.decode_eq {cs text : List Char} (h : SpellsAll cs text) : decode text = cs := by
  induction h with
  | nil => rw [decode]
  | cons h _ ih => rw [h.decode_append, ih]

open Pattern (Quotable)

theorem Spells.quotable {c : Char} {text rest : List Char} (h : Spells c text)
    (hrest : Quotable rest) : Quotable (text ++ rest) := by
  cases h with
  | raw hquote hslash => exact .plain hquote hslash hrest
  | letter hl => exact .escape (named?_of_mem_letters _ hl).2.1 hrest
  | code ha hb _ =>
    exact .escape (by decide) (.plain ha.plain.1 ha.plain.2 (.plain hb.plain.1 hb.plain.2 hrest))

theorem SpellsAll.quotable {cs text : List Char} (h : SpellsAll cs text) : Quotable text := by
  induction h with
  | nil => exact .nil
  | cons h _ ih => exact h.quotable ih

end Escape

namespace Token

open Pattern (first? Cuts table)

def Scans (cs : List Char) (ts : List (Kind × String)) : Prop :=
  ∃ rounds, Cuts cs rounds [] ∧ rounds.filterMap (fun r => ofLexeme? r.1 r.2) = ts

namespace Scans

variable {cs : List Char} {ts : List (Kind × String)}

theorem nil : Scans [] [] := ⟨[], .stop [], rfl⟩

theorem token {p : Pattern} {lexeme : List Char} {t : Kind × String}
    (h : first? (lexeme ++ cs) = some (p, lexeme)) (ht : ofLexeme? p lexeme = some t)
    (hs : Scans cs ts) : Scans (lexeme ++ cs) (t :: ts) := by
  obtain ⟨rounds, hcuts, rfl⟩ := hs
  exact ⟨(p, lexeme) :: rounds, .round h hcuts, List.filterMap_cons_some ht⟩

theorem blanks {blanks : List Char} (hblanks : ∀ c ∈ blanks, Text.isBlank c = true)
    (hcs : ∀ c ∈ cs.head?, Text.isBlank c = false) (hs : Scans cs ts) :
    Scans (blanks ++ cs) ts := by
  by_cases hne : blanks = []
  · rwa [hne]
  · obtain ⟨rounds, hcuts, rfl⟩ := hs
    have hfirst : first? (blanks ++ cs) = some (.blank, blanks) :=
      Pattern.first?_of_matches (by decide) ⟨hne, hblanks⟩ hcs nofun
    exact ⟨(.blank, blanks) :: rounds, .round hfirst hcuts, rfl⟩

theorem bare_ofRounds {file : String} {offset : Nat} {rounds : List (Pattern × List Char)} :
    (ofRounds file offset rounds).map bare = rounds.filterMap fun r => ofLexeme? r.1 r.2 := by
  induction rounds generalizing offset with
  | nil => rfl
  | cons r rounds ih =>
    obtain ⟨p, lexeme⟩ := r
    rw [ofRounds_cons, List.map_append, ih, Piece.token?, List.filterMap_cons]
    cases ofLexeme? p lexeme with
    | none => rfl
    | some t => rfl

theorem scan_eq {source : String} (h : Scans source.toList ts) (name : Option String) :
    ∃ us last, scan source name = .ok (us ++ [last]) ∧ us.map bare = ts ∧
      last.bare = (.eof, "EOF") := by
  obtain ⟨rounds, hcuts, rfl⟩ := h
  exact ⟨_, _, scan_of_cuts hcuts rfl, bare_ofRounds, rfl⟩

end Scans

/-- The ways to write a token, by its kind and value. -/
inductive Spelled : Kind × String → List Char → Prop
  | identifier {text : List Char} (h : Pattern.name.Matches text)
      (hword : Kind.ofReserved? (String.ofList text) = none) :
      Spelled (.identifier, String.ofList text) text
  | keyword {word : String} {kind : Kind} (h : Kind.ofReserved? word = some kind) :
      Spelled (kind, word) word.toList
  | sign {sign : String} {kind : Kind} (h : Pattern.fixed kind sign ∈ table) :
      Spelled (kind, sign) sign.toList
  | integer {ds : List Char} (h : Pattern.IsDigits ds) : Spelled (.integer, String.ofList ds) ds
  | float {ds es : List Char} (hds : Pattern.IsDigits ds) (hes : Pattern.IsDigits es) :
      Spelled (.float, String.ofList (ds ++ '.' :: es)) (ds ++ '.' :: es)
  | string {cs text : List Char} (h : Escape.SpellsAll cs text) :
      Spelled (.string, String.ofList cs) ('"' :: text ++ ['"'])

inductive Written : List (Kind × String) → List Char → Prop
  | nil : Written [] []
  | cons {t : Kind × String} {ts : List (Kind × String)} {text blanks rest : List Char}
      (ht : Spelled t text) (hblanks : ∀ c ∈ blanks, Text.isBlank c = true)
      (hapart : ts ≠ [] → blanks ≠ []) (hts : Written ts rest) :
      Written (t :: ts) (text ++ blanks ++ rest)

theorem name_of_ofReserved? {word : String} {kind : Kind} (h : Kind.ofReserved? word = some kind) :
    Pattern.name.Matches word.toList := by
  rw [Kind.ofReserved?.eq_def] at h
  split at h
  case h_11 => cases h
  all_goals exact Pattern.matches_name (by decide) (by decide)

theorem Spelled.exists_pattern {t : Kind × String} {text : List Char} (h : Spelled t text) :
    ∃ p ∈ table, p.Matches text ∧ p ≠ .blank ∧ p ≠ .comment ∧ ofLexeme? p text = some t := by
  cases h with
  | identifier h hword =>
    refine ⟨.name, by decide, h, nofun, nofun, ?_⟩
    rw [ofLexeme?, hword]
    rfl
  | @keyword word kind h =>
    refine ⟨.name, by decide, name_of_ofReserved? h, nofun, nofun, ?_⟩
    rw [ofLexeme?, String.ofList_toList, h]
    rfl
  | @sign sign kind h => exact ⟨.fixed kind sign, h, rfl, nofun, nofun, rfl⟩
  | integer h =>
    refine ⟨.number, by decide, .inl h, nofun, nofun, ?_⟩
    rw [ofLexeme?, if_neg (Pattern.dot_not_mem h.2)]
  | float hds hes =>
    refine ⟨.number, by decide, .inr ⟨_, _, rfl, hds, hes⟩, nofun, nofun, ?_⟩
    rw [ofLexeme?, if_pos (by simp)]
  | string h =>
    refine ⟨.quoted, by decide, ⟨_, rfl, h.quotable⟩, nofun, nofun, ?_⟩
    simp [ofLexeme?, h.decode_eq]

theorem Spelled.head_not_blank {t : Kind × String} {text : List Char} (h : Spelled t text) :
    ∃ c cs, text = c :: cs ∧ Text.isBlank c = false := by
  obtain ⟨p, hp, htext, hne, -⟩ := h.exists_pattern
  obtain ⟨c, cs, rfl, hc⟩ := htext.head hp
  refine ⟨c, cs, rfl, ?_⟩
  by_contra hblank
  rw [Pattern.Head.of_blank (by simpa using hblank)] at hc
  cases p with
  | blank => exact hne rfl
  | _ => cases hc

theorem Written.head_not_blank {ts : List (Kind × String)} {text : List Char}
    (h : Written ts text) : ∀ c ∈ text.head?, Text.isBlank c = false := by
  cases h with
  | nil => exact fun _ hc => nomatch hc
  | cons ht _ _ _ =>
    obtain ⟨c, cs, rfl, hc⟩ := ht.head_not_blank
    rintro d ⟨⟩
    exact hc

theorem Written.scans {ts : List (Kind × String)} {text : List Char} (h : Written ts text) :
    Scans text ts := by
  induction h with
  | nil => exact .nil
  | @cons t ts text blanks rest ht hblanks hapart hts ih =>
    obtain ⟨p, hp, htext, hblank, hcomment, hmade⟩ := ht.exists_pattern
    rw [List.append_assoc]
    refine .token (Pattern.first?_of_blank hp htext hblank hcomment ?_) hmade
      (.blanks hblanks hts.head_not_blank ih)
    -- Behind the token comes a blank, or nothing.
    cases blanks with
    | cons c blanks =>
      rintro d ⟨⟩
      exact hblanks c List.mem_cons_self
    | nil =>
      cases hts with
      | nil => exact fun _ hc => nomatch hc
      | cons => exact absurd rfl (hapart (List.cons_ne_nil _ _))

/-- What is written is found again, and nothing else but the end. -/
theorem scan_written {ts : List (Kind × String)} {text : List Char} (h : Written ts text)
    (name : Option String) : ∃ us, scan (String.ofList text) name = .ok us ∧
      us.map bare = ts ++ [(.eof, "EOF")] := by
  have hscans : Scans (String.ofList text).toList ts := by
    rw [String.toList_ofList]
    exact h.scans
  obtain ⟨us, last, hscan, hus, hlast⟩ := hscans.scan_eq name
  refine ⟨us ++ [last], hscan, ?_⟩
  rw [List.map_append, hus, List.map_singleton, hlast]

theorem scan_written_of_escapes :
    let ts := [(Kind.identifier, "x"), (.minusMinus, "--"), (.float, "1.5"), (.string, "\"é\nJ")]
    let text := "x --\t1.5\n\"\\\"é\\n\\x4A\"".toList
    Written ts text ∧ ∃ us, scan (String.ofList text) none = .ok us ∧
      us.map bare = ts ++ [(.eof, "EOF")] := by
  intro ts text
  have hstring : Escape.SpellsAll ['"', 'é', '\n', 'J']
      ['\\', '"', 'é', '\\', 'n', '\\', 'x', '4', 'A'] :=
    .cons (.letter (by decide)) <| .cons (.raw (by decide) (by decide)) <|
      .cons (.letter (by decide)) <|
        .cons (.code (m := 4) (n := 10) (by decide) (by decide) (by decide)) .nil
  have hx : Spelled (.identifier, "x") ['x'] :=
    .identifier (Pattern.matches_name (by decide) (by decide)) (by decide)
  have hsign : Spelled (.minusMinus, "--") ['-', '-'] := .sign (by decide)
  have hone : Pattern.IsDigits ['1'] := by decide
  have hfive : Pattern.IsDigits ['5'] := by decide
  have hblank : ∀ c ∈ [' '], Text.isBlank c = true := List.all_eq_true.1 (by decide)
  have htab : ∀ c ∈ ['\t'], Text.isBlank c = true := List.all_eq_true.1 (by decide)
  have hline : ∀ c ∈ ['\n'], Text.isBlank c = true := List.all_eq_true.1 (by decide)
  have hts : Written ts (['x'] ++ [' '] ++ (['-', '-'] ++ ['\t'] ++ (['1', '.', '5'] ++ ['\n'] ++
      (('"' :: ['\\', '"', 'é', '\\', 'n', '\\', 'x', '4', 'A'] ++ ['"']) ++ [] ++ [])))) :=
    .cons hx hblank (by decide) <| .cons hsign htab (by decide) <|
      .cons (.float hone hfive) hline (by decide) <|
        .cons (.string hstring) (List.forall_mem_nil _) (by decide) .nil
  exact ⟨hts, scan_written hts none⟩

end Token

end TypedScript
