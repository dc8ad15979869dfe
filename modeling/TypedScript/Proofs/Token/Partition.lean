import TypedScript.Proofs.Token.Cuts

namespace TypedScript

def Span.Has (span : Span) (i : Nat) : Prop := span.start.offset ≤ i ∧ i < span.stop.offset

def Span.Apart (a b : Span) : Prop :=
  a.stop.offset ≤ b.start.offset ∨ b.stop.offset ≤ a.start.offset

/-- The text of a span, both ends of which are between characters of the source. -/
def Source.Covers (source : List Char) (span : Span) (text : List Char) : Prop :=
  ∃ before after, source = before ++ text ++ after ∧ span.start.offset = byteLength before ∧
    span.stop.offset = byteLength (before ++ text)

namespace Text

def hexDigitValue (c : Char) : Nat :=
  if c.isDigit then c.toNat - '0'.toNat else c.toNat - 'a'.toNat + 10

def hexValue (digits : List Char) : Nat :=
  digits.foldl (fun n c => 16 * n + hexDigitValue c) 0

theorem hexDigitValue_digitChar : ∀ n < 16, hexDigitValue n.digitChar = n := by decide

theorem hexValue_hexDigits (n : Nat) : hexValue (hexDigits n) = n := by
  induction n using Nat.strong_induction_on with
  | _ n ih =>
    rw [hexDigits, Nat.toDigits_eq_if (by decide)]
    split
    · rename_i hlt
      change 16 * 0 + hexDigitValue n.digitChar = n
      rw [hexDigitValue_digitChar n hlt, Nat.mul_zero, Nat.zero_add]
    · have hhigh : hexValue (Nat.toDigits 16 (n / 16)) = n / 16 := ih (n / 16) (by omega)
      have hlow := hexDigitValue_digitChar (n % 16) (Nat.mod_lt n (by decide))
      rw [hexValue, List.foldl_append]
      change 16 * hexValue (Nat.toDigits 16 (n / 16)) + hexDigitValue (n % 16).digitChar = n
      rw [hhigh, hlow, Nat.div_add_mod]

def letters : List (Char × Char) :=
  [('\x00', '0'), ('\t', 't'), ('\r', 'r'), ('\n', 'n'), ('"', '"'), ('\\', '\\')]

/-- What a message shows for a character: the character, or an escape that tells which it is. -/
inductive Shows (c : Char) : List Char → Prop
  | plain : c ∉ letters.map Prod.fst → isHidden c = false → Shows c [c]
  | letter {l : Char} : (c, l) ∈ letters → Shows c ['\\', l]
  | code {digits : List Char} : isHidden c → hexValue digits = c.toNat →
      Shows c ('\\' :: 'u' :: '\x7b' :: digits ++ ['\x7d'])

theorem quotedChar_shows (c : Char) : Shows c (quotedChar c) := by
  unfold quotedChar
  split
  case h_7 =>
    split
    · exact .code ‹_› (hexValue_hexDigits _)
    · exact .plain (by simp_all [letters]) (eq_false_of_ne_true ‹_›)
  all_goals exact .letter (by decide)

theorem quoted_shows (c : Char) :
    ∃ shown, quoted (String.singleton c) = String.ofList ('"' :: shown ++ ['"']) ∧
      Shows c shown := by
  refine ⟨quotedChar c, ?_, quotedChar_shows c⟩
  rw [quoted, String.toList_singleton, List.flatMap_singleton]
  rfl

theorem Shows.char_unique {c d : Char} {text : List Char} (hc : Shows c text) (hd : Shows d text) :
    c = d := by
  cases hc with
  | plain =>
    cases hd with
    | plain => rfl
  | letter hc =>
    cases hd with
    | letter hd =>
      have : ∀ p ∈ letters, ∀ q ∈ letters, p.2 = q.2 → p.1 = q.1 := by decide
      exact this _ hc _ hd rfl
  | code hh hc =>
    rename_i digits
    generalize ht : '\\' :: 'u' :: '\x7b' :: digits ++ ['\x7d'] = text at hd
    cases hd with
    | plain => simp at ht
    | letter => simp at ht
    | code _ hd =>
      obtain rfl : digits = _ := by simpa using ht
      exact Char.toNat_inj.1 (hc.symm.trans hd)

end Text

namespace Pattern

theorem Cuts.matches_of_mem {cs rest : List Char} {rounds : List (Pattern × List Char)}
    (h : Cuts cs rounds rest) : ∀ r ∈ rounds, r.1 ∈ table ∧ r.1.Matches r.2 := by
  induction h with
  | stop cs => exact List.forall_mem_nil _
  | round hfirst _ ih =>
    obtain ⟨hp, hl⟩ := mem_of_first? hfirst
    exact List.forall_mem_cons.2 ⟨⟨hp, (matches_of_lexeme? hp hl).1⟩, ih⟩

end Pattern

namespace Token

open Pattern (first? Cuts taken table)

section pieces

variable {file : String} {offset : Nat} {rounds : List (Pattern × List Char)}

theorem mem_rounds_of_mem_pieces {x : Piece} (h : x ∈ pieces file offset rounds) :
    (x.pattern, x.text) ∈ rounds := by
  induction rounds generalizing offset with
  | nil => cases h
  | cons r rounds ih =>
    obtain rfl | h := List.mem_cons.1 h
    · exact List.mem_cons_self
    · exact List.mem_cons_of_mem _ (ih h)

theorem start_of_mem_pieces (hend : offset + Source.byteLength (taken rounds) < Source.offsetBound)
    {x : Piece} (h : x ∈ pieces file offset rounds) : offset ≤ x.span.start.offset := by
  induction rounds generalizing offset with
  | nil => cases h
  | cons r rounds ih =>
    obtain ⟨p, lexeme⟩ := r
    rw [Pattern.taken_cons, Source.byteLength_append, ← Nat.add_assoc] at hend
    obtain rfl | h := List.mem_cons.1 h
    · rw [spanAt_of_lt (by omega)]
    · exact Nat.le_trans (Nat.le_add_right ..) (ih hend h)

theorem pieces_apart (hend : offset + Source.byteLength (taken rounds) < Source.offsetBound) :
    (pieces file offset rounds).Pairwise fun x y => x.span.Apart y.span := by
  induction rounds generalizing offset with
  | nil => exact .nil
  | cons r rounds ih =>
    obtain ⟨p, lexeme⟩ := r
    rw [Pattern.taken_cons, Source.byteLength_append, ← Nat.add_assoc] at hend
    refine .cons (fun y hy => .inl ?_) (ih hend)
    rw [spanAt_of_lt (by omega)]
    exact start_of_mem_pieces hend hy

theorem pieces_cover (before rest : List Char)
    (hend : Source.byteLength (before ++ taken rounds) < Source.offsetBound) :
    ∀ x ∈ pieces file (Source.byteLength before) rounds,
      Source.Covers (before ++ taken rounds ++ rest) x.span x.text := by
  induction rounds generalizing before with
  | nil => exact List.forall_mem_nil _
  | cons r rounds ih =>
    obtain ⟨p, lexeme⟩ := r
    rw [Pattern.taken_cons, ← List.append_assoc] at hend ⊢
    refine List.forall_mem_cons.2 ⟨⟨before, taken rounds ++ rest, ?_, ?_⟩, ?_⟩
    · rw [List.append_assoc _ (taken rounds)]
    · rw [Source.byteLength_append, Source.byteLength_append] at hend
      rw [spanAt_of_lt (by omega), Source.byteLength_append]
      exact ⟨rfl, rfl⟩
    · rw [← Source.byteLength_append]
      exact ih _ hend

theorem exists_piece (hend : offset + Source.byteLength (taken rounds) < Source.offsetBound)
    {i : Nat} (hstart : offset ≤ i) (hi : i < offset + Source.byteLength (taken rounds)) :
    ∃ x ∈ pieces file offset rounds, x.span.Has i := by
  induction rounds generalizing offset with
  | nil => exact absurd hi (Nat.not_lt.2 hstart)
  | cons r rounds ih =>
    obtain ⟨p, lexeme⟩ := r
    rw [Pattern.taken_cons, Source.byteLength_append, ← Nat.add_assoc] at hend hi
    by_cases hin : i < offset + Source.byteLength lexeme
    · refine ⟨_, List.mem_cons_self, ?_⟩
      rw [spanAt_of_lt (by omega)]
      exact ⟨hstart, hin⟩
    · obtain ⟨x, hx, hhas⟩ := ih hend (Nat.not_lt.1 hin) hi
      exact ⟨x, List.mem_cons_of_mem _ hx, hhas⟩

end pieces

structure Reads (t : Token) (text : List Char) : Prop where
  notEnd : t.kind ≠ .eof
  value : t.kind ≠ .string → t.value = String.ofList text
  string : t.kind = .string → ∃ inside, text = '"' :: inside ++ ['"'] ∧
    t.value = String.ofList (Escape.decode inside)
  name : Pattern.name.Matches text →
    (t.kind = .identifier ↔ Kind.ofReserved? t.value = none) ∧
      ∀ kind ∈ Kind.ofReserved? t.value, t.kind = kind

/-- The tokens of a source without the one at its end: one behind the other, none of them empty,
each with its text, and nothing but blanks and comments outside them. -/
structure Partition (file : String) (source : List Char) (ts : List Token) : Prop where
  laid : Laid file (Source.byteLength source) ts
  reads : ∀ t ∈ ts, ∃ text, Source.Covers source t.span text ∧ t.Reads text
  outside : ∀ i < Source.byteLength source, (∃ t ∈ ts, t.span.Has i) ∨
    ∃ p ∈ [Pattern.blank, Pattern.comment], ∃ text span, p.Matches text ∧
      Source.Covers source span text ∧ span.Has i ∧ ∀ t ∈ ts, t.span.Apart span

theorem Kind.mem_of_ofReserved? {word : String} {kind : Kind} (h : ofReserved? word = some kind) :
    kind ∈ [kwLet, kwFunc, kwReturn, kwIf, kwElse, kwWhile, kwType, kwTrue, kwFalse, kwNull] := by
  rw [ofReserved?.eq_def] at h
  split at h <;> cases h <;> decide

theorem kind_of_fixed {kind : Kind} {sign : String} (h : Pattern.fixed kind sign ∈ table) :
    kind ≠ .eof ∧ kind ≠ .string := by
  constructor
  · rintro rfl
    simp [table] at h
  · rintro rfl
    simp [table] at h

theorem not_name_of_head {p : Pattern} (hp : p ∈ table) (hhead : p.head ≠ .letter)
    {text : List Char} (h : p.Matches text) : ¬ Pattern.name.Matches text := by
  intro hname
  obtain ⟨c, cs, rfl, hc⟩ := h.head hp
  obtain ⟨d, ds, heq, hd⟩ := hname.head (by decide)
  cases heq
  exact hhead (hc.symm.trans hd)

namespace Piece

variable {x : Piece}

theorem span_of_token? {t : Token} (h : x.token? = some t) : t.span = x.span := by
  obtain ⟨made, -, rfl⟩ := Option.map_eq_some_iff.1 h
  rfl

theorem mem_of_token?_eq_none (h : x.token? = none) :
    x.pattern ∈ [Pattern.blank, Pattern.comment] := by
  obtain ⟨p, text, span⟩ := x
  cases p with
  | blank => exact List.mem_cons_self
  | comment => exact List.mem_cons_of_mem _ List.mem_cons_self
  | _ => cases h

theorem reads {t : Token} (hp : x.pattern ∈ table) (htext : x.pattern.Matches x.text)
    (h : x.token? = some t) : t.Reads x.text := by
  obtain ⟨p, text, span⟩ := x
  obtain ⟨⟨kind, value⟩, hmade, rfl⟩ := Option.map_eq_some_iff.1 h
  cases p with
  | name =>
    cases hmade
    cases hword : Kind.ofReserved? (String.ofList text) with
    | none =>
      refine ⟨nofun, fun _ => rfl, nofun, fun _ => ⟨⟨fun _ => hword, fun _ => rfl⟩, ?_⟩⟩
      intro kind hkind
      rw [hword] at hkind
      cases hkind
    | some kind =>
      have hne (other : Kind) (hother : other ∉ [Kind.kwLet, .kwFunc, .kwReturn, .kwIf, .kwElse,
          .kwWhile, .kwType, .kwTrue, .kwFalse, .kwNull]) : kind ≠ other :=
        fun heq => hother (heq ▸ Kind.mem_of_ofReserved? hword)
      refine ⟨hne _ (by decide), fun _ => rfl, fun heq => absurd heq (hne _ (by decide)),
        fun _ => ?_⟩
      refine ⟨⟨fun heq => absurd heq (hne _ (by decide)), fun hnone => ?_⟩, fun other hother => ?_⟩
      · rw [hword] at hnone
        cases hnone
      · exact Option.some.inj (hword.symm.trans hother)
  | number =>
    cases hmade
    have hkind : (if '.' ∈ text then Kind.float else Kind.integer) ≠ .eof ∧
        (if '.' ∈ text then Kind.float else Kind.integer) ≠ .string := by
      split <;> decide
    exact ⟨hkind.1, fun _ => rfl, fun heq => absurd heq hkind.2,
      fun hname => absurd hname (not_name_of_head hp nofun htext)⟩
  | quoted =>
    cases hmade
    obtain ⟨inside, rfl, -⟩ := id htext
    refine ⟨nofun, fun hne => absurd rfl hne, fun _ => ⟨inside, rfl, ?_⟩,
      fun hname => absurd hname (not_name_of_head hp nofun htext)⟩
    simp
  | fixed kind sign =>
    cases hmade
    obtain ⟨hend, hstring⟩ := kind_of_fixed hp
    obtain rfl := id htext
    exact ⟨hend, fun _ => (String.ofList_toList).symm, fun heq => absurd heq hstring,
      fun hname => absurd hname (not_name_of_head hp nofun htext)⟩
  | blank => cases hmade
  | comment => cases hmade

end Piece

theorem exists_piece_of_mem {file : String} {offset : Nat} {rounds : List (Pattern × List Char)}
    {t : Token} (h : t ∈ ofRounds file offset rounds) :
    ∃ x ∈ pieces file offset rounds, x.token? = some t := List.mem_filterMap.1 h

theorem partition_of_cuts {file : String} {source : List Char}
    {rounds : List (Pattern × List Char)} (h : Cuts source rounds [])
    (hsize : Source.byteLength source < Source.offsetBound)
    (hlaid : Laid file (Source.byteLength source) (ofRounds file 0 rounds)) :
    Partition file source (ofRounds file 0 rounds) := by
  obtain rfl : source = taken rounds := h.eq.trans (List.append_nil _)
  have hend : 0 + Source.byteLength (taken rounds) < Source.offsetBound := by rwa [Nat.zero_add]
  have hcover {x : Piece} (hx : x ∈ pieces file 0 rounds) :
      Source.Covers (taken rounds) x.span x.text := by
    simpa using pieces_cover [] [] hsize x hx
  have hmatches {x : Piece} (hx : x ∈ pieces file 0 rounds) :
      x.pattern ∈ table ∧ x.pattern.Matches x.text :=
    h.matches_of_mem _ (mem_rounds_of_mem_pieces hx)
  refine ⟨hlaid, fun t ht => ?_, fun i hi => ?_⟩
  · obtain ⟨x, hx, hxt⟩ := exists_piece_of_mem ht
    refine ⟨x.text, ?_, Piece.reads (hmatches hx).1 (hmatches hx).2 hxt⟩
    rw [Piece.span_of_token? hxt]
    exact hcover hx
  · obtain ⟨x, hx, hhas⟩ : ∃ x ∈ pieces file 0 rounds, x.span.Has i :=
      exists_piece hend (Nat.zero_le i) (by rwa [Nat.zero_add])
    cases hxt : x.token? with
    | some t =>
      refine .inl ⟨t, List.mem_filterMap.2 ⟨x, hx, hxt⟩, ?_⟩
      rwa [Piece.span_of_token? hxt]
    | none =>
      refine .inr ⟨x.pattern, Piece.mem_of_token?_eq_none hxt, x.text, x.span, (hmatches hx).2,
        hcover hx, hhas, fun t ht => ?_⟩
      obtain ⟨y, hy, hyt⟩ := exists_piece_of_mem ht
      rw [Piece.span_of_token? hyt]
      have hsymm : Std.Symm fun x y : Piece => x.span.Apart y.span := ⟨fun _ _ => Or.symm⟩
      refine (pieces_apart hend).forall hy hx ?_
      rintro rfl
      rw [hxt] at hyt
      cases hyt

/-- A scan ends after finitely many rounds, each of which takes the first match. Where it
succeeds, the tokens part the source, with an empty one at its end; where it fails, it names the
first character at which no pattern has a text, and what stands before that can be scanned. -/
theorem scan_partitions {source : String} (name : Option String)
    (hsize : Source.byteLength source.toList < Source.offsetBound) :
    (∃ rounds rest, Cuts source.toList rounds rest ∧ first? rest = none ∧
      rounds.length ≤ source.toList.length ∧
      scan source name = outcome (name.getD Source.defaultFile) rounds rest) ∧
    (∀ ts, scan source name = .ok ts → ∃ us,
      ts = us ++ [endAt ⟨Source.byteLength source.toList, name.getD Source.defaultFile⟩] ∧
      Partition (name.getD Source.defaultFile) source.toList us) ∧
    ∀ d, scan source name = .error d → ∃ before c after,
      source.toList = before ++ c :: after ∧
      d = ⟨.unrecognisedToken (String.singleton c),
        ⟨Source.byteLength before, name.getD Source.defaultFile⟩⟩ ∧
      d.fault.message = "unrecognised token: " ++ Text.quoted (String.singleton c) ∧
      (∃ shown, Text.quoted (String.singleton c) = String.ofList ('"' :: shown ++ ['"']) ∧
        Text.Shows c shown) ∧
      (∀ p ∈ table, ∀ text, text <+: c :: after → ¬ p.Matches text) ∧
      ∃ ts, scan (String.ofList before) name = .ok ts := by
  obtain ⟨rounds, rest, hcuts, hrest⟩ := Pattern.exists_cuts source.toList
  have hscan : scan source name = outcome _ rounds rest := scan_of_cuts hcuts hrest
  refine ⟨⟨rounds, rest, hcuts, hrest, hcuts.length_le, hscan⟩, fun ts hts => ?_, fun d hd => ?_⟩
  · cases rest with
    | cons c after =>
      rw [hscan] at hts
      cases hts
    | nil =>
      have heq : source.toList = taken rounds := hcuts.eq.trans (List.append_nil _)
      obtain ⟨us, stop, rfl, hlaid⟩ := scan_laid hsize hts
      rw [hscan, outcome, ← heq, positionAt_of_lt hsize] at hts
      obtain ⟨hus, hstop⟩ := List.append_inj' (Except.ok.inj hts) rfl
      cases hstop
      refine ⟨us, rfl, ?_⟩
      subst hus
      exact partition_of_cuts hcuts hsize hlaid
  · cases rest with
    | nil =>
      rw [hscan] at hd
      cases hd
    | cons c after =>
      have hbefore : Source.byteLength (taken rounds) < Source.offsetBound := by
        rw [hcuts.eq, Source.byteLength_append] at hsize
        omega
      rw [hscan, outcome, positionAt_of_lt hbefore] at hd
      cases hd
      refine ⟨taken rounds, c, after, hcuts.eq, rfl, rfl, Text.quoted_shows c, fun p hp => ?_, ?_⟩
      · have hnone := Pattern.first?_eq_none_iff.1 hrest p hp
        exact (Pattern.lexeme?_eq_none_iff (Pattern.isSolid_of_mem_table p hp)).1 hnone
      · have hshort : Cuts (String.ofList (taken rounds)).toList rounds [] := by
          rw [String.toList_ofList]
          exact hcuts.truncate
        exact ⟨_, scan_of_cuts hshort rfl⟩

theorem scan_partitions_of_accents :
    let good := "x = \"é\"; // é"
    let bad := "1 @"
    (Source.byteLength good.toList < Source.offsetBound ∧ ∃ us,
      scan good none = .ok (us ++ [endAt ⟨Source.byteLength good.toList, "shell"⟩]) ∧
        Partition "shell" good.toList us) ∧
    (Source.byteLength bad.toList < Source.offsetBound ∧ ∃ before c after,
      bad.toList = before ++ c :: after ∧
        scan bad none = .error ⟨.unrecognisedToken (String.singleton c),
          ⟨Source.byteLength before, "shell"⟩⟩ ∧
        ∃ ts, scan (String.ofList before) none = .ok ts) := by
  intro good bad
  have hgood : Source.byteLength good.toList < Source.offsetBound := by decide
  have hbad : Source.byteLength bad.toList < Source.offsetBound := by decide
  have hok : (scan good none).isOk = true := by decide +kernel
  have herror : (scan bad none).isOk = false := by decide +kernel
  refine ⟨⟨hgood, ?_⟩, hbad, ?_⟩
  · cases hts : scan good none with
    | error d =>
      rw [hts] at hok
      cases hok
    | ok ts =>
      obtain ⟨us, rfl, hus⟩ := (scan_partitions none hgood).2.1 ts hts
      exact ⟨us, rfl, hus⟩
  · cases hd : scan bad none with
    | ok ts =>
      rw [hd] at herror
      cases herror
    | error d =>
      obtain ⟨before, c, after, hsource, rfl, -, -, -, hts⟩ := (scan_partitions none hbad).2.2 d hd
      exact ⟨before, c, after, hsource, rfl, hts⟩

end Token

end TypedScript
