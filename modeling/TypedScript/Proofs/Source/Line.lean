import Mathlib.Data.List.DropRight
import TypedScript.Source.Line

/-! The lines of a text, and the line that a byte is shown with. A text is taken line by line: it is
one line without a newline, or such a line, its newline, and a text. The line that is found for a
byte is the one that the newlines before the byte count, but for the number that it gets just behind
a newline at the end of the text. -/

namespace TypedScript.Source

/-- The lines of a text, each but the last with the newline that ends it. The last is empty where
the text ends with a newline. -/
def lines (cs : List Char) : List (List Char) :=
  (cs.splitOn '\n').dropLast.map (· ++ ['\n']) ++ (cs.splitOn '\n').getLast?.toList

def startingBefore : List Char → Nat → List Char
  | [], _ => []
  | c :: cs, offset => if offset = 0 then [] else c :: startingBefore cs (offset - c.utf8Size)

def firstLine (cs : List Char) : List Char :=
  cs.takeWhile (· ≠ '\n') ++ (cs.dropWhile (· ≠ '\n')).take 1

/-- The line is the one with the byte: its number counts the newlines before the byte, its text is
the line of that number, and its column is how far the byte is behind the start of that line. -/
structure Line.Locates (line : Line) (cs : List Char) (offset : Nat) : Prop where
  number : line.number = 1 + (startingBefore cs offset).count '\n'
  text : (lines cs)[line.number - 1]? = some line.text
  column : byteLength ((lines cs).take (line.number - 1)).flatten + line.column = offset

@[elab_as_elim]
theorem byLines {motive : List Char → Prop} (last : ∀ l, '\n' ∉ l → motive l)
    (line : ∀ l cs, '\n' ∉ l → motive cs → motive (l ++ '\n' :: cs)) (cs : List Char) :
    motive cs := by
  induction hn : cs.length using Nat.strong_induction_on generalizing cs with
  | _ n ih =>
    by_cases hcs : '\n' ∈ cs
    · obtain ⟨l, ds, rfl, hl⟩ := List.eq_append_cons_of_mem hcs
      apply line l ds hl
      apply ih ds.length _ ds rfl
      rw [← hn, List.length_append, List.length_cons]
      omega
    · exact last cs hcs

variable {l cs : List Char}

theorem lines_of_not_mem (hl : '\n' ∉ l) : lines l = [l] := by
  simp [lines, List.splitOn_eq_singleton hl]

theorem lines_newline (ds cs : List Char) :
    lines (ds ++ '\n' :: cs) = (ds.splitOn '\n').map (· ++ ['\n']) ++ lines cs := by
  have hne : cs.splitOn '\n' ≠ [] := List.splitOn_ne_nil _ _
  rw [lines, List.splitOn_append_cons_self, List.dropLast_append_of_ne_nil hne,
    List.getLast?_append_of_ne_nil _ hne, List.map_append, List.append_assoc, lines]

theorem lines_line (hl : '\n' ∉ l) : lines (l ++ '\n' :: cs) = (l ++ ['\n']) :: lines cs := by
  rw [lines_newline, List.splitOn_eq_singleton hl]
  rfl

theorem byteLength_line (l cs : List Char) :
    byteLength (l ++ '\n' :: cs) = byteLength (l ++ ['\n']) + byteLength cs := by
  rw [List.append_cons, byteLength_append]

theorem pieces_of_not_mem (hl : '\n' ∉ l) (hne : l ≠ []) : pieces l = [l] := by
  induction l with
  | nil => exact absurd rfl hne
  | cons c l ih =>
    rw [List.mem_cons, not_or] at hl
    rw [pieces, if_neg (Ne.symm hl.1)]
    cases l with
    | nil => rfl
    | cons d l => rw [ih hl.2 (List.cons_ne_nil d l)]

theorem pieces_line (hl : '\n' ∉ l) : pieces (l ++ '\n' :: cs) = (l ++ ['\n']) :: pieces cs := by
  induction l with
  | nil => simp [pieces]
  | cons c l ih =>
    rw [List.mem_cons, not_or] at hl
    rw [List.cons_append, pieces, if_neg (Ne.symm hl.1), ih hl.2]
    rfl

theorem lastLine_eq_rtakeWhile (cs : List Char) : lastLine cs = cs.rtakeWhile (· ≠ '\n') := rfl

theorem newline_not_mem_lastLine (cs : List Char) : '\n' ∉ lastLine cs := by
  intro h
  have hne := List.mem_rtakeWhile_imp h
  exact of_decide_eq_true hne rfl

theorem ne_newline (hl : '\n' ∉ l) : ∀ c ∈ l, decide (c ≠ '\n') = true := by
  intro c hc
  exact decide_eq_true fun heq => hl (heq ▸ hc)

theorem lastLine_of_not_mem (hl : '\n' ∉ l) : lastLine l = l := by
  rw [lastLine_eq_rtakeWhile, List.rtakeWhile_eq_self_iff.2 (ne_newline hl)]

theorem lastLine_line (l cs : List Char) : lastLine (l ++ '\n' :: cs) = lastLine cs := by
  simp only [lastLine_eq_rtakeWhile]
  induction cs using List.reverseRecOn with
  | nil => rw [List.rtakeWhile_concat_neg _ _ _ (by decide), List.rtakeWhile_nil]
  | append_singleton cs c ih =>
    rw [← List.cons_append, ← List.append_assoc, List.rtakeWhile_concat, List.rtakeWhile_concat, ih]

theorem lastLine_eq_nil (h : cs ≠ []) : lastLine cs = [] ↔ cs.getLast? = some '\n' := by
  rw [lastLine_eq_rtakeWhile, List.rtakeWhile_eq_nil_iff, List.getLast?_eq_some_getLast h]
  simp [h]

theorem firstLine_of_not_mem (hl : '\n' ∉ l) : firstLine l = l := by
  rw [firstLine, List.takeWhile_eq_self_iff.2 (ne_newline hl),
    List.dropWhile_eq_nil_iff.2 (ne_newline hl), List.take_nil, List.append_nil]

theorem firstLine_line (hl : '\n' ∉ l) : firstLine (l ++ '\n' :: cs) = l ++ ['\n'] := by
  rw [firstLine, List.takeWhile_append_of_pos (ne_newline hl),
    List.dropWhile_append_of_pos (ne_newline hl)]
  simp

theorem lines_append (before after : List Char) : ∃ above below,
    lines (before ++ after) = above ++ (lastLine before ++ firstLine after) :: below ∧
      above.length = before.count '\n' ∧ above.flatten ++ lastLine before = before := by
  induction before using byLines with
  | last l hl =>
    rw [lastLine_of_not_mem hl, List.count_eq_zero.2 hl]
    induction after using byLines with
    | last m hm =>
      have hlm : '\n' ∉ l ++ m := by simp [hl, hm]
      exact ⟨[], [], by rw [lines_of_not_mem hlm, firstLine_of_not_mem hm]; rfl, rfl, rfl⟩
    | line m cs hm _ =>
      have hlm : '\n' ∉ l ++ m := by simp [hl, hm]
      refine ⟨[], lines cs, ?_, rfl, rfl⟩
      rw [← List.append_assoc, lines_line hlm, firstLine_line hm, List.append_assoc]
      rfl
  | line l cs hl ih =>
    obtain ⟨above, below, hlines, hlength, hflatten⟩ := ih
    refine ⟨(l ++ ['\n']) :: above, below, ?_, ?_, ?_⟩
    · rw [List.append_assoc, List.cons_append, lines_line hl, hlines, lastLine_line]
      rfl
    · rw [List.length_cons, hlength, List.count_append, List.count_eq_zero.2 hl,
        List.count_cons_self, Nat.zero_add]
    · rw [lastLine_line, List.flatten_cons, List.append_assoc, hflatten, ← List.append_cons]

theorem startingBefore_zero (cs : List Char) : startingBefore cs 0 = [] := by
  cases cs <;> rfl

theorem startingBefore_append_of_le {offset : Nat} (h : offset ≤ byteLength l) :
    startingBefore (l ++ cs) offset = startingBefore l offset := by
  induction l generalizing offset with
  | nil =>
    obtain rfl : offset = 0 := Nat.le_zero.1 h
    exact startingBefore_zero cs
  | cons c l ih =>
    rw [byteLength_cons] at h
    rw [List.cons_append, startingBefore, startingBefore, ih (by omega)]

theorem startingBefore_append (l cs : List Char) (offset : Nat) :
    startingBefore (l ++ cs) (byteLength l + offset) = l ++ startingBefore cs offset := by
  induction l with
  | nil => rw [List.nil_append, byteLength_nil, Nat.zero_add, List.nil_append]
  | cons c l ih =>
    have hpos := c.utf8Size_pos
    rw [List.cons_append, startingBefore, byteLength_cons, if_neg (by omega), List.cons_append,
      ← ih]
    congr 2
    omega

theorem startingBefore_subset (cs : List Char) (offset : Nat) : startingBefore cs offset ⊆ cs := by
  induction cs generalizing offset with
  | nil => exact List.nil_subset _
  | cons c cs ih =>
    rw [startingBefore]
    split
    · exact List.nil_subset _
    · exact List.cons_subset_cons c (ih _)

theorem count_startingBefore_of_not_mem (hl : '\n' ∉ l) (offset : Nat) :
    (startingBefore l offset).count '\n' = 0 :=
  List.count_eq_zero.2 fun h => hl (startingBefore_subset l offset h)

namespace Line.Locates

variable {offset : Nat}

theorem only (hl : '\n' ∉ l) : Locates ⟨1, l, offset⟩ l offset where
  number := by rw [count_startingBefore_of_not_mem hl]
  text := by rw [lines_of_not_mem hl]; rfl
  column := by simp

theorem first (hl : '\n' ∉ l) (h : offset ≤ byteLength l) :
    Locates ⟨1, l ++ ['\n'], offset⟩ (l ++ '\n' :: cs) offset where
  number := by rw [startingBefore_append_of_le h, count_startingBefore_of_not_mem hl]
  text := by rw [lines_line hl]; rfl
  column := by simp

theorem behind {line : Line} (hl : '\n' ∉ l) (h : line.Locates cs offset) :
    Locates { line with number := line.number + 1 } (l ++ '\n' :: cs)
      (byteLength (l ++ ['\n']) + offset) := by
  have hpos : line.number = line.number - 1 + 1 := by
    have := h.number
    omega
  refine ⟨?_, ?_, ?_⟩
  · have hcount : l.count '\n' = 0 := List.count_eq_zero.2 hl
    rw [List.append_cons, startingBefore_append, List.count_append, List.count_append, hcount,
      h.number]
    simp [Nat.add_comm]
  · rw [lines_line hl, Nat.add_sub_cancel, hpos, List.getElem?_cons_succ]
    exact h.text
  · rw [lines_line hl, Nat.add_sub_cancel, hpos, List.take_succ_cons, List.flatten_cons,
      byteLength_append, Nat.add_assoc, h.column]

theorem between {line : Line} {before after : List Char}
    (h : line.Locates (before ++ after) (byteLength before)) :
    line.text = lastLine before ++ firstLine after ∧
      line.column = byteLength (lastLine before) := by
  obtain ⟨above, below, hlines, hlength, hflatten⟩ := lines_append before after
  have hbefore : startingBefore (before ++ after) (byteLength before) = before := by
    have h := startingBefore_append before after 0
    rwa [startingBefore_zero, List.append_nil, Nat.add_zero] at h
  have hindex : line.number - 1 = above.length := by
    rw [h.number, hbefore, hlength, Nat.add_sub_cancel_left]
  constructor
  · have htext := h.text
    rw [hindex, hlines, List.getElem?_append_right (Nat.le_refl _), Nat.sub_self] at htext
    exact (Option.some.inj htext).symm
  · have hcolumn := h.column
    have hsum := congrArg byteLength hflatten
    rw [hindex, hlines, List.take_left] at hcolumn
    rw [byteLength_append] at hsum
    omega

end Line.Locates

theorem locate_succ (ps : List (List Char)) (number offset : Nat) :
    locate ps (number + 1) offset =
      (locate ps number offset).map fun line => { line with number := line.number + 1 } := by
  induction ps generalizing number offset with
  | nil => rfl
  | cons p ps ih =>
    rw [locate, locate]
    split
    · rfl
    · exact ih _ _

theorem locate_eq_none {ps : List (List Char)} {number offset : Nat}
    (h : byteLength ps.flatten ≤ offset) : locate ps number offset = none := by
  induction ps generalizing number offset with
  | nil => rfl
  | cons p ps ih =>
    rw [List.flatten_cons, byteLength_append] at h
    rw [locate, if_neg (by omega)]
    exact ih (by omega)

theorem exists_locate {offset : Nat} (h : offset < byteLength cs) :
    ∃ line, locate (pieces cs) 1 offset = some line ∧ line.Locates cs offset := by
  induction cs using byLines generalizing offset with
  | last l hl =>
    have hne : l ≠ [] := by
      rintro rfl
      exact Nat.not_lt_zero _ h
    refine ⟨⟨1, l, offset⟩, ?_, .only hl⟩
    rw [pieces_of_not_mem hl hne, locate, if_pos h]
  | line l cs hl ih =>
    have hnewline : byteLength (l ++ ['\n']) = byteLength l + 1 := byteLength_append l ['\n']
    rw [pieces_line hl, locate]
    split
    · exact ⟨_, rfl, .first hl (by omega)⟩
    · -- The byte lies in the text behind the line.
      obtain ⟨rest, rfl⟩ := Nat.exists_eq_add_of_le (Nat.not_lt.1 ‹_›)
      rw [byteLength_line l cs] at h
      obtain ⟨line, hline, hlocates⟩ := ih (Nat.lt_of_add_lt_add_left h)
      refine ⟨_, ?_, hlocates.behind hl⟩
      rw [Nat.add_sub_cancel_left, locate_succ, hline]
      rfl

theorem locates_end (cs : List Char) :
    Line.Locates ⟨cs.count '\n' + 1, lastLine cs, byteLength (lastLine cs)⟩ cs (byteLength cs) := by
  induction cs using byLines with
  | last l hl =>
    rw [List.count_eq_zero.2 hl, lastLine_of_not_mem hl]
    exact .only hl
  | line l cs hl ih =>
    have hcount : (l ++ '\n' :: cs).count '\n' = cs.count '\n' + 1 := by
      rw [List.count_append, List.count_eq_zero.2 hl, List.count_cons_self, Nat.zero_add]
    rw [hcount, lastLine_line, byteLength_line]
    exact ih.behind hl

theorem length_pieces (cs : List Char) :
    (pieces cs).length = cs.count '\n' + if lastLine cs = [] then 0 else 1 := by
  induction cs using byLines with
  | last l hl =>
    rw [List.count_eq_zero.2 hl, lastLine_of_not_mem hl]
    split
    · subst l
      rfl
    · rw [pieces_of_not_mem hl ‹_›]
      rfl
  | line l cs hl ih =>
    rw [pieces_line hl, lastLine_line, List.length_cons, ih, List.count_append,
      List.count_eq_zero.2 hl, List.count_cons_self]
    omega

variable {source : String} {offset : Nat}

theorem lineAt?_of_lt (h : offset < byteLength source.toList) :
    ∃ line, lineAt? source offset = some line ∧ line.Locates source.toList offset := by
  obtain ⟨line, hline, hlocates⟩ := exists_locate h
  refine ⟨line, ?_, hlocates⟩
  rw [lineAt?, hline]

theorem lineAt?_of_gt (h : byteLength source.toList < offset) : lineAt? source offset = none := by
  have hnone : locate (pieces source.toList) 1 offset = none :=
    locate_eq_none (by rw [flatten_pieces]; exact Nat.le_of_lt h)
  rw [lineAt?, hnone]
  exact if_neg (Nat.ne_of_gt h)

theorem max_length_pieces (cs : List Char) : max (pieces cs).length 1 =
    if cs.getLast? = some '\n' then cs.count '\n' else cs.count '\n' + 1 := by
  rw [length_pieces]
  by_cases hcs : cs = []
  · subst hcs
    rfl
  · by_cases hlast : cs.getLast? = some '\n'
    · have hpos : 0 < cs.count '\n' := List.count_pos_iff.2 (List.mem_of_getLast? hlast)
      rw [if_pos hlast, if_pos ((lastLine_eq_nil hcs).2 hlast), Nat.add_zero, Nat.max_eq_left hpos]
    · rw [if_neg hlast, if_neg fun h => hlast ((lastLine_eq_nil hcs).1 h),
        Nat.max_eq_left (Nat.le_add_left _ _)]

theorem lineAt?_end (source : String) :
    lineAt? source (byteLength source.toList) = some ⟨max (pieces source.toList).length 1,
      lastLine source.toList, byteLength (lastLine source.toList)⟩ := by
  have hnone : locate (pieces source.toList) 1 (byteLength source.toList) = none :=
    locate_eq_none (by rw [flatten_pieces])
  rw [lineAt?, hnone]
  exact if_pos rfl

theorem lineAt?_of_le (h : offset ≤ byteLength source.toList) :
    ∃ (line : Line) (number : Nat), lineAt? source offset = some { line with number := number } ∧
      line.Locates source.toList offset := by
  obtain hlt | rfl := Nat.lt_or_eq_of_le h
  · obtain ⟨line, hline, hlocates⟩ := lineAt?_of_lt hlt
    exact ⟨line, line.number, hline, hlocates⟩
  · exact ⟨_, _, lineAt?_end source, locates_end _⟩

/-- Up to the end of a text the line found for a byte is the line of the byte, but that just behind
a last newline its number is that of the line before. Further on there is none. -/
theorem lineAt?_exact (source : String) (offset : Nat) :
    (offset ≤ byteLength source.toList → ∃ line, lineAt? source offset = some line ∧
      Line.Locates (if offset = byteLength source.toList ∧ source.toList.getLast? = some '\n'
        then { line with number := line.number + 1 } else line) source.toList offset) ∧
    (byteLength source.toList < offset → lineAt? source offset = none) := by
  refine ⟨fun h => ?_, lineAt?_of_gt⟩
  obtain hlt | rfl := Nat.lt_or_eq_of_le h
  · obtain ⟨line, hline, hlocates⟩ := lineAt?_of_lt hlt
    refine ⟨line, hline, ?_⟩
    rwa [if_neg fun hend => Nat.ne_of_lt hlt hend.1]
  · have hend := locates_end source.toList
    refine ⟨_, lineAt?_end source, ?_⟩
    rw [max_length_pieces]
    by_cases hlast : source.toList.getLast? = some '\n'
    · rwa [if_pos ⟨rfl, hlast⟩, if_pos hlast]
    · rwa [if_neg fun h => hlast h.2, if_neg hlast]

theorem lineAt?_exact_of_emptyLine :
    let source := "é\n\nx"
    (1 ≤ byteLength source.toList ∧ ∃ line, lineAt? source 1 = some line ∧
      line.Locates source.toList 1) ∧
    (5 ≤ byteLength source.toList ∧ ∃ line, lineAt? source 5 = some line ∧
      line.Locates source.toList 5) ∧
    (byteLength source.toList < 6 ∧ lineAt? source 6 = none) := by
  intro source
  have hin : 1 ≤ byteLength source.toList := by decide
  have hend : 5 ≤ byteLength source.toList := by decide
  have hout : byteLength source.toList < 6 := by decide
  obtain ⟨line, hline, h⟩ := (lineAt?_exact source 1).1 hin
  obtain ⟨last, hlast, h'⟩ := (lineAt?_exact source 5).1 hend
  rw [if_neg (by decide)] at h h'
  exact ⟨⟨hin, line, hline, h⟩, ⟨hend, last, hlast, h'⟩, hout, (lineAt?_exact source 6).2 hout⟩

/-- Behind the newline of `a` the second line begins, which is found as the first. -/
theorem not_lineAt?_exact : ∃ line, 2 ≤ byteLength "a\n".toList ∧
    lineAt? "a\n" 2 = some line ∧ line.text = [] ∧ ¬ line.Locates "a\n".toList 2 := by
  refine ⟨⟨1, [], 0⟩, by decide, by decide, rfl, fun h => ?_⟩
  have hnumber := h.number
  revert hnumber
  decide

end TypedScript.Source
