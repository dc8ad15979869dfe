import TypedScript.Diagnostic.Render
import TypedScript.Program.Basic
import TypedScript.Proofs.Source.Line

namespace TypedScript

namespace Source

theorem length_le_byteLength (cs : List Char) : cs.length ≤ byteLength cs := by
  induction cs with
  | nil => exact Nat.le_refl 0
  | cons c cs ih =>
    have hpos := c.utf8Size_pos
    rw [List.length_cons, byteLength_cons]
    omega

theorem byteLength_eq_length_iff (cs : List Char) :
    byteLength cs = cs.length ↔ ∀ c ∈ cs, c.utf8Size = 1 := by
  induction cs with
  | nil => simp
  | cons c cs ih =>
    have hpos := c.utf8Size_pos
    have hle := length_le_byteLength cs
    rw [byteLength_cons, List.length_cons, List.forall_mem_cons]
    refine Iff.trans ?_ (and_congr_right fun _ => ih)
    omega

theorem head?_firstLine (cs : List Char) : (firstLine cs).head? = cs.head? := by
  cases cs with
  | nil => rfl
  | cons c cs => by_cases hc : c = '\n' <;> simp [firstLine, hc]

end Source

namespace Diagnostic

open Source (byteLength lines lastLine firstLine)

def seen (before : List Char) : List Char := (lastLine before).dropWhile isIndent

/-- How a rendered text ends for a place between `before` and `after`: with the line of the place,
shown behind a margin, and below it a caret behind `lead`. From the line are gone its indentation
and the blanks `lost` at its end. -/
structure Excerpt (rendered before after margin shown lost lead : List Char) : Prop where
  lines : ∃ above, lines rendered =
    above ++ [margin ++ shown ++ ['\n'], lead ++ ['^', '\n'], []]
  caret : '^' ∉ lead
  line : shown ++ lost = (lastLine before ++ firstLine after).dropWhile isIndent
  blank : ∀ c ∈ lost, Text.isBlank c = true

section line

variable {before after : List Char}

theorem byteLength_sub_indent (part rest : List Char) :
    byteLength part - byteLength ((part ++ rest).takeWhile isIndent) =
      byteLength (part.dropWhile isIndent) := by
  have hsplit : byteLength part =
      byteLength (part.takeWhile isIndent) + byteLength (part.dropWhile isIndent) := by
    rw [← Source.byteLength_append, List.takeWhile_append_dropWhile]
  rw [List.takeWhile_append]
  split
  · have hall : part.takeWhile isIndent = part :=
      (List.takeWhile_prefix _).eq_of_length ‹_›
    rw [hall] at hsplit
    rw [Source.byteLength_append]
    omega
  · omega

theorem newline_not_mem_shown (before after : List Char) :
    '\n' ∉ Text.trimEnd ((lastLine before ++ firstLine after).dropWhile isIndent) := by
  have hkept {cs : List Char} (hcs : '\n' ∉ cs) : '\n' ∉ Text.trimEnd (cs.dropWhile isIndent) := by
    intro h
    have h := (List.rdropWhile_prefix _ _).subset h
    exact hcs ((List.dropWhile_suffix _).subset h)
  have hbefore := Source.newline_not_mem_lastLine before
  induction after using Source.byLines with
  | last m hm =>
    rw [Source.firstLine_of_not_mem hm]
    exact hkept (by simp [hbefore, hm])
  | line m cs hm _ =>
    have hconcat (ds : List Char) :
        (ds ++ ['\n']).dropWhile isIndent = ds.dropWhile isIndent ++ ['\n'] := by
      rw [List.dropWhile_append]
      split
      · rename_i hnil
        rw [List.isEmpty_iff.1 hnil]
        rfl
      · rfl
    have htrim (ds : List Char) : Text.trimEnd (ds ++ ['\n']) = Text.trimEnd ds :=
      List.rdropWhile_concat_pos _ _ _ (by decide)
    rw [Source.firstLine_line hm, ← List.append_assoc, hconcat, htrim]
    exact hkept (by simp [hbefore, hm])

theorem getElem?_seen {c : Char} (hc : c ∈ after.head?)
    (hin : seen before = [] → isIndent c = false) :
    ((lastLine before ++ firstLine after).dropWhile isIndent)[(seen before).length]? = some c := by
  have hhead : (firstLine after).head? = some c := (Source.head?_firstLine after).trans hc
  obtain ⟨rest, hrest⟩ := List.head?_eq_some_iff.1 hhead
  have hall : (lastLine before ++ firstLine after).dropWhile isIndent =
      seen before ++ firstLine after := by
    rw [List.dropWhile_append]
    split
    · rename_i hnil
      have hnil := List.isEmpty_iff.1 hnil
      rw [seen, hnil, hrest, List.nil_append, List.dropWhile_cons_of_neg (by simp [hin hnil])]
    · rfl
  rw [hall, List.getElem?_append_right (Nat.le_refl _), Nat.sub_self, hrest]
  rfl

end line

theorem newline_not_mem_toString (n : Nat) : '\n' ∉ (toString n).toList := by
  intro h
  rw [Nat.toString_eq_repr, Nat.toList_repr] at h
  have hdigit := Nat.isDigit_of_mem_toDigits (by decide) (by decide) h
  exact absurd hdigit (by decide)

def marginOf (number : Nat) : List Char := (toString number).toList ++ [' ', '|', ' ']

def leadOf (number dashes : Nat) : List Char :=
  List.replicate ((toString number).length + 1) ' ' ++ ['|', ' '] ++ List.replicate dashes '-'

theorem length_leadOf (number dashes : Nat) :
    (leadOf number dashes).length = (marginOf number).length + dashes := by
  simp only [leadOf, marginOf, List.length_append, List.length_replicate, String.length_toList,
    List.length_cons, List.length_nil]

theorem caret_not_mem_leadOf (number dashes : Nat) : '^' ∉ leadOf number dashes := by
  simp [leadOf, List.mem_replicate]

theorem toList_excerpt (line : Source.Line) :
    (excerpt line).toList = List.replicate ((toString line.number).length + 1) ' ' ++ ['|'] ++
      '\n' :: (marginOf line.number ++ Text.trimEnd (line.text.dropWhile isIndent) ++
        '\n' :: (leadOf line.number
          (line.column - byteLength (line.text.takeWhile isIndent)) ++ ['^'] ++ '\n' :: [])) := by
  simp [excerpt, padLeft, marginOf, leadOf]

theorem exists_toList_header (d : Diagnostic) : ∃ cs, d.header.toList = cs ++ ['\n'] :=
  ⟨_, String.toList_append⟩

theorem lines_header_excerpt (d : Diagnostic) (line : Source.Line)
    (hline : '\n' ∉ Text.trimEnd (line.text.dropWhile isIndent)) :
    ∃ above, lines (d.header ++ excerpt line).toList =
      above ++ [marginOf line.number ++ Text.trimEnd (line.text.dropWhile isIndent) ++ ['\n'],
        leadOf line.number (line.column - byteLength (line.text.takeWhile isIndent)) ++ ['^', '\n'],
        []] := by
  obtain ⟨cs, hcs⟩ := d.exists_toList_header
  have hshown : '\n' ∉ marginOf line.number ++ Text.trimEnd (line.text.dropWhile isIndent) := by
    rw [marginOf, List.mem_append, List.mem_append]
    rintro ((h | h) | h)
    · exact newline_not_mem_toString _ h
    · exact absurd h (by decide)
    · exact hline h
  have hlead (k : Nat) : '\n' ∉ leadOf line.number k ++ ['^'] := by
    simp [leadOf, List.mem_replicate]
  rw [String.toList_append, toList_excerpt, hcs, ← List.append_assoc, Source.lines_newline,
    Source.lines_line hshown, Source.lines_line (hlead _),
    Source.lines_of_not_mem List.not_mem_nil]
  exact ⟨_, by rw [List.append_assoc _ ['^']]; rfl⟩

/-- For a place between two characters, the line of the place is shown, with the character behind
the place in the column that counts the characters seen before it, unless that character is
indentation and not shown. The caret is in the column that counts their bytes, so it is below that
character only if all of them have one byte. -/
theorem render_points (d : Diagnostic) {source : String} {before after : List Char}
    (hsource : source.toList = before ++ after) (hplace : d.position.offset = byteLength before) :
    ∃ margin shown lost lead,
      Excerpt (d.render source).toList before after margin shown lost lead ∧
      (∀ c ∈ after.head?, (seen before = [] → isIndent c = false) →
        (margin ++ shown ++ lost)[margin.length + (seen before).length]? = some c) ∧
      lead.length = margin.length + byteLength (seen before) ∧
      (lead.length = margin.length + (seen before).length ↔ ∀ c ∈ seen before, c.utf8Size = 1) := by
  have hle : byteLength before ≤ byteLength source.toList := by
    rw [hsource, Source.byteLength_append]
    exact Nat.le_add_right _ _
  obtain ⟨line, number, hline, hlocates⟩ := Source.lineAt?_of_le hle
  rw [hsource] at hlocates
  obtain ⟨htext, hcolumn⟩ := hlocates.between
  have hrender : d.render source = d.header ++ excerpt { line with number := number } := by
    rw [render, hplace, hline]
  have hdashes : line.column - byteLength (line.text.takeWhile isIndent) =
      byteLength (seen before) := by
    rw [hcolumn, htext, byteLength_sub_indent, seen]
  have hlines := d.lines_header_excerpt { line with number := number }
    (by dsimp only; rw [htext]; exact newline_not_mem_shown before after)
  rw [← hrender] at hlines
  dsimp only at hlines
  rw [hdashes, htext] at hlines
  have hlength := length_leadOf number (byteLength (seen before))
  refine ⟨marginOf number, _, _, leadOf number (byteLength (seen before)),
    ⟨hlines, caret_not_mem_leadOf _ _, List.rdropWhile_append_rtakeWhile, ?_⟩, ?_, hlength, ?_⟩
  · intro c hc
    exact List.mem_rtakeWhile_imp hc
  · intro c hc hin
    rw [List.append_assoc, List.getElem?_append_right (Nat.le_add_right _ _),
      Nat.add_sub_cancel_left, Text.trimEnd]
    exact (congrArg (·[_]?) List.rdropWhile_append_rtakeWhile).trans (getElem?_seen hc hin)
  · rw [hlength, Nat.add_left_cancel_iff, Source.byteLength_eq_length_iff]

/-- The sign of the assignment in the second line, which is indented and has a letter of two bytes
further on. -/
theorem render_points_of_indented :
    let source := "1;\n\tab = \"é\""
    let before := "1;\n\tab ".toList
    let after := "= \"é\"".toList
    let d : Diagnostic := ⟨.invalidAssignmentTarget, ⟨7, "shell"⟩⟩
    source.toList = before ++ after ∧ d.position.offset = byteLength before ∧
      ∃ margin shown lost lead,
        Excerpt (d.render source).toList before after margin shown lost lead ∧
        (margin ++ shown ++ lost)[lead.length]? = some '=' ∧ lead.length = margin.length + 3 := by
  intro source before after d
  have hsource : source.toList = before ++ after := by decide
  have hplace : d.position.offset = byteLength before := by decide
  obtain ⟨margin, shown, lost, lead, hexcerpt, hshown, hlength, -⟩ := render_points d hsource hplace
  refine ⟨hsource, hplace, margin, shown, lost, lead, hexcerpt, ?_, hlength⟩
  rw [hlength]
  exact hshown '=' (by decide) (by decide)

/-- A string with a letter of two bytes, and a character that begins no token. That character is
shown in column 8, and the caret in column 9. -/
theorem not_render_points :
    let source := "\"é\" @"
    ∃ d ∈ (Program.parse source none).2, d.position.offset = byteLength "\"é\" ".toList ∧
      ∃ above shown lead,
        lines (d.render source).toList = above ++ [shown ++ ['\n'], lead ++ ['^', '\n'], []] ∧
        '^' ∉ lead ∧ lead.length = 9 ∧ shown[8]? = some '@' := by
  intro source
  refine ⟨⟨.unrecognisedToken "@", ⟨5, "shell"⟩⟩, by decide +kernel, by decide,
    ["Error: UnrecognisedToken\n".toList, "-> shell\n".toList, "  |\n".toList],
    "1 | \"é\" @".toList, "  | -----".toList, ?_, by decide, by decide, by decide⟩
  decide +kernel

end Diagnostic

end TypedScript
