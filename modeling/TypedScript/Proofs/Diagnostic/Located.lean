import TypedScript.Proofs.Layout.Shown
import TypedScript.Proofs.Source.Line
import TypedScript.Proofs.Token.Partition
import TypedScript.Diagnostic.Render

/-! Where diagnostics stand. Reading commutes with relocations, so it has no place to report at but
those that its tokens start at: a relocation that leaves these where they are leaves the diagnostics
there too. Every diagnostic of a text is therefore at a place in the text, and is shown with its
line. -/

namespace TypedScript

namespace Relocation

def toStarts (ts : List Token) (place : Position) : Relocation :=
  ⟨fun p => if p ∈ ts.map fun t => t.span.start then p else place, id⟩

variable {ts : List Token} {place : Position}

theorem relocate_toStarts {t : Token} (ht : t ∈ ts) : t.relocate (toStarts ts place) = t := by
  have hstart : (toStarts ts place).starts t.span.start = t.span.start :=
    if_pos (List.mem_map_of_mem ht)
  rw [Token.relocate, Span.relocate, hstart]
  rfl

theorem starts_toStarts_mem (hplace : place ∈ ts.map fun t => t.span.start) (p : Position) :
    (toStarts ts place).starts p ∈ ts.map fun t => t.span.start := by
  rw [toStarts]
  dsimp only
  split
  · assumption
  · exact hplace

end Relocation

structure Position.InText (p : Position) (source : String) (name : Option String) : Prop where
  file : p.file = name.getD Source.defaultFile
  boundary : ∃ before after, source.toList = before ++ after ∧
    p.offset = Source.byteLength before

theorem Position.InText.offset_le {p : Position} {source : String} {name : Option String}
    (h : p.InText source name) : p.offset ≤ Source.byteLength source.toList := by
  obtain ⟨before, after, hsource, hoffset⟩ := h.boundary
  rw [hoffset, hsource, Source.byteLength_append]
  exact Nat.le_add_right _ _

namespace Token

open Pattern (first? Cuts taken)

variable {source : String}

theorem inText_of_cuts (name : Option String) {rounds : List (Pattern × List Char)}
    {rest : List Char} (hsize : Source.byteLength source.toList < Source.offsetBound)
    (hcuts : Cuts source.toList rounds rest) :
    (Source.positionAt (name.getD Source.defaultFile)
      (Source.byteLength (taken rounds))).InText source name := by
  have heq := hcuts.eq
  rw [heq, Source.byteLength_append] at hsize
  rw [positionAt_of_lt (Nat.lt_of_le_of_lt (Nat.le_add_right _ _) hsize)]
  exact ⟨rfl, taken rounds, rest, heq, rfl⟩

theorem inText_of_scan {name : Option String} {ts : List Token}
    (hsize : Source.byteLength source.toList < Source.offsetBound) (h : scan source name = .ok ts) :
    ∀ t ∈ ts, t.span.start.InText source name := by
  obtain ⟨rounds, rest, hcuts, hrest⟩ := Pattern.exists_cuts source.toList
  have hscan : scan source name = outcome _ rounds rest := scan_of_cuts hcuts hrest
  cases rest with
  | cons c after =>
    rw [hscan] at h
    cases h
  | nil =>
    have heq : source.toList = taken rounds := hcuts.eq.trans (List.append_nil _)
    obtain ⟨us, stop, rfl, hlaid⟩ := scan_laid hsize h
    rw [hscan, outcome] at h
    obtain ⟨rfl, hend⟩ := List.append_inj' (Except.ok.inj h) rfl
    intro t ht
    obtain ht | ht := List.mem_append.1 ht
    · refine ⟨(hlaid.file t ht).1, ?_⟩
      obtain ⟨x, hx, hxt⟩ := exists_piece_of_mem ht
      obtain ⟨before, after, hsplit, hstart, -⟩ := pieces_cover [] [] (heq ▸ hsize) x hx
      refine ⟨before, x.text ++ after, ?_, ?_⟩
      · rw [heq, ← List.append_assoc, ← hsplit, List.nil_append, List.append_nil]
      · rw [Piece.span_of_token? hxt, hstart]
    · rw [← hend] at ht
      rw [List.mem_singleton.1 ht]
      exact inText_of_cuts name hsize hcuts

end Token

namespace Diagnostic

open Pattern (first? Cuts taken)

/-- A diagnostic that can be found in its text. It is where a token starts, or it is the one of a
scan that gave up, where no token can be read, and it is shown with a line. -/
structure Located (d : Diagnostic) (source : String) (name : Option String) : Prop where
  inText : d.position.InText source name
  offset_le : d.position.offset ≤ Source.byteLength source.toList
  origin : (∃ ts, Token.scan source name = .ok ts ∧ ∃ t ∈ ts, d.position = t.span.start) ∨
    (Token.scan source name = .error d ∧ ∃ rounds rest, Cuts source.toList rounds rest ∧
      first? rest = none ∧ rest ≠ [] ∧ d.position.offset = Source.byteLength (taken rounds))
  shown : ∃ (line : Source.Line) (number : Nat),
    Source.lineAt? source d.position.offset = some { line with number := number } ∧
      line.Locates source.toList d.position.offset ∧
      d.render source = d.header ++ excerpt { line with number := number }

variable {source : String} {name : Option String} {d : Diagnostic}

theorem exists_line (h : d.position.InText source name) :
    ∃ (line : Source.Line) (number : Nat),
      Source.lineAt? source d.position.offset = some { line with number := number } ∧
        line.Locates source.toList d.position.offset ∧
        d.render source = d.header ++ excerpt { line with number := number } := by
  obtain ⟨line, number, hline, hlocates⟩ := Source.lineAt?_of_le h.offset_le
  refine ⟨line, number, hline, hlocates, ?_⟩
  rw [render, hline]

theorem located_of_scan (hsize : Source.byteLength source.toList < Source.offsetBound)
    (h : Token.scan source name = .error d) : d.Located source name := by
  obtain ⟨rounds, rest, hcuts, hrest⟩ := Pattern.exists_cuts source.toList
  have hscan : Token.scan source name = Token.outcome _ rounds rest :=
    Token.scan_of_cuts hcuts hrest
  cases rest with
  | nil =>
    rw [hscan] at h
    cases h
  | cons c after =>
    obtain rfl : _ = d := Except.error.inj (hscan.symm.trans h)
    have hlt : Source.byteLength (taken rounds) < Source.offsetBound := by
      rw [hcuts.eq, Source.byteLength_append] at hsize
      omega
    have hin := Token.inText_of_cuts name hsize hcuts
    refine ⟨hin, hin.offset_le, .inr ⟨h, rounds, _, hcuts, hrest, List.cons_ne_nil _ _, ?_⟩,
      exists_line hin⟩
    exact Nat.mod_eq_of_lt hlt

end Diagnostic

namespace Program

theorem exists_token_of_mem (ts : List Token) {last : Token} (hlast : last.kind = .eof)
    (Γ : Context) {d : Diagnostic} (hd : d ∈ (ofTokens (ts ++ [last]) Γ).2) :
    ∃ t ∈ ts ++ [last], d.position = t.span.start := by
  let ρ := Relocation.toStarts (ts ++ [last]) last.span.start
  have hfixed : ∀ t ∈ ts ++ [last], t.relocate ρ = t := fun t => Relocation.relocate_toStarts
  have hts : ts.map (Token.relocate ρ) = ts := by
    rw [List.map_congr_left fun t ht => hfixed t (List.mem_append_left _ ht), List.map_id']
  have hend : last ∈ ts ++ [last] := by simp
  have hread := ofTokens_relocate (ρ := ρ) ts last last hlast rfl
    (congrArg (·.span.start) (hfixed last hend).symm) Γ
  rw [hts] at hread
  -- The relocation leaves the tokens where they are, so it leaves the diagnostics there.
  have hds : (ofTokens (ts ++ [last]) Γ).2.map (Diagnostic.relocate ρ) =
      (ofTokens (ts ++ [last]) Γ).2.map id := by
    rw [List.map_id]
    exact (congrArg Prod.snd hread).symm
  have hplace : ρ.starts d.position = d.position :=
    congrArg Diagnostic.position (List.map_inj_left.1 hds d hd)
  have hmem : ρ.starts d.position ∈ (ts ++ [last]).map (·.span.start) :=
    Relocation.starts_toStarts_mem (List.mem_map_of_mem hend) d.position
  rw [hplace] at hmem
  obtain ⟨t, ht, heq⟩ := List.mem_map.1 hmem
  exact ⟨t, ht, heq.symm⟩

/-- Every diagnostic of a text can be found in it. -/
theorem parse_located {source : String} (name : Option String)
    (hsize : Source.byteLength source.toList < Source.offsetBound) :
    ∀ d ∈ (parse source name).2, d.Located source name := by
  intro d hd
  rw [parse] at hd
  cases hscan : Token.scan source name with
  | error e =>
    rw [hscan] at hd
    obtain rfl := List.mem_singleton.1 hd
    exact Diagnostic.located_of_scan hsize hscan
  | ok ts =>
    rw [hscan] at hd
    obtain ⟨us, stop, rfl, -⟩ := Token.scan_laid hsize hscan
    obtain ⟨t, ht, hplace⟩ := exists_token_of_mem us rfl .initial hd
    have hin : d.position.InText source name := by
      rw [hplace]
      exact Token.inText_of_scan hsize hscan t ht
    exact ⟨hin, hin.offset_le, .inl ⟨_, hscan, t, ht, hplace⟩, Diagnostic.exists_line hin⟩

theorem parse_located_of_faulty :
    let text := "let x: int = \"é\";\n1 +"
    let odd := "1;\n @"
    (Source.byteLength text.toList < Source.offsetBound ∧
      (parse text none).2.map (·.position) = [⟨13, "shell"⟩, ⟨22, "shell"⟩] ∧
      ∀ d ∈ (parse text none).2, d.Located text none) ∧
    (Source.byteLength odd.toList < Source.offsetBound ∧
      (parse odd (some "odd.txt")).2.map (·.position) = [⟨4, "odd.txt"⟩] ∧
      ∀ d ∈ (parse odd (some "odd.txt")).2, d.Located odd (some "odd.txt")) := by
  intro text odd
  have htext : Source.byteLength text.toList < Source.offsetBound := by decide
  have hodd : Source.byteLength odd.toList < Source.offsetBound := by decide
  exact ⟨⟨htext, by decide +kernel, parse_located none htext⟩,
    hodd, by decide +kernel, parse_located _ hodd⟩

end Program

end TypedScript
