import TypedScript.Token.Scan

namespace TypedScript

namespace Pattern

def isSolid : Pattern → Bool
  | fixed _ text => !text.toList.isEmpty
  | _ => true

theorem isSolid_of_mem_table : ∀ p ∈ table, p.isSolid = true := by decide

theorem isPrefix_of_quotedTail {cs tail : List Char} (h : quotedTail cs = some tail) :
    tail <+: cs := by
  fun_induction quotedTail cs generalizing tail with
  | case1 => cases h
  | case2 => cases h
  | case3 => cases h
  | case4 c cs _ ih =>
    obtain ⟨rest, hrest, rfl⟩ := Option.map_eq_some_iff.1 h
    exact (List.prefix_append_right_inj ['\\', c]).2 (ih hrest)
  | case5 cs =>
    cases h
    exact List.prefix_append ['"'] cs
  | case6 c cs _ _ _ ih =>
    obtain ⟨rest, hrest, rfl⟩ := Option.map_eq_some_iff.1 h
    exact (List.prefix_append_right_inj [c]).2 (ih hrest)

theorem someText_eq_some {cs text : List Char} (h : someText cs = some text) :
    text = cs ∧ text ≠ [] := by
  rw [someText] at h
  split at h
  · cases h
  · rename_i hne
    cases h
    exact ⟨rfl, by simpa using hne⟩

theorem fractionOf_isPrefix (cs : List Char) : fractionOf cs <+: cs := by
  rw [fractionOf.eq_def]
  split
  · split
    · exact List.nil_prefix
    · exact (List.prefix_append_right_inj ['.']).2 (List.takeWhile_prefix isDigit)
  · exact List.nil_prefix

theorem isPrefix_of_lexeme? {p : Pattern} (hp : p.isSolid = true) {cs lexeme : List Char}
    (h : p.lexeme? cs = some lexeme) : lexeme ≠ [] ∧ lexeme <+: cs := by
  cases p with
  | name =>
    cases cs with
    | nil => cases h
    | cons c cs =>
      simp only [lexeme?] at h
      split at h <;> cases h
      exact ⟨by simp, (List.prefix_append_right_inj [c]).2 (List.takeWhile_prefix isWordChar)⟩
  | number =>
    obtain ⟨digits, hdigits, rfl⟩ := Option.map_eq_some_iff.1 h
    obtain ⟨rfl, hne⟩ := someText_eq_some hdigits
    refine ⟨fun hnil => hne (List.append_eq_nil_iff.1 hnil).1, ?_⟩
    have hall := (List.prefix_append_right_inj (cs.takeWhile isDigit)).2
      (fractionOf_isPrefix (cs.dropWhile isDigit))
    rwa [List.takeWhile_append_dropWhile] at hall
  | blank =>
    obtain ⟨rfl, hne⟩ := someText_eq_some h
    exact ⟨hne, List.takeWhile_prefix _⟩
  | quoted =>
    simp only [lexeme?] at h
    split at h
    · obtain ⟨tail, htail, rfl⟩ := Option.map_eq_some_iff.1 h
      exact ⟨by simp, (List.prefix_append_right_inj ['"']).2 (isPrefix_of_quotedTail htail)⟩
    · cases h
  | comment =>
    simp only [lexeme?] at h
    split at h <;> cases h
    exact ⟨by simp, (List.prefix_append_right_inj ['/', '/']).2 (List.takeWhile_prefix _)⟩
  | fixed kind text =>
    simp only [lexeme?] at h
    split at h <;> cases h
    rename_i hprefix
    exact ⟨by simpa [isSolid] using hp, List.isPrefixOf_iff_prefix.1 hprefix⟩

theorem isPrefix_of_first? {cs lexeme : List Char} {p : Pattern}
    (h : first? cs = some (p, lexeme)) :
    lexeme ≠ [] ∧ lexeme <+: cs := by
  obtain ⟨q, hq, hmap⟩ := List.exists_of_findSome?_eq_some h
  obtain ⟨l, hl, heq⟩ := Option.map_eq_some_iff.1 hmap
  cases heq
  exact isPrefix_of_lexeme? (isSolid_of_mem_table p hq) hl

end Pattern

namespace Token

structure Laid (file : String) (stop : Nat) (ts : List Token) : Prop where
  order : ts.Pairwise fun t u => t.span.stop.offset ≤ u.span.start.offset
  solid : ∀ t ∈ ts, t.span.start.offset < t.span.stop.offset
  before : ∀ t ∈ ts, t.span.stop.offset ≤ stop
  file : ∀ t ∈ ts, t.span.start.file = file ∧ t.span.stop.file = file

namespace Laid

variable {file : String} {stop stop' : Nat} {ts : List Token}

theorem nil (file : String) (stop : Nat) : Laid file stop [] :=
  ⟨.nil, List.forall_mem_nil _, List.forall_mem_nil _, List.forall_mem_nil _⟩

theorem mono (h : Laid file stop ts) (hle : stop ≤ stop') : Laid file stop' ts :=
  ⟨h.order, h.solid, fun t ht => Nat.le_trans (h.before t ht) hle, h.file⟩

theorem concat (h : Laid file stop ts) {start : Nat} (hle : stop ≤ start) (hlt : start < stop')
    (kind : Kind) (value : String) :
    Laid file stop' (ts ++ [⟨kind, value, ⟨⟨start, file⟩, ⟨stop', file⟩⟩⟩]) where
  order := by
    refine List.pairwise_append.2 ⟨h.order, List.pairwise_singleton _ _, fun t ht u hu => ?_⟩
    cases List.mem_singleton.1 hu
    exact Nat.le_trans (h.before t ht) hle
  solid := List.forall_mem_append.2 ⟨h.solid, List.forall_mem_singleton.2 hlt⟩
  before := by
    refine List.forall_mem_append.2 ⟨fun t ht => ?_, List.forall_mem_singleton.2 (Nat.le_refl _)⟩
    exact Nat.le_trans (h.before t ht) (Nat.le_trans hle (Nat.le_of_lt hlt))
  file := List.forall_mem_append.2 ⟨h.file, List.forall_mem_singleton.2 ⟨rfl, rfl⟩⟩

end Laid

variable {file : String}

theorem positionAt_of_lt {offset : Nat} (h : offset < Source.offsetBound) :
    Source.positionAt file offset = ⟨offset, file⟩ := by
  rw [Source.positionAt, Nat.mod_eq_of_lt h]

theorem spanAt_of_lt {offset length : Nat} (h : offset + length < Source.offsetBound) :
    Source.spanAt file offset length = ⟨⟨offset, file⟩, ⟨offset + length, file⟩⟩ := by
  have hstart : offset < Source.offsetBound := Nat.lt_of_le_of_lt (Nat.le_add_right ..) h
  rw [Source.spanAt, positionAt_of_lt h, positionAt_of_lt hstart]

theorem scanFrom_laid {found ts : List Token} {offset inside : Nat} {cs : List Char}
    (hend : offset + Source.byteLength cs < Source.offsetBound)
    (hfound : Laid file (offset + Source.byteLength (cs.take inside)) found.reverse)
    (h : scanFrom file found offset inside cs = .ok ts) :
    ∃ us stop, ts = us ++ [endAt ⟨stop, file⟩] ∧ Laid file stop us := by
  induction cs generalizing found offset inside with
  | nil =>
    rw [scanFrom, positionAt_of_lt (by simpa using hend), List.reverse_cons] at h
    rw [List.take_nil] at hfound
    exact ⟨found.reverse, offset, (Except.ok.inj h).symm, hfound⟩
  | cons c cs ih =>
    rw [Source.byteLength_cons, ← Nat.add_assoc] at hend
    cases inside with
    | succ inside =>
      rw [scanFrom] at h
      rw [List.take_succ_cons, Source.byteLength_cons, ← Nat.add_assoc] at hfound
      exact ih hend hfound h
    | zero =>
      rw [scanFrom] at h
      split at h
      · cases h
      · rename_i pattern lexeme hfirst
        obtain ⟨hne, rest, hrest⟩ := Pattern.isPrefix_of_first? hfirst
        obtain ⟨d, lexeme, rfl⟩ := List.exists_cons_of_ne_nil hne
        rw [List.cons_append, List.cons.injEq] at hrest
        obtain ⟨rfl, rfl⟩ := hrest
        have hlt : offset < offset + Source.byteLength (d :: lexeme) :=
          Nat.lt_add_of_pos_right (Nat.lt_add_right _ d.utf8Size_pos)
        have hstop : offset + Source.byteLength (d :: lexeme) < Source.offsetBound := by
          rw [Source.byteLength_append] at hend
          rw [Source.byteLength_cons]
          omega
        -- The rest of the lexeme is skipped, and what was found then stops where the lexeme does.
        refine ih hend ?_ h
        rw [List.length_cons, Nat.add_sub_cancel, List.take_left, Nat.add_assoc,
          ← Source.byteLength_cons]
        cases ofLexeme? pattern (d :: lexeme) with
        | none => exact hfound.mono (Nat.le_of_lt hlt)
        | some made =>
          dsimp only
          rw [spanAt_of_lt hstop, List.reverse_cons]
          exact hfound.concat (Nat.le_refl offset) hlt made.1 made.2

theorem scan_laid {source : String} {name : Option String} {ts : List Token}
    (hend : Source.byteLength source.toList < Source.offsetBound) (h : scan source name = .ok ts) :
    ∃ us stop, ts = us ++ [endAt ⟨stop, name.getD Source.defaultFile⟩] ∧
      Laid (name.getD Source.defaultFile) stop us :=
  scanFrom_laid (by rwa [Nat.zero_add]) (.nil _ _) h

end Token

end TypedScript
