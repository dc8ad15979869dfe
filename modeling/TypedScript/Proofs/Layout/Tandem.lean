import TypedScript.Proofs.Grammar.Spells
import TypedScript.Proofs.Layout.Relocate

/-! Two readings in tandem. The second reads what the first reads, at other places, behind tokens
of its own, or in a list that goes on where that of the first ends. -/

namespace TypedScript

/-- How the second reading differs from the first: its places are those of `places`, it has
passed `base` before, and `rest` stands where the first comes to its last token. If `cut` is
false, that is an end token as well. Otherwise it can be anything but `else`, and the two are
compared only while the first reports nothing and does not need to know that it is at its end. -/
structure Tandem where
  places : Relocation
  base : List Token
  last : Token
  rest : List Token
  cut : Bool
  last_eof : last.kind = .eof
  rest_ne_nil : rest ≠ []
  rest_eq : cut = false → ∃ y, rest = [y] ∧ y.kind = .eof ∧ y.value = last.value ∧
    y.span.start = places.starts last.span.start
  rest_ne_else : cut = true → ∀ y ∈ rest.head?, y.kind ≠ .kwElse

namespace Cursor

def skipFrom (s : Cursor) (depth : Nat) : Cursor :=
  skip s.reported depth s.passed s.current s.ahead

def skipRound : Nat → Token.Kind → Option (Option Nat)
  | _, .eof => none
  | 0, .semicolon => some none
  | 0, .closeCurly => none
  | 1, .closeCurly => some none
  | depth + 2, .closeCurly => some (some (depth + 1))
  | depth, .openCurly => some (some (depth + 1))
  | depth, _ => some (some depth)

variable {s : Cursor}

theorem skipFrom_of_nil (h : s.ahead = []) (depth : Nat) : s.skipFrom depth = s := by
  obtain ⟨passed, current, ahead, reported⟩ := s
  cases h
  rw [skipFrom, skip]

theorem skipFrom_of_ne_nil (h : s.ahead ≠ []) (depth : Nat) :
    s.skipFrom depth = match skipRound depth s.kind with
      | none => s
      | some none => s.next
      | some (some depth) => s.next.skipFrom depth := by
  obtain ⟨passed, current, ahead, reported⟩ := s
  cases ahead with
  | nil => exact absurd rfl h
  | cons t ts =>
    simp only [skipFrom, kind, next]
    generalize hk : current.kind = k
    rw [skip.eq_def]
    dsimp only
    rw [hk]
    cases k <;> rcases depth with _ | _ | depth <;> rfl

theorem next_of_ne_nil (h : s.ahead ≠ []) :
    s.ahead.length = s.next.ahead.length + 1 ∧ s.next.index = s.index + 1 := by
  obtain ⟨passed, current, ahead, reported⟩ := s
  cases ahead with
  | nil => exact absurd rfl h
  | cons t ts => exact ⟨rfl, rfl⟩

theorem index_le_next (s : Cursor) : s.index ≤ s.next.index := by
  by_cases h : s.ahead = []
  · have hn : s.next = s := by rw [next, h]
    exact Nat.le_of_eq (by rw [hn])
  · rw [(next_of_ne_nil h).2]
    exact Nat.le_succ _

end Cursor

namespace Tandem

variable (w : Tandem)

structure Like (s t : Cursor) : Prop where
  upcoming : ∃ us, s.upcoming = us ++ [w.last] ∧
    t.upcoming = us.map (Token.relocate w.places) ++ w.rest
  passed : t.passed = s.passed.map (Token.relocate w.places) ++ w.base
  reported : t.reported = s.reported.map (Diagnostic.relocate w.places)
  clean : w.cut = true → s.reported = []

def Dirty (s : Cursor) : Prop := w.cut = true ∧ s.reported ≠ []

/-- The first is at its end or has reported something. -/
def Lost (s : Cursor) : Prop :=
  w.cut = true ∧ (s.reported ≠ [] ∨ s.ahead = [] ∧ s.kind = .eof)

structure Alike (x y : Token) : Prop where
  kind : y.kind = x.kind
  value : y.value = x.value
  start : y.span.start = w.places.starts x.span.start

variable {w} {s t : Cursor}

theorem Alike.text {x y : Token} (h : w.Alike x y) : y.text = x.text := by
  rw [Token.text, Token.text, h.kind, h.value]

theorem Dirty.lost (h : w.Dirty s) : w.Lost s := ⟨h.1, .inl h.2⟩

theorem Lost.dirty (h : w.Lost s) (hk : s.kind ≠ .eof) : w.Dirty s :=
  ⟨h.1, h.2.resolve_right fun he => hk he.2⟩

theorem Lost.next (h : w.Lost s) : w.Lost s.next := by
  refine ⟨h.1, ?_⟩
  rw [Cursor.reported_next]
  refine h.2.imp_right fun ⟨ha, hk⟩ => ?_
  have hn : s.next = s := by rw [Cursor.next, ha]
  rw [hn]
  exact ⟨ha, hk⟩

namespace Like

theorem cases (h : w.Like s t) :
    (∃ us, s.ahead = us ++ [w.last] ∧ t.current = s.current.relocate w.places ∧
      t.ahead = us.map (Token.relocate w.places) ++ w.rest) ∨
    s.current = w.last ∧ s.ahead = [] ∧ t.upcoming = w.rest := by
  obtain ⟨us, hs, ht⟩ := h.upcoming
  cases us with
  | nil =>
    rw [Cursor.upcoming, List.nil_append, List.cons.injEq] at hs
    exact .inr ⟨hs.1, hs.2, ht⟩
  | cons u us =>
    rw [Cursor.upcoming, List.cons_append, List.cons.injEq] at hs
    rw [Cursor.upcoming, List.map_cons, List.cons_append, List.cons.injEq] at ht
    exact .inl ⟨us, hs.2, by rw [ht.1, hs.1], ht.2⟩

theorem alike (h : w.Like s t) : w.Lost s ∨ w.Alike s.current t.current := by
  obtain ⟨us, -, hc, -⟩ | ⟨hc, ha, ht⟩ := h.cases
  · rw [hc]
    exact .inr ⟨rfl, rfl, rfl⟩
  · cases hcut : w.cut with
    | true => exact .inl ⟨hcut, .inr ⟨ha, by rw [Cursor.kind, hc, w.last_eof]⟩⟩
    | false =>
      obtain ⟨y, hy, hk, hv, hp⟩ := w.rest_eq hcut
      rw [hy, Cursor.upcoming, List.cons.injEq] at ht
      rw [hc, ht.1]
      exact .inr ⟨hk.trans w.last_eof.symm, hv, hp⟩

theorem else_iff (h : w.Like s t) : t.kind = .kwElse ↔ s.kind = .kwElse := by
  obtain ⟨us, -, hc, -⟩ | ⟨hc, ha, ht⟩ := h.cases
  · rw [Cursor.kind, Cursor.kind, hc, Token.relocate_kind]
  · have hs : s.kind = .eof := by rw [Cursor.kind, hc, w.last_eof]
    have hne : t.kind ≠ .kwElse := by
      cases hcut : w.cut with
      | true =>
        refine w.rest_ne_else hcut t.current ?_
        rw [← ht]
        rfl
      | false =>
        obtain ⟨y, hy, hk, -⟩ := w.rest_eq hcut
        rw [hy, Cursor.upcoming, List.cons.injEq] at ht
        rw [Cursor.kind, ht.1, hk]
        exact Token.Kind.noConfusion
    rw [hs]
    exact ⟨fun he => absurd he hne, fun he => by cases he⟩

theorem next (h : w.Like s t) (hk : s.kind ≠ .eof) :
    t.current = s.current.relocate w.places ∧ w.Like s.next t.next ∧
      s.next.passed = s.current :: s.passed := by
  obtain ⟨us, ha, hc, ht⟩ | ⟨hc, -, -⟩ := h.cases
  · have hs : ∃ v vs, us ++ [w.last] = v :: vs ∧
      us.map (Token.relocate w.places) ++ w.rest ≠ [] := by
      cases us with
      | nil => exact ⟨_, _, rfl, by simpa using w.rest_ne_nil⟩
      | cons u us => exact ⟨_, _, rfl, by simp⟩
    obtain ⟨v, vs, hv, hne⟩ := hs
    obtain ⟨v', vs', hv'⟩ := List.exists_cons_of_ne_nil hne
    have hns : s.next = { s with passed := s.current :: s.passed, current := v, ahead := vs } := by
      rw [Cursor.next, ha, hv]
    have hnt : t.next =
        { t with passed := t.current :: t.passed, current := v', ahead := vs' } := by
      rw [Cursor.next, ht, hv']
    rw [hns, hnt]
    refine ⟨hc, ⟨⟨us, hv.symm, hv'.symm⟩, ?_, h.reported, h.clean⟩, rfl⟩
    simp [hc, h.passed]
  · exact absurd (by rw [Cursor.kind, hc, w.last_eof]) hk

theorem next_whole (h : w.Like s t) (hcut : w.cut = false) : w.Like s.next t.next := by
  by_cases hk : s.kind = .eof
  · obtain ⟨us, ha, hc, ht⟩ | ⟨hc, ha, ht⟩ := h.cases
    · obtain ⟨y, hy, -⟩ := w.rest_eq hcut
      rw [Cursor.next, Cursor.next, ha, ht, hy]
      have hp : t.current :: t.passed =
          (s.current :: s.passed).map (Token.relocate w.places) ++ w.base := by
        simp [hc, h.passed]
      cases us with
      | nil => exact ⟨⟨[], rfl, by rw [hy]; rfl⟩, hp, h.reported, h.clean⟩
      | cons u us => exact ⟨⟨u :: us, rfl, by rw [hy]; rfl⟩, hp, h.reported, h.clean⟩
    · obtain ⟨y, hy, -⟩ := w.rest_eq hcut
      rw [hy, Cursor.upcoming, List.cons.injEq] at ht
      have hs : s.next = s := by rw [Cursor.next, ha]
      have ht' : t.next = t := by rw [Cursor.next, ht.2]
      rwa [hs, ht']
  · exact (h.next hk).2.1

theorem report (h : w.Like s t) (hcut : w.cut = false) (d : Diagnostic) :
    w.Like (s.report d) (t.report (d.relocate w.places)) where
  upcoming := h.upcoming
  passed := h.passed
  reported := by simp [Cursor.report, h.reported]
  clean hc := by simp [hcut] at hc

theorem index (h : w.Like s t) : t.index = s.index + w.base.length := by
  simp [Cursor.index, h.passed]

theorem passedEnd (h : w.Like s t) (hs : s.passed ≠ []) :
    t.passedEnd = w.places.stops s.passedEnd := by
  obtain ⟨x, xs, hx⟩ := List.exists_cons_of_ne_nil hs
  rw [Cursor.passedEnd, Cursor.passedEnd, h.passed, hx]
  rfl

theorem skipFrom (hcut : w.cut = false) (n : Nat) {s t : Cursor} (hn : s.ahead.length = n)
    (h : w.Like s t) (depth : Nat) :
    w.Like (s.skipFrom depth) (t.skipFrom depth) ∧ s.index ≤ (s.skipFrom depth).index := by
  induction n generalizing s t depth with
  | zero =>
    have hs : s.ahead = [] := List.length_eq_zero_iff.1 hn
    obtain ⟨us, ha, -⟩ | ⟨-, -, ht⟩ := h.cases
    · simp [hs] at ha
    · obtain ⟨y, hy, -⟩ := w.rest_eq hcut
      rw [hy, Cursor.upcoming, List.cons.injEq] at ht
      rw [Cursor.skipFrom_of_nil hs, Cursor.skipFrom_of_nil ht.2]
      exact ⟨h, Nat.le_refl _⟩
  | succ n ih =>
    have hs : s.ahead ≠ [] := fun he => by simp [he] at hn
    have ht : t.ahead ≠ [] := by
      obtain ⟨us, -, -, ht⟩ | ⟨-, ha, -⟩ := h.cases
      · simp [ht, w.rest_ne_nil]
      · exact absurd ha hs
    have hk : t.kind = s.kind := (h.alike.resolve_left fun hl => by simp [hl.1] at hcut).kind
    have hnext := h.next_whole hcut
    obtain ⟨hlen, hindex⟩ := Cursor.next_of_ne_nil hs
    rw [Cursor.skipFrom_of_ne_nil hs, Cursor.skipFrom_of_ne_nil ht, hk]
    rcases Cursor.skipRound depth s.kind with _ | _ | depth'
    · exact ⟨h, Nat.le_refl _⟩
    · exact ⟨hnext, by rw [hindex]; exact Nat.le_succ _⟩
    · obtain ⟨hl, hi⟩ := ih (by omega) hnext depth'
      refine ⟨hl, ?_⟩
      dsimp only
      omega

theorem recover (h : w.Like s t) (hcut : w.cut = false) (start : Nat) (d : Diagnostic) :
    w.Like (s.recover start d) (t.recover (start + w.base.length) (d.relocate w.places)) ∧
      s.index ≤ (s.recover start d).index := by
  obtain ⟨hl, hi⟩ := (h.report hcut d).skipFrom hcut _ rfl 0
  rw [Cursor.recover, Cursor.recover]
  have hindex : (t.report (d.relocate w.places)).skipStatement.index =
      (s.report d).skipStatement.index + w.base.length := hl.index
  by_cases hstart : (s.report d).skipStatement.index = start
  · rw [if_pos hstart, if_pos (by rw [hindex, hstart])]
    exact ⟨hl.next_whole hcut, Nat.le_trans hi (Cursor.index_le_next _)⟩
  · rw [if_neg hstart, if_neg (by rw [hindex]; omega)]
    exact ⟨hl, hi⟩

end Like

structure Stage (w : Tandem) where
  gone : Cursor → Prop
  link : Cursor → Cursor → Prop
  cut : ∀ {s}, gone s → w.cut = true
  like : ∀ {s t}, link s t → w.Like s t

namespace Stage

def firm (w : Tandem) : Stage w := ⟨w.Dirty, w.Like, fun h => h.1, fun h => h⟩

def loose (w : Tandem) : Stage w := ⟨w.Lost, w.Like, fun h => h.1, fun h => h⟩

def inside (w : Tandem) : Stage w :=
  ⟨w.Lost, fun s t => w.Like s t ∧ s.kind ≠ .eof, fun h => h.1, fun h => h.1⟩

variable {w : Tandem}

def moved (X : Stage w) : Stage w :=
  ⟨X.gone, fun s t => X.link s t ∧ s.passed ≠ [], X.cut, fun h => X.like h.1⟩

def seeing (X : Stage w) (k : Token.Kind) : Stage w :=
  ⟨w.Lost, fun s t => X.link s t ∧ s.kind = k, fun h => h.1, fun h => X.like h.1⟩

structure Within (X Y : Stage w) : Prop where
  gone : ∀ {s}, X.gone s → Y.gone s
  link : ∀ {s t}, X.link s t → Y.link s t

namespace Within

variable {X Y : Stage w}

theorem refl (X : Stage w) : X.Within X := ⟨fun h => h, fun h => h⟩

theorem moved (X : Stage w) : X.moved.Within X := ⟨fun h => h, fun h => h.1⟩

theorem moved_mono (h : X.Within Y) : X.moved.Within Y.moved :=
  ⟨h.gone, fun hs => ⟨h.link hs.1, hs.2⟩⟩

theorem firm_loose : (firm w).Within (loose w) := ⟨Dirty.lost, fun h => h⟩

theorem firm_moved_loose : (firm w).moved.Within (loose w) := ⟨Dirty.lost, fun h => h.1⟩

theorem seeing (h : X.Within (loose w)) (k : Token.Kind) : (X.seeing k).Within (loose w) :=
  ⟨fun h => h, fun hs => h.link hs.1⟩

theorem seeing_inside (h : X.Within (loose w)) {k : Token.Kind} (hk : k ≠ .eof) :
    (X.seeing k).Within (inside w) :=
  ⟨fun h => h, fun hs => ⟨h.link hs.1, by rw [hs.2]; exact hk⟩⟩

theorem seeing_moved (k : Token.Kind) : ((loose w).moved.seeing k).Within (loose w).moved :=
  ⟨fun h => h, fun hs => hs.1⟩

end Within

end Stage

end Tandem

end TypedScript
