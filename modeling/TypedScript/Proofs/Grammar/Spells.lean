import TypedScript.Expr.Parser

namespace TypedScript

namespace Cursor

def upcoming (c : Cursor) : List Token := c.current :: c.ahead

/-- The last token is an end token. -/
def Closed (c : Cursor) : Prop := ∃ last, c.upcoming.getLast? = some last ∧ last.kind = .eof

structure Reaches (c : Cursor) (ts : List Token) (d : Cursor) : Prop where
  passed : d.passed = ts.reverse ++ c.passed
  upcoming : c.upcoming = ts ++ d.upcoming

namespace Reaches

variable {c d e : Cursor} {ts us : List Token}

theorem refl (c : Cursor) : c.Reaches [] c := ⟨rfl, rfl⟩

theorem trans (h : c.Reaches ts d) (h' : d.Reaches us e) : c.Reaches (ts ++ us) e where
  passed := by simp [h'.passed, h.passed]
  upcoming := by simp [h'.upcoming, h.upcoming]

theorem closed (h : c.Reaches ts d) (hc : c.Closed) : d.Closed := by
  obtain ⟨last, hl, hlast⟩ := hc
  refine ⟨last, ?_, hlast⟩
  rw [h.upcoming, List.getLast?_append] at hl
  rw [Cursor.upcoming, List.getLast?_cons] at hl ⊢
  exact hl

theorem rest (h : c.Reaches ts d) (hc : c.upcoming = ts ++ us) : d.upcoming = us :=
  List.append_cancel_left (h.upcoming.symm.trans hc)

theorem unique {d' : Cursor} (h : c.Reaches ts d) (h' : c.Reaches ts d') :
    d'.passed = d.passed ∧ d'.upcoming = d.upcoming :=
  ⟨h'.passed.trans h.passed.symm, h'.rest h.upcoming⟩

end Reaches

theorem reaches_next {c : Cursor} (hc : c.Closed) (hk : c.kind ≠ .eof) :
    c.Reaches [c.current] c.next := by
  obtain ⟨passed, current, ahead, reported⟩ := c
  cases ahead with
  | nil =>
    obtain ⟨last, hl, hlast⟩ := hc
    cases hl
    exact absurd hlast hk
  | cons t ts => exact ⟨rfl, rfl⟩

theorem reported_next (c : Cursor) : c.next.reported = c.reported := by
  rw [next]
  split <;> rfl

theorem closed_start (ts : List Token) {last : Token} (h : last.kind = .eof) :
    (start ts last).Closed := by
  cases ts with
  | nil => exact ⟨last, rfl, h⟩
  | cons t ts => exact ⟨last, by simp [start, upcoming, List.getLast?_cons], h⟩

theorem closed_ofTokens (tokens : List Token) : (ofTokens tokens).Closed := by
  rw [ofTokens]
  split
  · exact closed_start _ rfl
  · split
    · exact closed_start _ ‹_›
    · exact closed_start _ rfl

end Cursor

/-- A parser that takes back no report. Where it succeeds, `P` holds of the tokens passed and
what is read, between the kinds of the tokens at which it starts and stops. -/
structure Parse.Spells {α : Type} (p : Parse Cursor α)
    (P : Token.Kind → List Token → α → Token.Kind → Prop) : Prop where
  ok : ∀ {c a d}, p c = .ok a d → c.reported <+: d.reported ∧
    (c.Closed → ∃ ts, c.Reaches ts d ∧ P c.kind ts a d.kind)
  error : ∀ {c e d}, p c = .error e d → c.reported <+: d.reported

namespace Parse.Spells

open Cursor

variable {α β : Type} {p : Parse Cursor α} {f : α → Parse Cursor β}
  {P : Token.Kind → List Token → α → Token.Kind → Prop}
  {R : Token.Kind → List Token → β → Token.Kind → Prop}

theorem mono {P' : Token.Kind → List Token → α → Token.Kind → Prop} (h : p.Spells P)
    (hp : ∀ k ts a k', P k ts a k' → P' k ts a k') : p.Spells P' where
  ok hok := (h.ok hok).imp_right fun hq hc => (hq hc).imp fun _ hts => hts.imp_right (hp _ _ _ _)
  error := h.error

theorem pure {a : α} (h : ∀ k, P k [] a k) : Spells (Pure.pure a : Parse Cursor α) P where
  ok {c _ _} hok := by
    cases hok
    exact ⟨List.prefix_rfl, fun _ => ⟨[], .refl c, h _⟩⟩
  error := nofun

theorem fail {d : Diagnostic} : Spells (Parse.fail d : Parse Cursor α) P where
  ok := nofun
  error herr := by
    cases herr
    exact List.prefix_rfl

theorem refuse {message : String} : Spells (Cursor.refuse message : Parse Cursor α) P where
  ok := nofun
  error herr := by
    cases herr
    exact List.prefix_rfl

theorem exhausted : Spells (Parse.exhausted : Parse Cursor α) P := ⟨nofun, nofun⟩

theorem bind (h : p.Spells P)
    (hf : ∀ a, (f a).Spells fun k' us b k'' => ∀ k ts, P k ts a k' → R k (ts ++ us) b k'') :
    (p >>= f).Spells R where
  ok {c b e} hok := by
    obtain ⟨a, d, hp, hb⟩ := bind_eq_ok.1 hok
    obtain ⟨hcd, hP⟩ := h.ok hp
    obtain ⟨hde, hR⟩ := (hf a).ok hb
    refine ⟨hcd.trans hde, fun hc => ?_⟩
    obtain ⟨ts, hts, hPts⟩ := hP hc
    obtain ⟨us, hus, hRus⟩ := hR (hts.closed hc)
    exact ⟨ts ++ us, hts.trans hus, hRus _ _ hPts⟩
  error {c e d} herr := by
    rw [bind_apply] at herr
    cases hp : p c with
    | ok a t =>
      rw [hp] at herr
      exact (h.ok hp).1.trans ((hf a).error herr)
    | error e' t =>
      rw [hp] at herr
      cases herr
      exact h.error hp
    | exhausted =>
      rw [hp] at herr
      cases herr

theorem look {f : Token.Kind → Parse Cursor β}
    (h : ∀ k, (f k).Spells fun k' ts b k'' => k' = k → R k ts b k'') :
    (currentKind >>= f).Spells R where
  ok hok := ((h _).ok hok).imp_right fun hR hc => by
    obtain ⟨ts, hts, hRts⟩ := hR hc
    exact ⟨ts, hts, hRts rfl⟩
  error herr := (h _).error herr

theorem advance : Cursor.advance.Spells fun k ts t _ => k ≠ .eof → ts = [t] ∧ t.kind = k where
  ok {c _ _} hok := by
    cases hok
    refine ⟨by simp [reported_next], fun hc => ?_⟩
    by_cases hk : c.kind = .eof
    · cases hahead : c.ahead with
      | nil =>
        refine ⟨[], ?_, fun h => absurd hk h⟩
        rw [next, hahead]
        exact .refl c
      | cons t ts =>
        refine ⟨[c.current], ?_, fun h => absurd hk h⟩
        simp only [next, hahead]
        exact ⟨rfl, by simp [upcoming, hahead]⟩
    · exact ⟨_, reaches_next hc hk, fun _ => ⟨rfl, rfl⟩⟩
  error := nofun

theorem next {f : Token → Parse Cursor β} (heof : ∀ ts b k', R .eof ts b k')
    (h : ∀ t, (f t).Spells fun _ us b k' => R t.kind (t :: us) b k') :
    (Cursor.advance >>= f).Spells R := by
  refine advance.bind fun t => (h t).mono fun _ us b k' hR k ts hts => ?_
  by_cases hk : k = .eof
  · exact hk ▸ heof _ _ _
  · obtain ⟨rfl, rfl⟩ := hts hk
    exact hR

theorem expectOr {kind : Token.Kind} (hk : kind ≠ .eof) (d : Diagnostic) :
    (Cursor.expectOr kind d).Spells fun k ts t _ => k = kind ∧ ts = [t] ∧ t.kind = kind where
  ok {c _ _} hok := by
    rw [Cursor.expectOr] at hok
    split at hok
    · rename_i hkind
      obtain ⟨hrep, hP⟩ := advance.ok hok
      refine ⟨hrep, fun hc => ?_⟩
      obtain ⟨ts, hts, hPts⟩ := hP hc
      obtain ⟨rfl, ht⟩ := hPts (hkind ▸ hk)
      exact ⟨_, hts, hkind, rfl, ht.trans hkind⟩
    · cases hok
  error herr := by
    rw [Cursor.expectOr] at herr
    split at herr
    · cases herr
    · cases herr
      exact List.prefix_rfl

theorem expect {kind : Token.Kind} (hk : kind ≠ .eof) :
    (Cursor.expect kind).Spells fun k ts t _ => k = kind ∧ ts = [t] ∧ t.kind = kind where
  ok hok := (expectOr hk _).ok hok
  error herr := (expectOr hk _).error herr

theorem demand {kind : Token.Kind} (hk : kind ≠ .eof) (message : String) :
    (Cursor.demand kind message).Spells fun k ts t _ => k = kind ∧ ts = [t] ∧ t.kind = kind where
  ok hok := (expectOr hk _).ok hok
  error herr := (expectOr hk _).error herr

theorem token {kind : Token.Kind} {q : Parse Cursor Token} {f : Token → Parse Cursor β}
    (hq : q.Spells fun k ts t _ => k = kind ∧ ts = [t] ∧ t.kind = kind)
    (h : ∀ t, (f t).Spells fun _ us b k'' => t.kind = kind → R kind (t :: us) b k'') :
    (q >>= f).Spells R := by
  refine hq.bind fun t => (h t).mono fun k' us b k'' hR k ts hts => ?_
  obtain ⟨rfl, rfl, ht⟩ := hts
  exact hR ht

end Parse.Spells

def Parse.Stays {α : Type} (p : Parse Cursor α) : Prop :=
  ∀ c, ∃ a ds, p c = .ok a { c with reported := c.reported ++ ds }

namespace Parse.Stays

variable {α β : Type} {p : Parse Cursor α} {f : α → Parse Cursor β}

theorem pure (a : α) : Stays (Pure.pure a : Parse Cursor α) := fun c => ⟨a, [], by simp⟩

theorem reporting (d : Diagnostic) : Stays (Cursor.reporting d) := fun _ => ⟨(), [d], rfl⟩

theorem spanSince (start : Position) : Stays (Cursor.spanSince start) :=
  fun c => ⟨c.since start, [], by simp⟩

theorem bind (h : p.Stays) (hf : ∀ a, (f a).Stays) : (p >>= f).Stays := fun c => by
  obtain ⟨a, ds, hp⟩ := h c
  obtain ⟨b, ds', hb⟩ := hf a { c with reported := c.reported ++ ds }
  exact ⟨b, ds ++ ds', by rw [bind_apply, hp, ← List.append_assoc]; exact hb⟩

theorem spells (h : p.Stays) : p.Spells fun k ts _ k' => ts = [] ∧ k' = k where
  ok {c _ _} hok := by
    obtain ⟨a, ds, hp⟩ := h c
    rw [hp] at hok
    cases hok
    exact ⟨List.prefix_append _ _, fun _ => ⟨[], ⟨rfl, rfl⟩, rfl, rfl⟩⟩
  error {c _ _} herr := by
    obtain ⟨a, ds, hp⟩ := h c
    rw [hp] at herr
    cases herr

theorem andThen (h : p.Stays) {R : Token.Kind → List Token → β → Token.Kind → Prop}
    (hf : ∀ a, (f a).Spells R) : (p >>= f).Spells R := by
  refine h.spells.bind fun a => (hf a).mono fun k' us b k'' hR k ts hts => ?_
  obtain ⟨rfl, rfl⟩ := hts
  exact hR

end Parse.Stays

namespace Expr

open Parse

theorem mistyped_stays (fault : Fault) (span : Span) : (mistyped fault span).Stays :=
  (Stays.reporting _).bind fun _ => .pure _

theorem typeOfName_stays (Γ : Context) (x : String) (span : Span) :
    (typeOfName Γ x span).Stays := by
  rw [typeOfName]
  split
  · exact .pure _
  · exact mistyped_stays _ _

theorem typeUnary_stays (op : UnaryOp) (e : Expr) (span : Span) : (typeUnary op e span).Stays := by
  cases op with
  | not => exact .pure _
  | negate =>
    rw [typeUnary]
    split
    · exact .pure _
    · exact mistyped_stays _ _

theorem typeBinary_stays (op : BinaryOp) (l r : Expr) (span : Span) :
    (typeBinary op l r span).Stays := by
  rw [typeBinary]
  split
  · exact .pure _
  · exact mistyped_stays _ _

theorem typeAssign_stays (target value : Expr) : (typeAssign target value).Stays := by
  rw [typeAssign]
  split
  · exact .pure _
  · exact mistyped_stays _ _

theorem typeStep_stays (target : Expr) (span : Span) : (typeStep target span).Stays := by
  rw [typeStep]
  split
  · exact .pure _
  · exact mistyped_stays _ _

theorem reportAll_stays (ds : List Diagnostic) : (reportAll ds).Stays := by
  induction ds with
  | nil => exact .pure _
  | cons d ds ih => exact (Stays.reporting d).bind fun _ => ih

theorem typeCall_stays (f : Expr) (args : List Expr) (span : Span) :
    (typeCall f args span).Stays := by
  rw [typeCall]
  split
  · exact (reportAll_stays _).bind fun _ => .pure _
  · split
    · exact .pure _
    · exact mistyped_stays _ _

theorem typeMember_stays (Γ : Context) (e : Expr) (m : String) (span : Span) :
    (typeMember Γ e m span).Stays := by
  rw [typeMember]
  split
  · exact .pure _
  · split
    · exact .pure _
    · exact mistyped_stays _ _

end Expr

end TypedScript
