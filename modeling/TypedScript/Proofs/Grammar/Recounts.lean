import TypedScript.Proofs.Grammar.ExprSoundness
import TypedScript.Proofs.Grammar.Stmt
import TypedScript.Proofs.Static.ReadStmt

namespace TypedScript

namespace Context

def Within (T : String → Option Ty) (Γ : Context) : Prop :=
  ∀ x t, Γ.types.get? x = some t → T x = some t

theorem within_leave {T : String → Option Ty} {Γ : Context} : Γ.leave.Within T ↔ Γ.Within T := by
  rw [leave]
  split <;> rfl

theorem Within.of_bind {T : String → Option Ty} {Γ Δ : Context} {name : String} {ty : Ty}
    {place : Position} (h : Γ.bind name ty place = .ok Δ) (hΔ : Δ.Within T) : Γ.Within T := by
  rw [bind] at h
  split at h <;> cases h
  exact hΔ

theorem Within.of_declare {T : String → Option Ty} {Γ Δ : Context} {receiver : Option Ty}
    {name : Token} {ty : Ty} (h : Stmt.declare receiver name ty Γ = .ok Δ) (hΔ : Δ.Within T) :
    Γ.Within T := by
  cases receiver with
  | none => exact .of_bind h hΔ
  | some r =>
    rw [Stmt.declare, bindMember] at h
    split at h <;> cases h
    exact hΔ

theorem Within.of_declareType {T : String → Option Ty} {Γ Δ : Context} {name : String}
    {place : Position} (h : (Γ.declareType name place).map Prod.snd = .ok Δ) (hΔ : Δ.Within T) :
    Γ.Within T := by
  rw [declareType] at h
  split at h <;> cases h
  rename_i hnew
  intro x t hx
  refine hΔ x t ?_
  rw [Dict.get?_insert, if_neg, hx]
  rintro rfl
  exact hnew (by rw [Dict.contains, hx]; rfl)

end Context

theorem Reader.reading_bind {α β : Type} (p : Context → Parse Cursor α)
    (f : Context → α → Parse Cursor β) :
    (reading fun Γ => p Γ >>= f Γ) = reading p >>= fun a => reading fun Γ => f Γ a := by
  funext r
  simp only [reading, Parse.bind_apply]
  cases p r.context r.cursor <;> rfl

/-- A parser of statements that takes back no report. Where it succeeds and reports nothing, `P`
holds of the tokens passed and what is read, as for a parser on a cursor. It forgets no name for
a type, so the names are known as `T` has them if they are so in the end. -/
structure Parse.Recounts {α : Type} (T : String → Option Ty) (p : Parse Reader α)
    (P : Token.Kind → List Token → α → Token.Kind → Prop) : Prop where
  ok : ∀ {r a s}, p r = .ok a s → r.cursor.reported <+: s.cursor.reported ∧
    (s.cursor.reported = r.cursor.reported → s.context.Within T → r.context.Within T ∧
      (r.cursor.Closed → ∃ ts, r.cursor.Reaches ts s.cursor ∧ P r.cursor.kind ts a s.cursor.kind))
  error : ∀ {r e s}, p r = .error e s → r.cursor.reported <+: s.cursor.reported

namespace Parse.Recounts

open Reader

variable {α β : Type} {T : String → Option Ty} {p : Parse Reader α} {f : α → Parse Reader β}
  {P : Token.Kind → List Token → α → Token.Kind → Prop}
  {R : Token.Kind → List Token → β → Token.Kind → Prop}

theorem mono {P' : Token.Kind → List Token → α → Token.Kind → Prop} (h : p.Recounts T P)
    (hP : ∀ k ts a k', P k ts a k' → P' k ts a k') : p.Recounts T P' where
  ok hok := by
    obtain ⟨hrep, hq⟩ := h.ok hok
    refine ⟨hrep, fun hquiet hT => (hq hquiet hT).imp_right fun hts hc => ?_⟩
    exact (hts hc).imp fun _ => And.imp_right (hP _ _ _ _)
  error := h.error

theorem pure {a : α} (h : ∀ k, P k [] a k) : Recounts T (Pure.pure a : Parse Reader α) P where
  ok {r _ _} hok := by
    cases hok
    exact ⟨List.prefix_rfl, fun _ hT => ⟨hT, fun _ => ⟨[], .refl _, h _⟩⟩⟩
  error := nofun

theorem exhausted : Recounts T (Parse.exhausted : Parse Reader α) P := ⟨nofun, nofun⟩

theorem bind (h : p.Recounts T P)
    (hf : ∀ a, (f a).Recounts T fun k' us b k'' => ∀ k ts, P k ts a k' → R k (ts ++ us) b k'') :
    (p >>= f).Recounts T R where
  ok {r b u} hok := by
    obtain ⟨a, s, hp, hb⟩ := bind_eq_ok.1 hok
    obtain ⟨hrs, hP⟩ := h.ok hp
    obtain ⟨hsu, hR⟩ := (hf a).ok hb
    refine ⟨hrs.trans hsu, fun hquiet hT => ?_⟩
    -- nothing is reported on the whole way, so nothing is on either part of it
    have hs : s.cursor.reported = r.cursor.reported :=
      (hrs.eq_of_length_le (hquiet ▸ hsu.length_le)).symm
    obtain ⟨hTs, hus⟩ := hR (hquiet.trans hs.symm) hT
    obtain ⟨hTr, hts⟩ := hP hs hTs
    refine ⟨hTr, fun hc => ?_⟩
    obtain ⟨ts, hts, hPts⟩ := hts hc
    obtain ⟨us, hus, hRus⟩ := hus (hts.closed hc)
    exact ⟨ts ++ us, hts.trans hus, hRus _ _ hPts⟩
  error {r e u} herr := by
    rw [bind_apply] at herr
    cases hp : p r with
    | ok a s =>
      rw [hp] at herr
      exact (h.ok hp).1.trans ((hf a).error herr)
    | error e' s =>
      rw [hp] at herr
      cases herr
      exact h.error hp
    | exhausted =>
      rw [hp] at herr
      cases herr

theorem map {g : α → β} (h : p.Recounts T fun k ts a k' => R k ts (g a) k') :
    (g <$> p).Recounts T R :=
  h.bind (f := fun a => Pure.pure (g a)) fun _ => .pure fun _ k ts hR => by simpa using hR

theorem reading {q : Context → Parse Cursor α}
    (h : ∀ Γ, (q Γ).Spells fun k ts a k' => Γ.Within T → P k ts a k') :
    (Reader.reading q).Recounts T P where
  ok {r a s} hok := by
    rw [Reader.reading] at hok
    split at hok
    · rename_i b c hq
      cases hok
      obtain ⟨hrep, hP⟩ := (h _).ok hq
      refine ⟨hrep, fun _ hT => ⟨hT, fun hc => ?_⟩⟩
      exact (hP hc).imp fun _ => And.imp_right fun hP => hP hT
    · cases hok
    · cases hok
  error {r e s} herr := by
    rw [Reader.reading] at herr
    split at herr
    · cases herr
    · rename_i hq
      cases herr
      exact (h _).error hq
    · cases herr

theorem onCursor {q : Parse Cursor α} (h : q.Spells P) : (Reader.onCursor q).Recounts T P :=
  reading fun _ => h.mono fun _ _ _ _ hP _ => hP

theorem choose {q : Context → Parse Cursor α} (h : ∀ Γ, (Reader.onCursor (q Γ)).Recounts T P) :
    (Reader.reading q).Recounts T P :=
  ⟨fun hok => (h _).ok hok, fun herr => (h _).error herr⟩

theorem look {f : Token.Kind → Parse Reader β}
    (h : ∀ k, (f k).Recounts T fun k' ts b k'' => k' = k → R k ts b k'') :
    (Reader.onCursor Cursor.currentKind >>= f).Recounts T R where
  ok hok := ((h _).ok hok).imp_right fun hR hquiet hT => (hR hquiet hT).imp_right fun hts hc =>
    (hts hc).imp fun _ => And.imp_right fun hR => hR rfl
  error herr := (h _).error herr

theorem next {f : Token → Parse Reader β} (heof : ∀ ts b k', R .eof ts b k')
    (h : ∀ t, (f t).Recounts T fun _ us b k' => R t.kind (t :: us) b k') :
    (Reader.onCursor Cursor.advance >>= f).Recounts T R := by
  refine (onCursor Spells.advance).bind fun t => (h t).mono fun _ us b k' hR k ts hts => ?_
  by_cases hk : k = .eof
  · exact hk ▸ heof _ _ _
  · obtain ⟨rfl, rfl⟩ := hts hk
    exact hR

theorem token {kind : Token.Kind} {q : Parse Cursor Token} {f : Token → Parse Reader β}
    (hq : q.Spells fun k ts t _ => k = kind ∧ ts = [t] ∧ t.kind = kind)
    (h : ∀ t, (f t).Recounts T fun _ us b k'' => t.kind = kind → R kind (t :: us) b k'') :
    (Reader.onCursor q >>= f).Recounts T R := by
  refine (onCursor hq).bind fun t => (h t).mono fun k' us b k'' hR k ts hts => ?_
  obtain ⟨rfl, rfl, ht⟩ := hts
  exact hR ht

theorem stays {q : Parse Cursor α} (hq : q.Stays) (h : ∀ a, (f a).Recounts T R) :
    (Reader.onCursor q >>= f).Recounts T R := by
  refine (onCursor hq.spells).bind fun a => (h a).mono fun k' us b k'' hR k ts hts => ?_
  obtain ⟨rfl, rfl⟩ := hts
  exact hR

theorem inScope (enter : Context → Context) (henter : ∀ Γ, (enter Γ).types = Γ.types)
    (h : p.Recounts T P) : (Reader.inScope enter p).Recounts T P where
  ok {r a s} hok := by
    rw [Reader.inScope] at hok
    split at hok
    · rename_i b t hp
      cases hok
      obtain ⟨hrep, hP⟩ := h.ok hp
      refine ⟨hrep, fun hquiet hT => (hP hquiet (Context.within_leave.1 hT)).imp_left ?_⟩
      intro hwithin
      rwa [Context.Within, henter] at hwithin
    · cases hok
    · cases hok
  error {r e s} herr := by
    rw [Reader.inScope] at herr
    split at herr
    · cases herr
    · rename_i hp
      cases herr
      have hrep := h.error hp
      exact hrep
    · cases herr

theorem declaring {g : Context → Except Diagnostic Context}
    (hg : ∀ {Γ Δ}, g Γ = .ok Δ → Δ.Within T → Γ.Within T) :
    (Reader.declaring g).Recounts T fun k ts ok k' => ts = [] ∧ k' = k ∧ ok = true where
  ok {r a s} hok := by
    rw [Reader.declaring] at hok
    split at hok
    · rename_i Δ hΔ
      cases hok
      exact ⟨List.prefix_rfl, fun _ hT => ⟨hg hΔ hT, fun _ => ⟨[], .refl _, rfl, rfl, rfl⟩⟩⟩
    · cases hok
      refine ⟨List.prefix_append _ _, fun hquiet => ?_⟩
      exact absurd hquiet (by simp [Cursor.report])
  error {r e s} herr := by
    rw [Reader.declaring] at herr
    split at herr <;> cases herr

theorem report (d : Diagnostic) {P : Token.Kind → List Token → Unit → Token.Kind → Prop} :
    (Reader.report d).Recounts T P where
  ok {r a s} hok := by
    cases hok
    refine ⟨List.prefix_append _ _, fun hquiet => ?_⟩
    exact absurd hquiet (by simp [Cursor.report])
  error := nofun

theorem reported (d : Diagnostic) {q : Parse Cursor α} (hq : q.Stays) :
    (Reader.onCursor (Cursor.reporting d >>= fun _ => q)).Recounts T P where
  ok {r a s} hok := by
    obtain ⟨b, ds, hq⟩ := hq (r.cursor.report d)
    simp only [Reader.onCursor, Reader.reading, bind_apply, Cursor.reporting_apply, hq] at hok
    cases hok
    refine ⟨(List.prefix_append _ _).trans (List.prefix_append _ _), fun hquiet => ?_⟩
    exact absurd hquiet (by simp [Cursor.report])
  error {r e s} herr := by
    obtain ⟨b, ds, hq⟩ := hq (r.cursor.report d)
    simp only [Reader.onCursor, Reader.reading, bind_apply, Cursor.reporting_apply, hq] at herr
    cases herr

theorem recovering {p : Parse Reader (Option Stmt)}
    {P : Token.Kind → List Token → Option Stmt → Token.Kind → Prop} (h : p.Recounts T P) :
    (Stmt.recovering p).Recounts T P where
  ok {r a s} hok := by
    rw [Stmt.recovering] at hok
    split at hok
    · rename_i d t hp
      cases hok
      have hrep := h.error hp
      rw [Cursor.recover_reported]
      refine ⟨hrep.trans (List.prefix_append _ _), fun hquiet => ?_⟩
      have := congrArg List.length hquiet
      have := hrep.length_le
      simp only [List.length_append, List.length_singleton] at *
      omega
    · exact h.ok hok
  error {r e s} herr := by
    rw [Stmt.recovering] at herr
    split at herr
    · cases herr
    · rename_i hp
      exact absurd herr (hp _ _)

end Parse.Recounts

end TypedScript
