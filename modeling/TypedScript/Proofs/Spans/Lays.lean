import TypedScript.Proofs.Layout.Mimics
import TypedScript.Proofs.Parsing.Passage
import TypedScript.Proofs.Spans.Phrase

namespace TypedScript

open Cursor
open Located (cursor)

/-- Where `p` succeeds, from a token as `K` says, it has passed tokens `ts`, and `P past ts a` holds
of what it gives. Of the tokens passed before, the latest is the first. -/
structure Parse.Lays {σ α : Type} [Located σ] (p : Parse σ α) (K : Token.Kind → Prop)
    (P : List Token → List Token → α → Prop) : Prop where
  ok : ∀ {s a t}, p s = .ok a t → (cursor s).Closed → K (cursor s).kind →
    ∃ ts, (cursor s).Reaches ts (cursor t) ∧ P (cursor s).passed ts a

namespace Parse.Lays

variable {σ α β : Type} [Located σ] {p : Parse σ α} {f : α → Parse σ β} {K : Token.Kind → Prop}
  {P Q : List Token → List Token → α → Prop} {R : List Token → List Token → β → Prop}

theorem mono (h : p.Lays K Q) (hP : ∀ past ts a, Q past ts a → P past ts a) : p.Lays K P where
  ok hp hc hk := (h.ok hp hc hk).imp fun _ hts => hts.imp_right (hP _ _ _)

theorem anywhere (h : p.Lays (fun _ => True) P) : p.Lays K P where
  ok hp hc _ := h.ok hp hc trivial

theorem within {K' : Token.Kind → Prop} (h : p.Lays K' P) (hK : ∀ k, K k → K' k) : p.Lays K P where
  ok hp hc hk := h.ok hp hc (hK _ hk)

theorem pure {a : α} (h : ∀ past, P past [] a) : Lays (Pure.pure a : Parse σ α) K P where
  ok hp _ _ := by
    cases hp
    exact ⟨[], .refl _, h _⟩

theorem exhausted : Lays (Parse.exhausted : Parse σ α) K P := ⟨fun hp => by cases hp⟩

theorem error {d : σ → Diagnostic} : Lays (fun s => .error (d s) s : Parse σ α) K P :=
  ⟨fun hp => by cases hp⟩

theorem fail (d : Diagnostic) : Lays (Parse.fail d : Parse σ α) K P := error

theorem refuse (message : String) :
    Lays (Cursor.refuse message : Parse Cursor α) K P := error

theorem bind (h : p.Lays K Q) (hf : ∀ a, (f a).Lays (fun _ => True) fun past' us b =>
      ∀ past ts, past' = ts.reverse ++ past → Q past ts a → R past (ts ++ us) b) :
    (p >>= f).Lays K R where
  ok hpf hc hk := by
    obtain ⟨a, t, hp, hq⟩ := bind_eq_ok.1 hpf
    obtain ⟨ts, hts, hQ⟩ := h.ok hp hc hk
    obtain ⟨us, hus, hR⟩ := (hf a).ok hq (hts.closed hc) trivial
    exact ⟨ts ++ us, hts.trans hus, hR _ ts hts.passed hQ⟩

theorem map {g : α → β} (h : p.Lays K fun past ts a => R past ts (g a)) : (g <$> p).Lays K R := by
  refine bind (f := fun a => Pure.pure (g a)) h fun a => .pure ?_
  rintro _ past ts rfl hR
  rwa [List.append_nil]

theorem still (h : p.Lays K fun _ ts _ => ts = []) (hf : ∀ a, (f a).Lays (fun _ => True) R) :
    (p >>= f).Lays K R := by
  refine h.bind fun a => (hf a).mono ?_
  rintro _ us b hR past _ rfl rfl
  exact hR

theorem one {p : Parse σ Token} {f : Token → Parse σ β} (h : p.Lays K fun _ ts t => ts = [t])
    (hf : ∀ t, (f t).Lays (fun _ => True) fun past' us b =>
      ∀ past, past' = t :: past → R past (t :: us) b) : (p >>= f).Lays K R := by
  refine h.bind fun t => (hf t).mono ?_
  rintro _ us b hR past _ rfl rfl
  exact hR past rfl

theorem look {p : Parse σ Token.Kind} {f : Token.Kind → Parse σ β}
    (hp : ∀ s, p s = .ok (cursor s).kind s) (hf : ∀ k, K k → (f k).Lays (· = k) R) :
    (p >>= f).Lays K R where
  ok {s b t} hpf hc hk := by
    rw [bind_apply, hp] at hpf
    exact (hf _ hk).ok hpf hc rfl

theorem spanSince {p : Parse σ Span} {f : Span → Parse σ β} {start : Position}
    (hp : ∀ s, p s = .ok ((cursor s).since start) s)
    (hf : ∀ stop, (f ⟨start, stop⟩).Lays (fun _ => True) fun past us b =>
      (∀ t ts older, past = (t :: ts).reverse ++ older → Token.StopsAt (t :: ts) stop) →
        R past us b) :
    (p >>= f).Lays K R where
  ok {s b t} hpf hc _ := by
    rw [bind_apply, hp] at hpf
    obtain ⟨us, hus, hR⟩ := (hf _).ok hpf hc trivial
    refine ⟨us, hus, hR fun t ts older hpast => ?_⟩
    obtain ⟨vs, u, hts⟩ := (List.eq_nil_or_concat' (t :: ts)).resolve_left (List.cons_ne_nil t ts)
    rw [hts] at hpast ⊢
    have hpast : (cursor s).passed = u :: (vs.reverse ++ older) := hpast.trans (by simp)
    rw [passedEnd, hpast]
    exact Token.stopsAt_concat vs u

section Cursor

variable {q : Parse Cursor α}

theorem advance (hK : ∀ k, K k → k ≠ .eof) : Cursor.advance.Lays K fun _ ts t => ts = [t] where
  ok hp hc hk := by
    cases hp
    exact ⟨_, reaches_next hc (hK _ hk), rfl⟩

theorem expectOr {kind : Token.Kind} (hkind : kind ≠ .eof) (d : Cursor → Diagnostic) :
    Lays (fun c => Cursor.expectOr kind (d c) c) K fun _ ts t => ts = [t] where
  ok {c t e} hp hc _ := by
    simp only [Cursor.expectOr] at hp
    split at hp
    · rename_i hk
      exact (advance (K := (· = kind)) fun _ h => h ▸ hkind).ok hp hc hk
    · cases hp

theorem expect {kind : Token.Kind} (hkind : kind ≠ .eof) :
    (Cursor.expect kind).Lays K fun _ ts t => ts = [t] := expectOr hkind _

theorem demand {kind : Token.Kind} (hkind : kind ≠ .eof) (message : String) :
    (Cursor.demand kind message).Lays K fun _ ts t => ts = [t] := expectOr hkind _

theorem stays (h : q.Stays) : q.Lays K fun _ ts _ => ts = [] where
  ok {c a d} hp _ _ := by
    obtain ⟨b, ds, hq⟩ := h c
    rw [hq] at hp
    cases hp
    exact ⟨[], ⟨rfl, rfl⟩, rfl⟩

theorem treads {n k i : Nat} (h : q.Treads K n k i) : q.Lays K fun _ _ _ => True where
  ok hp hc hk := (h.ok hc hk hp).imp fun _ hts => ⟨hts.1, trivial⟩

end Cursor

section Reader

variable {p : Parse Reader α}

theorem reading {q : Context → Parse Cursor α} (h : ∀ Γ, (q Γ).Lays K P) :
    (Reader.reading q).Lays K P where
  ok {r a s} hp hc hk := by
    rw [Reader.reading] at hp
    split at hp
    · rename_i hq
      cases hp
      exact (h _).ok hq hc hk
    · cases hp
    · cases hp

theorem onCursor {q : Parse Cursor α} (h : q.Lays K P) : (Reader.onCursor q).Lays K P :=
  reading fun _ => h

theorem inScope (enter : Context → Context) (h : p.Lays K P) :
    (Reader.inScope enter p).Lays K P where
  ok {r a s} hp hc hk := by
    rw [Reader.inScope] at hp
    split at hp
    · rename_i hp'
      cases hp
      exact (h.ok hp' hc hk :)
    · cases hp
    · cases hp

theorem idles (h : ∀ r, p.Idles r) : p.Lays K fun _ ts _ => ts = [] where
  ok {r a s} hp _ _ := by
    obtain ⟨b, t, hq, ht⟩ := h r
    rw [hq] at hp
    cases hp
    exact ⟨[], ht.tokens, rfl⟩

theorem recovering {p : Parse Reader (Option Stmt)}
    {P : List Token → List Token → Option Stmt → Prop} (h : p.Lays K P)
    (hnone : ∀ past ts, P past ts none)
    (hgoes : ∀ r a s, r.cursor.Closed → Stmt.recovering p r = .ok a s →
      ∃ ts, r.cursor.Reaches ts s.cursor) : (Stmt.recovering p).Lays K P where
  ok {r a s} hp hc hk := by
    obtain ⟨ts, hts⟩ := hgoes r a s hc hp
    rw [Stmt.recovering] at hp
    split at hp
    · cases hp
      exact ⟨ts, hts, hnone _ _⟩
    · exact h.ok hp hc hk

end Reader

end Parse.Lays

end TypedScript
