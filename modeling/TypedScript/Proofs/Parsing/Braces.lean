import Mathlib.Data.List.Infix
import TypedScript.Proofs.Grammar.Expr

namespace TypedScript

def Token.Kind.weight : Token.Kind → Int
  | .openCurly => 1
  | .closeCurly => -1
  | _ => 0

theorem Token.Kind.weight_eq_zero {k : Token.Kind} (ho : k ≠ .openCurly) (hc : k ≠ .closeCurly) :
    k.weight = 0 := by
  rw [weight]
  · exact ho
  · exact hc

namespace Token

/-- How many more braces the tokens open than they close. -/
def surplus : List Token → Int
  | [] => 0
  | t :: ts => t.kind.weight + surplus ts

@[simp] theorem surplus_nil : surplus [] = 0 := rfl

@[simp] theorem surplus_cons (t : Token) (ts : List Token) :
    surplus (t :: ts) = t.kind.weight + surplus ts := rfl

@[simp] theorem surplus_append (ts us : List Token) :
    surplus (ts ++ us) = surplus ts + surplus us := by
  induction ts with
  | nil => simp
  | cons t ts ih => simp [ih, Int.add_assoc]

def Sheltered (ts : List Token) : Prop := ∀ us, us <+: ts → 0 ≤ surplus us

instance (ts : List Token) : Decidable (Sheltered ts) :=
  decidable_of_iff (∀ us ∈ ts.inits, 0 ≤ surplus us) (by simp [Sheltered])

def Balanced (ts : List Token) : Prop := Sheltered ts ∧ surplus ts = 0

instance (ts : List Token) : Decidable (Balanced ts) :=
  inferInstanceAs (Decidable (Sheltered ts ∧ surplus ts = 0))

def Plain (ts : List Token) : Prop := ∀ t ∈ ts, t.kind.weight = 0

theorem Plain.append {ts us : List Token} (hts : Plain ts) (hus : Plain us) : Plain (ts ++ us) := by
  intro t ht
  rw [List.mem_append] at ht
  exact ht.elim (hts t) (hus t)

theorem Plain.surplus {ts : List Token} (h : Plain ts) : surplus ts = 0 := by
  induction ts with
  | nil => rfl
  | cons t ts ih =>
    rw [Plain, List.forall_mem_cons] at h
    simp [h.1, ih h.2]

theorem Plain.balanced {ts : List Token} (h : Plain ts) : Balanced ts := by
  refine ⟨fun us hus => ?_, h.surplus⟩
  have hus : Plain us := fun t ht => h t (hus.subset ht)
  simp [hus.surplus]

namespace Sheltered

variable {ts us : List Token}

theorem nil : Sheltered [] := by
  intro us hus
  simp [List.prefix_nil.1 hus]

theorem surplus_nonneg (h : Sheltered ts) : 0 ≤ surplus ts := h ts List.prefix_rfl

theorem append (hts : Sheltered ts) (hus : Sheltered us) : Sheltered (ts ++ us) := by
  intro vs hvs
  obtain h | ⟨ws, rfl⟩ := List.prefix_or_prefix_of_prefix hvs (List.prefix_append ts us)
  · exact hts vs h
  · have h := hus ws ((List.prefix_append_right_inj ts).1 hvs)
    have := hts.surplus_nonneg
    simp only [surplus_append]
    omega

theorem of_open {o : Token} (ho : o.kind = .openCurly) : Sheltered [o] := by
  intro us hus
  cases us with
  | nil => simp
  | cons t us =>
    obtain ⟨rfl, hrest⟩ := List.cons_prefix_cons.1 hus
    simp [List.prefix_nil.1 hrest, ho, Kind.weight]

theorem prefix_of_close {vs rest : List Token} {z : Token} (hvs : Balanced vs)
    (hz : z.kind = .closeCurly) (h : Sheltered ts) (hts : ts <+: vs ++ z :: rest) : ts <+: vs := by
  have hclose : vs ++ [z] <+: vs ++ z :: rest := by simp [List.prefix_append_right_inj]
  obtain hle | hle := List.prefix_or_prefix_of_prefix hts hclose
  · obtain rfl | hle := List.prefix_concat_iff.1 hle
    · have := h.surplus_nonneg
      simp [hvs.2, hz, Kind.weight] at this
    · exact hle
  · have := h _ hle
    simp [hvs.2, hz, Kind.weight] at this

end Sheltered

namespace Balanced

variable {ts us : List Token}

theorem nil : Balanced [] := ⟨.nil, rfl⟩

theorem append (hts : Balanced ts) (hus : Balanced us) : Balanced (ts ++ us) :=
  ⟨hts.1.append hus.1, by simp [hts.2, hus.2]⟩

theorem braces {o z : Token} (ho : o.kind = .openCurly) (h : Balanced ts)
    (hz : z.kind = .closeCurly) : Balanced (o :: ts ++ [z]) := by
  constructor
  · intro us hus
    obtain rfl | hus := List.prefix_concat_iff.1 hus
    · simp [ho, hz, h.2, Kind.weight]
    · exact (Sheltered.of_open ho).append h.1 us hus
  · simp [ho, hz, h.2, Kind.weight]

theorem eq_of_close {vs rest : List Token} {y z : Token} (hts : Balanced ts)
    (hy : y.kind = .closeCurly) (hvs : Balanced vs) (hz : z.kind = .closeCurly)
    (h : ts ++ [y] <+: vs ++ z :: rest) : ts = vs := by
  obtain ⟨us, hus⟩ := h
  rw [List.append_assoc, List.singleton_append] at hus
  have hle : ts <+: vs := hts.1.prefix_of_close hvs hz ⟨_, hus⟩
  have hge : vs <+: ts := hvs.1.prefix_of_close hts hy ⟨_, hus.symm⟩
  exact hle.eq_of_length (Nat.le_antisymm hle.length_le hge.length_le)

end Balanced

theorem close_prefix {ts vs rest : List Token} {z : Token} (hvs : Sheltered vs)
    (h : surplus ts < 0) (hts : ts <+: vs ++ z :: rest) : vs ++ [z] <+: ts := by
  have hclose : vs ++ [z] <+: vs ++ z :: rest := by simp [List.prefix_append_right_inj]
  obtain hle | hle := List.prefix_or_prefix_of_prefix hts hclose
  · obtain rfl | hle := List.prefix_concat_iff.1 hle
    · exact List.prefix_rfl
    · have := hvs ts hle
      omega
  · exact hle

end Token

namespace Grammar

open Token

inductive Head : List Token → Prop
  | cond {k : Token} {es : List Token} {e : Tree} (hk : k.kind = .kwIf)
      (he : Derives .assignment es e) : Head (k :: es)
  | orElse {k : Token} (hk : k.kind = .kwElse) : Head [k]
  | loop {k : Token} {es : List Token} {e : Tree} (hk : k.kind = .kwWhile)
      (he : Derives .assignment es e) : Head (k :: es)

def LacksBranch (ts : List Token) : Prop :=
  ∃ hs z, Head hs ∧ z.kind = .closeCurly ∧ hs ++ [z] <:+: ts

/-- A closing brace stands where a branch or a body should, behind tokens that close no brace
which they have not opened. -/
def Strays (ts : List Token) : Prop :=
  ∃ us hs z, Head hs ∧ z.kind = .closeCurly ∧ Sheltered (us ++ hs) ∧ us ++ hs ++ [z] <+: ts

namespace Strays

variable {ts us : List Token}

theorem append (h : Strays ts) (us : List Token) : Strays (ts ++ us) := by
  obtain ⟨vs, hs, z, hhead, hz, hsh, hle⟩ := h
  exact ⟨vs, hs, z, hhead, hz, hsh, hle.trans (List.prefix_append ts us)⟩

theorem behind (hts : Sheltered ts) (h : Strays us) : Strays (ts ++ us) := by
  obtain ⟨vs, hs, z, hhead, hz, hsh, hle⟩ := h
  refine ⟨ts ++ vs, hs, z, hhead, hz, ?_, ?_⟩
  · simpa using hts.append hsh
  · simpa [List.prefix_append_right_inj] using hle

theorem of_head {hs : List Token} {z : Token} (hhead : Head hs) (hplain : Plain hs)
    (hz : z.kind = .closeCurly) : Strays (hs ++ [z]) :=
  ⟨[], hs, z, hhead, hz, hplain.balanced.1, List.prefix_rfl⟩

theorem lacksBranch {vs rest : List Token} {z : Token} (h : Strays ts) (hvs : Balanced vs)
    (hz : z.kind = .closeCurly) (hts : ts <+: vs ++ z :: rest) : LacksBranch (vs ++ [z]) := by
  obtain ⟨us, hs, y, hhead, hy, hsh, hle⟩ := h
  have hle := hle.trans hts
  have hin : us ++ hs <+: vs :=
    hsh.prefix_of_close hvs hz ((List.prefix_append _ _).trans hle)
  have hclose : vs ++ [z] <+: vs ++ z :: rest := by simp [List.prefix_append_right_inj]
  have hshort : us ++ hs ++ [y] <+: vs ++ [z] :=
    List.prefix_of_prefix_length_le hle hclose (by simpa [← Nat.add_assoc] using hin.length_le)
  refine ⟨hs, y, hhead, hy, ?_⟩
  rw [List.append_assoc] at hshort
  exact (List.suffix_append us _).isInfix.trans hshort.isInfix

end Strays

/-- What reading statements may leave of the braces it passes, where it stops before a token of
the kind `next`. Braces stay open only at the end of the tokens, and braces around the statements
are closed only where a branch is missing. -/
inductive Orderly (ts : List Token) (next : Token.Kind) : Prop
  | whole (h : Balanced ts)
  | cut (h : Sheltered ts) (hnext : next = .eof)
  | astray (h : Strays ts) (hclose : surplus ts < 0 ∨ next = .eof)

namespace Orderly

variable {ts us : List Token} {x y : Token.Kind}

theorem append (h : Orderly ts x) (h' : Orderly us y) (heof : x = .eof → us = [] ∧ y = .eof) :
    Orderly (ts ++ us) y := by
  cases h with
  | whole h =>
    cases h' with
    | whole h' => exact .whole (h.append h')
    | cut h' hy => exact .cut (h.1.append h') hy
    | astray h' hclose => exact .astray (h'.behind h.1) (by simpa [h.2] using hclose)
  | cut h hx =>
    obtain ⟨rfl, hy⟩ := heof hx
    exact .cut (by simpa using h) hy
  | astray h hclose =>
    refine .astray (h.append us) ?_
    obtain hclose | hx := hclose
    · rw [surplus_append]
      cases h' with
      | whole h' => exact .inl (by rw [h'.2]; omega)
      | cut _ hy => exact .inr hy
      | astray _ hclose' => exact hclose'.imp_left fun _ => by omega
    · exact .inr (heof hx).2

theorem behind (hts : Plain ts) (h : Orderly us y) : Orderly (ts ++ us) y :=
  append (x := .semicolon) (.whole hts.balanced) h nofun

theorem braces {o z : Token} (ho : o.kind = .openCurly) (h : Orderly ts .closeCurly)
    (hz : z.kind = .closeCurly) : Orderly (o :: ts ++ [z]) y := by
  cases h with
  | whole h => exact .whole (h.braces ho hz)
  | cut _ hy => cases hy
  | astray h hclose =>
    refine .astray ((h.behind (.of_open ho)).append [z]) (.inl ?_)
    have hclose : surplus ts < 0 := hclose.resolve_right nofun
    simp only [List.cons_append, surplus_cons, surplus_append, ho, hz, Kind.weight, surplus_nil]
    omega

theorem opened {o : Token} (ho : o.kind = .openCurly) (h : Orderly ts .eof) :
    Orderly (o :: ts) .eof := by
  cases h with
  | whole h => exact .cut ((Sheltered.of_open ho).append h.1) rfl
  | cut h _ => exact .cut ((Sheltered.of_open ho).append h) rfl
  | astray h _ => exact .astray (h.behind (.of_open ho)) (.inr rfl)

end Orderly

/-- What reading one statement passes, from before a token of the kind `x` to before one of the
kind `y`. A closing brace that begins no statement is passed alone. -/
inductive Consumes (x : Token.Kind) (ts : List Token) (y : Token.Kind) : Prop
  | orderly (hx : x ≠ .closeCurly) (h : Orderly ts y)
  | stray {z : Token} (hx : x = .closeCurly) (hz : z.kind = .closeCurly) (hts : ts = [z])

theorem Consumes.behind_head {x y : Token.Kind} {hs ts : List Token} (h : Consumes x ts y)
    (hhead : Head hs) (hplain : Plain hs) : Orderly (hs ++ ts) y := by
  cases h with
  | orderly _ h => exact h.behind hplain
  | stray _ hz hts =>
    subst hts
    exact .astray (.of_head hhead hplain hz) (.inl (by simp [hplain.surplus, hz, Kind.weight]))

def Closes (x : Token.Kind) (ts : List Token) : Prop :=
  x ≠ .eof ∧ ∃ us z, z.kind = .closeCurly ∧ Orderly us .closeCurly ∧ ts = us ++ [z]

def RunsOut (x : Token.Kind) (ts : List Token) (y : Token.Kind) : Prop :=
  (x = .eof → ts = []) ∧ y = .eof ∧ Orderly ts .eof

def Enclosed (ts : List Token) : Prop :=
  ∃ o us z, o.kind = .openCurly ∧ z.kind = .closeCurly ∧ Orderly us .closeCurly ∧
    ts = o :: us ++ [z]

def Unclosed (x : Token.Kind) (ts : List Token) (y : Token.Kind) : Prop :=
  (x ≠ .openCurly ∧ ts = []) ∨
    ∃ o us, o.kind = .openCurly ∧ y = .eof ∧ Orderly us .eof ∧ ts = o :: us

theorem Enclosed.ne_nil {ts : List Token} (h : Enclosed ts) : ts ≠ [] := by
  obtain ⟨o, us, z, -, -, -, rfl⟩ := h
  simp

theorem Enclosed.orderly {ts : List Token} (h : Enclosed ts) {y : Token.Kind} : Orderly ts y := by
  obtain ⟨o, us, z, ho, hz, h, rfl⟩ := h
  exact h.braces ho hz

theorem Unclosed.orderly {x y : Token.Kind} {ts : List Token} (h : Unclosed x ts y) :
    Orderly ts y := by
  obtain ⟨-, rfl⟩ | ⟨o, us, ho, rfl, h, rfl⟩ := h
  · exact .whole .nil
  · exact h.opened ho

end Grammar

end TypedScript
