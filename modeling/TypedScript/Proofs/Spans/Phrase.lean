import Mathlib.Order.Basic
import TypedScript.Proofs.Layout.Scan
import TypedScript.Stmt.Basic

/-! Statements and expressions with the tokens on which they stand. A phrase spans its tokens from
the first to the last, and the phrases in it stand on pieces of them, one behind the other. What
the spans have to do with each other then follows from the order of the tokens. -/

namespace TypedScript

instance : PartialOrder Position where
  le p q := p.file = q.file ∧ p.offset ≤ q.offset
  lt p q := p.file = q.file ∧ p.offset < q.offset
  le_refl p := ⟨rfl, Nat.le_refl p.offset⟩
  le_trans _ _ _ h h' := ⟨h.1.trans h'.1, Nat.le_trans h.2 h'.2⟩
  lt_iff_le_not_ge p q := by
    constructor
    · rintro ⟨hfile, hlt⟩
      exact ⟨⟨hfile, Nat.le_of_lt hlt⟩, fun h => Nat.not_le_of_lt hlt h.2⟩
    · rintro ⟨⟨hfile, _⟩, hnot⟩
      exact ⟨hfile, Nat.lt_of_not_le fun hle => hnot ⟨hfile.symm, hle⟩⟩
  le_antisymm p q h h' := by
    cases p
    cases q
    exact Position.mk.injEq .. ▸ ⟨Nat.le_antisymm h.2 h'.2, h.1⟩

def Span.Contains (s t : Span) : Prop := s.start ≤ t.start ∧ t.stop ≤ s.stop

namespace Token

structure Ordered (ts : List Token) : Prop where
  order : ts.Pairwise fun t u => t.span.stop ≤ u.span.start
  solid : ∀ t ∈ ts, t.span.start < t.span.stop

theorem Laid.ordered {file : String} {stop : Nat} {ts : List Token} (h : Laid file stop ts) :
    Ordered ts where
  order := h.order.imp_of_mem fun ht hu hle => ⟨(h.file _ ht).2.trans (h.file _ hu).1.symm, hle⟩
  solid t ht := ⟨(h.file t ht).1.trans (h.file t ht).2.symm, h.solid t ht⟩

namespace Ordered

variable {ts us : List Token} {t u : Token}

theorem sublist (h : Ordered us) (hts : List.Sublist ts us) : Ordered ts :=
  ⟨h.order.sublist hts, fun t ht => h.solid t (hts.subset ht)⟩

theorem start_le (h : Ordered (t :: ts)) (hu : u ∈ t :: ts) : t.span.start ≤ u.span.start := by
  obtain rfl | hu := List.mem_cons.1 hu
  · exact le_rfl
  · have ht := h.solid t List.mem_cons_self
    exact ht.le.trans ((List.pairwise_cons.1 h.order).1 u hu)

theorem nodup_starts (h : Ordered ts) : (ts.map fun t => t.span.start).Nodup := by
  refine List.pairwise_map.2 (h.order.imp_of_mem fun ht _ hle => ?_)
  exact ((h.solid _ ht).trans_le hle).ne

theorem stop_le (h : Ordered (ts ++ [u])) (ht : t ∈ ts ++ [u]) : t.span.stop ≤ u.span.stop := by
  obtain ht | ht := List.mem_append.1 ht
  · have hu := h.solid u (by simp)
    exact ((List.pairwise_append.1 h.order).2.2 t ht u (by simp)).trans hu.le
  · rw [List.mem_singleton.1 ht]

end Ordered

def StartsAt (ts : List Token) (p : Position) : Prop := ∃ t us, ts = t :: us ∧ p = t.span.start

def StopsAt (ts : List Token) (p : Position) : Prop := ∃ us t, ts = us ++ [t] ∧ p = t.span.stop

variable {ts us : List Token} {p q : Position}

theorem startsAt_cons (t : Token) (ts : List Token) : StartsAt (t :: ts) t.span.start :=
  ⟨t, ts, rfl, rfl⟩

theorem stopsAt_concat (ts : List Token) (t : Token) : StopsAt (ts ++ [t]) t.span.stop :=
  ⟨ts, t, rfl, rfl⟩

theorem StartsAt.append (h : StartsAt ts p) (us : List Token) : StartsAt (ts ++ us) p := by
  obtain ⟨t, ts, rfl, rfl⟩ := h
  exact startsAt_cons t _

theorem StopsAt.behind (ts : List Token) (h : StopsAt us p) : StopsAt (ts ++ us) p := by
  obtain ⟨us, u, rfl, rfl⟩ := h
  rw [← List.append_assoc]
  exact stopsAt_concat _ u

theorem StartsAt.mem (h : StartsAt ts p) : ∃ t ∈ ts, p = t.span.start := by
  obtain ⟨t, ts, rfl, rfl⟩ := h
  exact ⟨t, List.mem_cons_self, rfl⟩

theorem StopsAt.mem (h : StopsAt ts p) : ∃ t ∈ ts, p = t.span.stop := by
  obtain ⟨ts, t, rfl, rfl⟩ := h
  exact ⟨t, by simp, rfl⟩

structure Covers (ts : List Token) (s : Span) : Prop where
  start : StartsAt ts s.start
  stop : StopsAt ts s.stop

theorem covers_singleton (t : Token) : Covers [t] t.span :=
  ⟨startsAt_cons t [], stopsAt_concat [] t⟩

namespace Covers

variable {s s' : Span}

theorem lt (h : Covers ts s) (ho : Ordered ts) : s.start < s.stop := by
  obtain ⟨t, us, rfl, hstart⟩ := h.start
  obtain ⟨u, hu, hstop⟩ := h.stop.mem
  rw [hstart, hstop]
  exact (ho.start_le hu).trans_lt (ho.solid u hu)

theorem contains (h : Covers ts s) (ho : Ordered ts) (h' : Covers us s') (hus : us ⊆ ts) :
    s.Contains s' := by
  constructor
  · obtain ⟨t, vs, rfl, hstart⟩ := h.start
    obtain ⟨u, hu, hstart'⟩ := h'.start.mem
    rw [hstart, hstart']
    exact ho.start_le (hus hu)
  · obtain ⟨vs, t, rfl, hstop⟩ := h.stop
    obtain ⟨u, hu, hstop'⟩ := h'.stop.mem
    rw [hstop, hstop']
    exact ho.stop_le (hus hu)

end Covers

end Token

open Token

inductive Phrase
  | expr (e : Expr)
  | stmt (s : Stmt)

namespace Phrase

def span : Phrase → Span
  | expr e => e.span
  | stmt s => s.span

def children : Phrase → List Phrase
  | expr (.name ..) | expr (.literal ..) | expr (.step ..) | stmt (.typeDecl ..) => []
  | expr (.unary _ _ e) | expr (.assign _ _ e) | expr (.member _ e _) => [expr e]
  | expr (.binary _ _ l r) => [expr l, expr r]
  | expr (.call _ f args) => expr f :: args.map expr
  | stmt (.define _ _ e _ _) | stmt (.ret e _) | stmt (.expr e _) => [expr e]
  | stmt (.func _ body _) => [stmt (.block body)]
  | stmt (.block body) => body.statements.map stmt
  | stmt (.cond c yes no _) => expr c :: stmt yes :: no.toList.map stmt
  | stmt (.loop c body _) => [expr c, stmt body]

/-- Where among the tokens of a phrase its children can stand. Those of a block stand behind its
brace. -/
def inside : Phrase → List Token → List Token
  | stmt (.block _), ts => ts.tail
  | _, ts => ts

theorem inside_sublist (x : Phrase) (ts : List Token) : (x.inside ts).Sublist ts := by
  rw [inside.eq_def]
  split
  · exact List.tail_sublist ts
  · exact List.Sublist.refl ts

/-- Phrases on pieces of the tokens, in their order, where `R` says on which tokens a phrase can
be. -/
inductive Row (R : List Token → Phrase → Prop) : List Token → List Phrase → Prop
  | nil (ts : List Token) : Row R ts []
  | cons (gap : List Token) {ts us : List Token} {x : Phrase} {xs : List Phrase} :
    R ts x → Row R us xs → Row R (gap ++ (ts ++ us)) (x :: xs)

namespace Row

variable {R : List Token → Phrase → Prop} {ts us : List Token} {x : Phrase} {xs ys : List Phrase}

theorem behind (gap : List Token) (h : Row R ts xs) : Row R (gap ++ ts) xs := by
  cases h with
  | nil => exact .nil _
  | cons gap' hx hxs =>
    rw [← List.append_assoc]
    exact .cons _ hx hxs

theorem append (h : Row R ts xs) (h' : Row R us ys) : Row R (ts ++ us) (xs ++ ys) := by
  induction h with
  | nil ts => exact h'.behind ts
  | cons gap hx _ ih =>
    rw [List.append_assoc, List.append_assoc]
    exact .cons gap hx ih

theorem before (h : Row R ts xs) (us : List Token) : Row R (ts ++ us) xs := by
  simpa using h.append (.nil us)

theorem one (h : R ts x) : Row R ts [x] := by simpa using Row.cons [] h (.nil [])

theorem uncons (h : Row R ts (x :: xs)) :
    ∃ gap us vs, ts = gap ++ (us ++ vs) ∧ R us x ∧ Row R vs xs := by
  cases h with
  | cons gap hx hxs => exact ⟨gap, _, _, rfl, hx, hxs⟩

theorem piece (h : Row R ts xs) (hx : x ∈ xs) : ∃ us, us.Sublist ts ∧ R us x := by
  induction h with
  | nil ts => cases hx
  | @cons gap ts us y ys hy _ ih =>
    obtain rfl | hx := List.mem_cons.1 hx
    · exact ⟨ts, (List.sublist_append_left ts us).trans (List.sublist_append_right gap _), hy⟩
    · obtain ⟨vs, hvs, hR⟩ := ih hx
      refine ⟨vs, hvs.trans ?_, hR⟩
      exact (List.sublist_append_right ts us).trans (List.sublist_append_right gap _)

theorem pairwise (h : Row R ts xs) (hR : ∀ {us x}, R us x → Covers us x.span) (ho : Ordered ts) :
    xs.Pairwise fun x y => x.span.stop ≤ y.span.start := by
  induction h with
  | nil => exact .nil
  | @cons gap ts us x xs hx hxs ih =>
    have ho := ho.sublist (List.sublist_append_right gap _)
    refine List.pairwise_cons.2 ⟨fun y hy => ?_, ih (ho.sublist (List.sublist_append_right ts us))⟩
    obtain ⟨vs, hvs, hy⟩ := hxs.piece hy
    obtain ⟨t, ht, hstop⟩ := (hR hx).stop.mem
    obtain ⟨u, hu, hstart⟩ := (hR hy).start.mem
    rw [hstop, hstart]
    exact (List.pairwise_append.1 ho.order).2.2 t ht u (hvs.subset hu)

end Row

/-- The phrase spans the tokens, and so does every phrase in it its own, which are in order among
them. -/
inductive Stands : List Token → Phrase → Prop
  | intro {ts : List Token} {x : Phrase} (covers : Covers ts x.span)
    (row : Row Stands (x.inside ts) x.children) : Stands ts x

namespace Stands

variable {ts : List Token} {x y : Phrase}

theorem covers (h : Stands ts x) : Covers ts x.span := by
  obtain ⟨h, -⟩ := h
  exact h

theorem row (h : Stands ts x) : Row Stands (x.inside ts) x.children := by
  obtain ⟨-, h⟩ := h
  exact h

theorem child (h : Stands ts x) (hy : y ∈ x.children) : ∃ us, us.Sublist ts ∧ Stands us y := by
  obtain ⟨us, hus, hy⟩ := h.row.piece hy
  exact ⟨us, hus.trans (x.inside_sublist ts), hy⟩

end Stands

/-- The span of the phrase begins and ends where tokens do, is not empty and holds the spans of
the phrases right inside, which are in order and do not overlap. -/
structure Nests (tokens : List Token) (x : Phrase) : Prop where
  start : ∃ t ∈ tokens, x.span.start = t.span.start
  stop : ∃ t ∈ tokens, x.span.stop = t.span.stop
  lt : x.span.start < x.span.stop
  contains : ∀ y ∈ x.children, x.span.Contains y.span
  order : x.children.Pairwise fun y z => y.span.stop ≤ z.span.start

theorem Stands.nests {ts tokens : List Token} {x : Phrase} (h : Stands ts x) (ho : Ordered ts)
    (hts : ts ⊆ tokens) : x.Nests tokens where
  start := h.covers.start.mem.imp fun _ ht => ⟨hts ht.1, ht.2⟩
  stop := h.covers.stop.mem.imp fun _ ht => ⟨hts ht.1, ht.2⟩
  lt := h.covers.lt ho
  contains y hy := by
    obtain ⟨us, hus, hy⟩ := h.child hy
    exact h.covers.contains ho hy.covers hus.subset
  order := h.row.pairwise Stands.covers (ho.sublist (x.inside_sublist ts))

end Phrase

end TypedScript
