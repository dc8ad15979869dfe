import Mathlib.Data.List.Nodup
import TypedScript.Proofs.Static.Definitions

namespace TypedScript

inductive Program.Keeps (p : Program) : Phrase → Prop
  | statement {s : Stmt} (hs : s ∈ p.statements) : p.Keeps (.stmt s)
  | child {x y : Phrase} (hx : p.Keeps x) (hy : y ∈ x.children) : p.Keeps y

namespace Program

open Phrase (Row Stands)

theorem Keeps.stands {p : Program} {x : Phrase} (h : p.Keeps x) {us : List Token}
    (hrow : Row Stands us (p.statements.map .stmt)) : ∃ ts, ts.Sublist us ∧ Stands ts x := by
  induction h with
  | statement hs => exact hrow.piece (List.mem_map_of_mem hs)
  | child _ hy ih =>
    obtain ⟨ts, hts, hx⟩ := ih
    obtain ⟨vs, hvs, hy⟩ := hx.child hy
    exact ⟨vs, hvs.trans hts, hy⟩

/-- Whatever is reported, every statement and expression that is kept begins and ends with a token
of the text and holds what is right inside it, in order and without overlap. So do the statements
of the program follow one another, and no two functions have bodies with the same span. -/
theorem spans_nest (source : String) (file : Option String)
    (hsize : Source.byteLength source.toList < Source.offsetBound) :
    (∀ x, (parse source file).1.Keeps x →
      ∃ tokens, Token.scan source file = .ok tokens ∧ x.Nests tokens) ∧
    ((parse source file).1.statements.Pairwise fun s t => s.span.stop ≤ t.span.start) ∧
    ((Stmt.functionsAll (parse source file).1.statements).map fun d => d.2.span).Nodup := by
  obtain ⟨us, hordered, hrow, hscan⟩ := row_of_parse file hsize
  refine ⟨fun x hx => ?_, ?_, ?_⟩
  · obtain ⟨ts, hts, hx⟩ := hx.stands hrow
    obtain ⟨t, ht, -⟩ := hx.covers.start.mem
    obtain ⟨tokens, hscan, hus⟩ := hscan t (hts.subset ht)
    exact ⟨tokens, hscan, hx.nests (hordered.sublist hts) fun _ ht => hus (hts.subset ht)⟩
  · exact List.pairwise_map.1 (hrow.pairwise Stands.covers hordered)
  · refine List.Nodup.of_map Span.start ?_
    rw [List.map_map]
    exact nodup_bodies hsize rfl

def nestedFaulty : String := "func f() \x7b func g() \x7b \x7d \x7d let = \x7b ; \x7d f((1) + 2);"

theorem spans_nest_of_nestedFaulty :
    Source.byteLength nestedFaulty.toList < Source.offsetBound ∧
    ((parse nestedFaulty none).2.length = 2 ∧ (parse nestedFaulty none).1.statements.map
      (fun s => (s.span.start.offset, s.span.stop.offset)) = [(0, 25), (38, 49)]) ∧
    (∀ x, (parse nestedFaulty none).1.Keeps x →
      ∃ tokens, Token.scan nestedFaulty none = .ok tokens ∧ x.Nests tokens) ∧
    ((parse nestedFaulty none).1.statements.Pairwise fun s t => s.span.stop ≤ t.span.start) ∧
    ((Stmt.functionsAll (parse nestedFaulty none).1.statements).map fun d => d.2.span).Nodup := by
  have hsize : Source.byteLength nestedFaulty.toList < Source.offsetBound := by decide +kernel
  exact ⟨hsize, by decide +kernel, spans_nest nestedFaulty none hsize⟩

end Program

end TypedScript
