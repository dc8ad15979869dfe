import TypedScript.Proofs.Eval.Provenance
import TypedScript.Proofs.Static.Literals

namespace TypedScript

/-- The function was made from the `i`th of the definitions. -/
def Closure.MadeFrom (f : Closure) (defs : List (Heading × Block)) (i : Nat) : Prop :=
  ∃ d, defs[i]? = some d ∧ f.Of d

theorem Block.span_eq_of_beq : ∀ {b c : Block}, b.beq c = true → b.span = c.span
  | .mk .., .mk .., h => by
    simp only [Block.beq, Bool.and_eq_true, beq_iff_eq] at h
    exact h.2

theorem Store.Holds.eq_iff {σ : Store} {x y : Handle} (hx : σ.Holds x) (hy : σ.Holds y) :
    x = y ↔ x.slot = y.slot := by
  refine ⟨congrArg Handle.slot, fun hslot => ?_⟩
  obtain ⟨s, hs, hxs⟩ := hx
  obtain ⟨t, ht, hyt⟩ := hy
  rw [hslot, ht] at hs
  cases hs
  cases x
  cases y
  exact congr (congrArg Handle.mk hslot) (hxs.symm.trans hyt)

namespace Closure

variable {f g : Closure} {defs : List (Heading × Block)} {i j : Nat}

theorem Of.exists_madeFrom {d : Heading × Block} (hf : f.Of d) (hd : d ∈ defs) :
    ∃ i, f.MadeFrom defs i := by
  obtain ⟨i, hi⟩ := List.mem_iff_getElem?.1 hd
  exact ⟨i, d, hi, hf⟩

theorem MadeFrom.index_eq (hplaces : (defs.map fun d => d.2.span.start).Nodup)
    (hf : f.MadeFrom defs i) (hg : g.MadeFrom defs j) (hspan : f.body.span = g.body.span) :
    i = j := by
  obtain ⟨d, hd, hf⟩ := hf
  obtain ⟨e, he, hg⟩ := hg
  rw [hf.body, hg.body] at hspan
  have hlt := (List.getElem?_eq_some_iff.1 hd).1
  refine (List.getElem?_inj (by rwa [List.length_map]) hplaces).1 ?_
  rw [List.getElem?_map, List.getElem?_map, hd, he, Option.map_some, Option.map_some, hspan]

theorem agrees_iff (hplaces : (defs.map fun d => d.2.span.start).Nodup)
    (hself : ∀ d ∈ defs, d.2.beq d.2 = true) (hf : f.MadeFrom defs i) (hg : g.MadeFrom defs j) :
    f.agrees g = true ↔ i = j ∧ f.home.slot = g.home.slot := by
  simp only [agrees, Bool.and_eq_true, beq_iff_eq]
  constructor
  · rintro ⟨⟨⟨-, hbody⟩, -⟩, hslot⟩
    exact ⟨hf.index_eq hplaces hg (Block.span_eq_of_beq hbody), hslot⟩
  · rintro ⟨rfl, hslot⟩
    obtain ⟨d, hd, hf⟩ := hf
    obtain ⟨e, he, hg⟩ := hg
    cases hd.symm.trans he
    rw [hf.parameters, hg.parameters, hf.body, hg.body, hf.signature, hg.signature]
    exact ⟨⟨⟨rfl, hself d (List.mem_of_getElem? hd)⟩, rfl⟩, hslot⟩

end Closure

namespace Session

inductive HasFunction (w : Session) : Closure → Option Value → Prop
  | value {v f r} : w.Live v → v.asFunction? = some (f, r) → HasFunction w f r
  | method {key f r} : w.store.members.get? key = some (.method f r) → HasFunction w f r

theorem HasFunction.of_bound {w : Session} {id : Slot} {s : Scope} {x : String} {f : Closure}
    {r : Option Value} (hs : w.store.scope? id = some s)
    (hf : (s.bindings.get? x).bind Value.asFunction? = some (f, r)) : w.HasFunction f r := by
  obtain ⟨v, hv, hf⟩ := Option.bind_eq_some_iff.1 hf
  exact .value (.bound hs hv) hf

/-- The operator `==` finds the values equal. -/
def Equates (w : Session) (v u : Value) : Prop :=
  Eval.binary .equals v u w.store = (.ok (.boolean true), w.store)

variable {w : Session} {f g : Closure} {r s : Option Value}

theorem equates_iff {v u : Value} : w.Equates v u ↔ v.equal w.store.cells u = true := by
  have hrun : Eval.binary .equals v u w.store =
      (.ok (.boolean (v.equal w.store.cells u)), w.store) := rfl
  simp [Equates, hrun]

theorem equates_ofFunction : w.Equates (.ofFunction f r) (.ofFunction g s) ↔
    f.agrees g = true ∧ Option.Rel w.Equates r s := by
  rw [equates_iff]
  cases r <;> cases s <;> simp [Value.ofFunction, Value.equal, equates_iff]

variable {defs : List (Heading × Block)}

theorem Accounted.of_hasFunction (h : w.Accounted defs) (hf : w.HasFunction f r) :
    (∃ i, f.MadeFrom defs i) ∧ w.store.Holds f.home := by
  cases hf with
  | value hv hvf =>
    obtain ⟨⟨d, hd, hof⟩, -⟩ := (h.live hv).callee hvf
    cases Value.functions_of_asFunction? hvf
    exact ⟨hof.exists_madeFrom hd, h.intact.home_of_carries hv.carries⟩
  | method hm =>
    obtain ⟨-, d, hd, hof, -⟩ := h.store.members hm
    have hcarries : w.store.Carries w.roots (.ofFunction f r) :=
      Store.carries_of_member (m := .method f r) (Dict.mem_values_of_get? hm)
    exact ⟨hof.exists_madeFrom hd, h.intact.home_of_carries hcarries⟩

end Session

namespace Program

/-- In every state of a run of a text that is read without a report, every function was made from
one definition of the text, and only one, and the scope that it has captured is still there. Two
functions compare equal exactly if they were made from the same definition, have captured the same
scope, not another that has had its slot, and have no receivers or such as compare equal. -/
theorem function_equality_is_identity {source : String} {file : Option String} {p : Program}
    (hsize : Source.byteLength source.toList < Source.offsetBound)
    (hp : parse source file = (p, [])) (fuel : Nat) :
    (p.watched fuel .initial).1 = p.evaluate .standard fuel .none .initial ∧
    ∀ w ∈ (p.watched fuel .initial).2,
      (∀ {f r}, w.HasFunction f r →
        (∃! i, f.MadeFrom (Stmt.functionsAll p.statements) i) ∧ w.store.Holds f.home) ∧
      ∀ {f r g s}, w.HasFunction f r → w.HasFunction g s →
        (w.Equates (.ofFunction f r) (.ofFunction g s) ↔
          (∃ i, f.MadeFrom (Stmt.functionsAll p.statements) i ∧
            g.MadeFrom (Stmt.functionsAll p.statements) i) ∧
          f.home = g.home ∧ Option.Rel w.Equates r s) := by
  refine ⟨watched_fst fuel .initial p, fun w hw => ?_⟩
  have hplaces := nodup_bodies hsize hp
  have hself := beq_bodies hsize hp
  have h := (watched_upheld (Stmt.functionsAll_closed p.statements) fuel .initial rfl rfl
    (List.Subset.refl _)).states w hw
  refine ⟨fun {f r} hf => ?_, fun {f r g s} hf hg => ?_⟩
  · obtain ⟨⟨i, hi⟩, hhome⟩ := h.of_hasFunction hf
    exact ⟨⟨i, hi, fun j hj => hj.index_eq hplaces hi rfl⟩, hhome⟩
  · obtain ⟨⟨i, hi⟩, hfhome⟩ := h.of_hasFunction hf
    obtain ⟨⟨j, hj⟩, hghome⟩ := h.of_hasFunction hg
    rw [Session.equates_ofFunction, Closure.agrees_iff hplaces hself hi hj,
      hfhome.eq_iff hghome, and_assoc]
    refine and_congr_left fun _ => ⟨?_, ?_⟩
    · rintro rfl
      exact ⟨i, hi, hj⟩
    · rintro ⟨k, hfk, hgk⟩
      exact (hi.index_eq hplaces hfk rfl).trans (hgk.index_eq hplaces hj rfl)

/-- One definition that is run twice, in a scope of its own each time. -/
def madeTwice : String :=
  "func make() -> func() \x7b func f() \x7b \x7d return f; \x7d let a = make(); let b = make();"

theorem function_equality_is_identity_of_madeTwice :
    ∃ p, parse madeTwice none = (p, []) ∧ ∃ w ∈ (p.watched 20 .initial).2, ∃ f g,
      w.HasFunction f none ∧ w.HasFunction g none ∧
      (∃ i, f.MadeFrom (Stmt.functionsAll p.statements) i ∧
        g.MadeFrom (Stmt.functionsAll p.statements) i) ∧
      w.Equates (.function f) (.function f) ∧ ¬ w.Equates (.function f) (.function g) := by
  have hsize : Source.byteLength madeTwice.toList < Source.offsetBound := by decide +kernel
  have hread : parse madeTwice none = ((parse madeTwice none).1, []) := parse_eq (by decide +kernel)
  have hend : (((parse madeTwice none).1.watched 20 .initial).2.getLast?.any fun w =>
      (w.store.scope? Store.global).any fun s =>
        ((s.bindings.get? "a").bind Value.asFunction?).any fun x =>
          ((s.bindings.get? "b").bind Value.asFunction?).any fun y =>
            x.2.isNone && y.2.isNone && x.1.body.span == y.1.body.span &&
              x.1.home != y.1.home) = true := by decide +kernel
  generalize (parse madeTwice none).1 = p at hread hend
  obtain ⟨w, hw, hend⟩ := (Option.any_eq_true _ _).1 hend
  obtain ⟨s, hs, hend⟩ := (Option.any_eq_true _ _).1 hend
  obtain ⟨⟨f, r⟩, hf, hend⟩ := (Option.any_eq_true _ _).1 hend
  obtain ⟨⟨g, t⟩, hg, hend⟩ := (Option.any_eq_true _ _).1 hend
  simp only [Bool.and_eq_true, Option.isNone_iff_eq_none, beq_iff_eq, bne_iff_ne] at hend
  obtain ⟨⟨⟨rfl, rfl⟩, hspan⟩, hhome⟩ := hend
  have hw := List.mem_of_getLast? hw
  have hf := Session.HasFunction.of_bound hs hf
  have hg := Session.HasFunction.of_bound hs hg
  obtain ⟨hmade, hequal⟩ := (function_equality_is_identity hsize hread 20).2 w hw
  obtain ⟨⟨i, hi, -⟩, -⟩ := hmade hf
  obtain ⟨⟨j, hj, -⟩, -⟩ := hmade hg
  cases hi.index_eq (nodup_bodies hsize hread) hj hspan
  refine ⟨p, hread, w, hw, f, g, hf, hg, ⟨i, hi, hj⟩, ?_, fun heq => ?_⟩
  · exact (hequal hf hf).2 ⟨⟨i, hi, hi⟩, rfl, .none⟩
  · exact hhome ((hequal hf hg).1 heq).2.1

end Program

end TypedScript
