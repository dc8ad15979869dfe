import Mathlib.Data.Int.ModEq
import TypedScript.Proofs.Eval.Grounded

namespace TypedScript

open Eval.Observed (held)

namespace StepOp

def amount : StepOp → Int
  | increment => 1
  | decrement => -1

def Steps (op : StepOp) : Scalar → Scalar → Prop
  | .integer i, .integer j => j.toInt ≡ i.toInt + op.amount [ZMOD 2 ^ 64]
  | .float x, .float y => y = op.onFloat x
  | _, _ => False

theorem toInt_onInteger (op : StepOp) (i : Int64) :
    (op.onInteger i).toInt ≡ i.toInt + op.amount [ZMOD 2 ^ 64] := by
  have hmod (m : Int) : m.bmod (2 ^ 64) ≡ m [ZMOD 2 ^ 64] := Int.bmod_emod
  cases op with
  | increment =>
    rw [onInteger, Int64.toInt_add]
    exact hmod _
  | decrement =>
    rw [onInteger, Int64.toInt_sub]
    exact hmod _

theorem steps_onScalar (op : StepOp) {cells : Cells} {r : Ref} {x : Scalar}
    (h : r.read cells = some x) : op.Steps x (op.onScalar x) := by
  cases r with
  | integer cell =>
    obtain ⟨i, -, rfl⟩ := Option.map_eq_some_iff.1 h
    exact op.toInt_onInteger i
  | float cell =>
    obtain ⟨y, -, rfl⟩ := Option.map_eq_some_iff.1 h
    rfl

end StepOp

namespace Event

/-- A literal, a unary or binary operator, or `++` or `--` behind a name has a number as its
result, which is in the cell `r`. -/
def Makes (e : Event) (r : Ref) : Prop :=
  e.action.Computes ∧ ∃ v, e.outcome.1 = .ok v ∧ v.ref? = some r

def Changes (e : Event) (r : Ref) : Prop :=
  ∃ x, r.read e.store.cells = some x ∧ r.read e.outcome.2.cells ≠ some x

/-- The action is `++` or `--` on a name that resolves to the scope `h`, where it is bound to
`v`. -/
def Steps (e : Event) (op : StepOp) (h : Handle) (name : String) (v : Value) : Prop :=
  ∃ scope before s, e.action = .step scope op before name ∧
    e.store.binder? scope name = some h.slot ∧ e.store.scope? h.slot = some s ∧
    s.stamp = h.stamp ∧ s.bindings.get? name = some v

/-- By a `let`, an assignment or the passing of an argument or a receiver, the name is bound to `v`
in the scope `h`. -/
def Gives (e : Event) (h : Handle) (name : String) (v : Value) : Prop :=
  e.binding? = some (h.slot, name, v) ∧ ∃ s, e.store.scope? h.slot = some s ∧ s.stamp = h.stamp

variable {e : Event} {r : Ref} {op : StepOp} {h : Handle} {name : String} {v : Value}

theorem Makes.fresh (hm : e.Makes r) (hg : e.before.Grounded) :
    r.read e.store.cells = none ∧ (∃ x, r.read e.outcome.2.cells = some x) ∧
      r ∉ e.after.refs := by
  obtain ⟨hcomputes, v, hv, hr⟩ := hm
  have hmem : v ∈ held e.outcome.1 := by
    rw [hv]
    exact List.mem_singleton_self v
  have hrefs : r ∈ v.refs := by
    rw [Value.refs_of_ref? hr]
    exact List.mem_singleton_self r
  obtain ⟨hnone, hread⟩ | ⟨hnot, -⟩ := e.effect.result v hmem r hrefs
  · refine ⟨hnone, hread, fun hafter => ?_⟩
    obtain ⟨x, hx⟩ := hg r (e.refs_after hafter)
    exact nomatch hnone.symm.trans hx
  · exact absurd hcomputes hnot

theorem Steps.lookup (hs : e.Steps op h name v) : ∃ scope before,
    e.action = .step scope op before name ∧ e.store.lookup? scope name = some v := by
  obtain ⟨scope, before, s, ha, hb, hs, -, hv⟩ := hs
  refine ⟨scope, before, ha, ?_⟩
  rw [Store.lookup?, hb]
  exact Option.bind_eq_some_iff.2 ⟨s, hs, hv⟩

theorem Steps.exact (hs : e.Steps op h name v) (hr : v.ref? = some r) (hg : e.before.Grounded) :
    (∃ u, e.outcome.1 = .ok u) ∧ e.outcome.2 = { e.store with cells := e.outcome.2.cells } ∧
      (∃ x y, r.read e.store.cells = some x ∧ r.read e.outcome.2.cells = some y ∧
        op.Steps x y) ∧
      ∀ other x, other ≠ r → other.read e.store.cells = some x →
        other.read e.outcome.2.cells = some x := by
  obtain ⟨scope, before, ha, hv⟩ := hs.lookup
  obtain ⟨a, σ, roots⟩ := e
  cases ha
  have htarget : target? ⟨.step scope op before name, σ, roots⟩ = some r := by
    simp only [target?, hv, Option.bind_some, hr]
  have hcells := (effect ⟨.step scope op before name, σ, roots⟩).cells
  rw [htarget] at hcells
  have he : outcome ⟨.step scope op before name, σ, roots⟩ = Eval.step op before name v σ := by
    simp only [outcome, Action.run, Eval.bind_apply, Eval.lookup, Eval.gets_apply, hv,
      Eval.pure_apply]
  obtain ⟨u, cells, hu⟩ : ∃ u cells, Eval.step op before name v σ =
      (.ok u, { σ with cells }) := by
    cases v with
    | integer cell => exact ⟨_, _, rfl⟩
    | float cell => exact ⟨_, _, rfl⟩
    | _ => cases hr
  refine ⟨⟨u, by rw [he, hu]⟩, by rw [he, hu], ?_, fun other x hne hx => ?_⟩
  · have hmem : r ∈ v.refs := Value.refs_of_ref? hr ▸ List.mem_singleton_self r
    obtain ⟨x, hx⟩ := hg r (mem_refs_of_lookup? hv hmem)
    have hy := hcells hx
    rw [if_pos rfl] at hy
    exact ⟨x, _, hx, hy, op.steps_onScalar hx⟩
  · have hy := hcells hx
    rwa [if_neg fun heq => hne (Option.some.inj heq).symm] at hy

theorem Changes.steps (hc : e.Changes r) :
    ∃ op h name v, e.Steps op h name v ∧ v.ref? = some r := by
  obtain ⟨x, hx, hne⟩ := hc
  have hread := e.effect.cells hx
  have htarget : e.target? = some r := by
    by_contra hno
    rw [if_neg hno] at hread
    exact hne hread
  obtain ⟨a, σ, roots⟩ := e
  cases a with
  | step scope op before name =>
    obtain ⟨v, hv, hr⟩ := Option.bind_eq_some_iff.1 htarget
    have hlookup := hv
    rw [Store.lookup?] at hv
    split at hv
    · cases hv
    · rename_i found hfound
      obtain ⟨s, hs, hv⟩ := Option.bind_eq_some_iff.1 hv
      exact ⟨op, ⟨found, s.stamp⟩, name, v, ⟨scope, before, s, rfl, hfound, hs, rfl, hv⟩, hr⟩
  | _ => cases htarget

end Event

theorem Chained.given {a e : Event} {between : List Event} {r : Ref}
    (hbetween : Chained a.outcome.2 between e.store) (hfresh : r ∉ a.after.refs)
    (hc : e.Changes r) :
    ∃ op h name v, e.Steps op h name v ∧ v.ref? = some r ∧ ∃ b ∈ between, b.Gives h name v := by
  obtain ⟨op, h, name, v, hsteps, hr⟩ := hc.steps
  have hrefs := Value.refs_of_ref? hr
  refine ⟨op, h, name, v, hsteps, hr, ?_⟩
  obtain ⟨scope, before, s, -, -, hs, hstamp, hv⟩ := hsteps
  have hentry := Dict.mem_entries_of_get? hv
  obtain ⟨t, ht, -, hentry⟩ | ⟨b, hb, hbinding, t, ht, hts⟩ :=
    hbetween.bindings hs hentry (by rw [hrefs]; exact List.cons_ne_nil _ _)
  · refine absurd (Session.mem_refs.2 (.inl ⟨h.slot, t, name, v, ht, hentry, ?_⟩)) hfresh
    rw [hrefs]
    exact List.mem_singleton_self r
  · exact ⟨b, hb, hbinding, t, ht, hts.trans hstamp⟩

namespace Program

end Program

end TypedScript
