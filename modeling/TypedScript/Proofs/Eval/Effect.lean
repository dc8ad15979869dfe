import TypedScript.Proofs.Eval.Blame
import TypedScript.Proofs.Eval.Logged
import TypedScript.Proofs.Eval.Simulation
import TypedScript.Proofs.Value.Cells

namespace TypedScript

open Eval.Observed (held)

def Roots.refs (roots : Roots) : List Ref := roots.values.flatMap Value.refs

@[simp] theorem Roots.refs_plus (roots : Roots) (vs : List Value) :
    (roots.plus vs).refs = vs.flatMap Value.refs ++ roots.refs := List.flatMap_append

def Session.refs (w : Session) : List Ref := (w.store.referenced w.roots).flatMap Value.refs

theorem Session.mem_refs {w : Session} {r : Ref} :
    r ∈ w.refs ↔
      (∃ id s x v, w.store.scope? id = some s ∧ (x, v) ∈ s.bindings.entries ∧ r ∈ v.refs) ∨
      (∃ m ∈ w.store.members.values, r ∈ m.value.refs) ∨ r ∈ w.roots.refs := by
  simp only [refs, Roots.refs, List.mem_flatMap, Store.mem_referenced]
  constructor
  · rintro ⟨v, ⟨id, s, hs, hv⟩ | ⟨m, hm, rfl⟩ | hv, hr⟩
    · obtain ⟨⟨x, _⟩, hx, rfl⟩ := List.mem_map.1 hv
      exact .inl ⟨id, s, x, _, hs, hx, hr⟩
    · exact .inr (.inl ⟨m, hm, hr⟩)
    · exact .inr (.inr ⟨v, hv, hr⟩)
  · rintro (⟨id, s, x, v, hs, hx, hr⟩ | ⟨m, hm, hr⟩ | ⟨v, hv, hr⟩)
    · exact ⟨v, .inl ⟨id, s, hs, List.mem_map_of_mem hx⟩, hr⟩
    · exact ⟨_, .inr (.inl ⟨m, hm, rfl⟩), hr⟩
    · exact ⟨v, .inr (.inr hv), hr⟩

/-- Every cell that is named exists. -/
def Session.Grounded (w : Session) : Prop := ∀ r ∈ w.refs, ∃ x, r.read w.store.cells = some x

def Action.Computes : Action → Prop
  | literal _ | unary _ _ | binary _ _ _ => True
  | step _ _ before _ => before = false
  | _ => False

namespace Event

def target? (e : Event) : Option Ref :=
  match e.action with
  | .step scope _ _ name => (e.store.lookup? scope name).bind Value.ref?
  | _ => none

def onTarget (e : Event) : Scalar → Scalar :=
  match e.action with
  | .step _ op _ _ => op.onScalar
  | _ => id

def binding? (e : Event) : Option (Slot × String × Value) :=
  match e.action with
  | .define scope none name v => some (scope, name, v)
  | .assign scope name v => (e.store.binder? scope name).map (·, name, v)
  | .pass scope name v => some (scope, name, v)
  | _ => none

theorem mem_operands_of_binding? {e : Event} {j : Slot} {x : String} {v : Value}
    (h : e.binding? = some (j, x, v)) : v ∈ e.action.operands := by
  obtain ⟨a, σ, roots⟩ := e
  cases a with
  | define scope receiver name u =>
    cases receiver with
    | none =>
      cases h
      exact List.mem_singleton_self _
    | some t => cases h
  | assign scope name u =>
    obtain ⟨found, -, hfound⟩ := Option.map_eq_some_iff.1 h
    cases hfound
    exact List.mem_singleton_self _
  | pass scope name u =>
    cases h
    exact List.mem_singleton_self _
  | _ => cases h

end Event

namespace Store

/-- All that names of `τ` are bound to was bound to them in `σ`, or is the given binding, or names
no cell; and no member of `τ` is new, but for those that name no other cells than the given
ones. -/
structure Receives (σ : Store) (given : Option (Slot × String × Value)) (rs : List Ref)
    (τ : Store) : Prop where
  bindings : ∀ ⦃j t x v⦄, τ.scope? j = some t → (x, v) ∈ t.bindings.entries → v.refs ≠ [] →
    ∃ s, σ.scope? j = some s ∧ s.stamp = t.stamp ∧
      ((x, v) ∈ s.bindings.entries ∨ given = some (j, x, v))
  members : ∀ m ∈ τ.members.values, m ∈ σ.members.values ∨ m.value.refs ⊆ rs

namespace Receives

variable {σ τ υ : Store} {given : Option (Slot × String × Value)} {rs : List Ref}

theorem of_retains (h : σ.Retains τ) : σ.Receives given rs τ where
  bindings j t x v ht hx _ := by
    obtain ⟨s, hs, hst, -, hb⟩ := h.back ht
    exact ⟨s, hs, hst, .inl (hb ▸ hx)⟩
  members m hm := .inl (h.members ▸ hm)

theorem after_retains (h : σ.Retains τ) (h' : τ.Receives given rs υ) : σ.Receives given rs υ where
  bindings j u x v hu hx hv := by
    obtain ⟨t, ht, htu, hx⟩ := h'.bindings hu hx hv
    obtain ⟨s, hs, hst, -, hb⟩ := h.back ht
    exact ⟨s, hs, hst.trans htu, hb ▸ hx⟩
  members m hm := h.members ▸ h'.members m hm

theorem openScope (σ : Store) (parent : Slot) : σ.Receives given rs (σ.openScope parent).2 where
  bindings j t x v ht hx _ := by
    obtain he | ⟨s, hs, hst, hb⟩ := openScope_old σ parent ht
    · rw [he] at hx
      cases hx
    · exact ⟨s, hs, hst, .inl (hb ▸ hx)⟩
  members m hm := .inl (openScope_members σ parent ▸ hm)

theorem bind (σ : Store) (id : Slot) (x : String) (v : Value)
    (hgiven : v.refs ≠ [] → given = some (id, x, v)) : σ.Receives given rs (σ.bind id x v) where
  bindings j t y u ht hy hu := by
    rw [scope?_bind] at ht
    split at ht
    · rename_i hj
      subst hj
      obtain ⟨s, hs, rfl⟩ := Option.map_eq_some_iff.1 ht
      refine ⟨s, hs, rfl, ?_⟩
      obtain he | hy := Dict.mem_put hy
      · cases he
        exact .inr (hgiven hu)
      · exact .inl hy
    · exact ⟨t, ht, rfl, .inl hy⟩
  members m hm := .inl hm

theorem insertMember (σ : Store) (key : Ty × String) {m : Member} (hm : m.value.refs ⊆ rs) :
    σ.Receives given rs { σ with members := σ.members.insert key m } where
  bindings j t x v ht hx _ := ⟨t, ht, rfl, .inl hx⟩
  members m' hm' := by
    obtain rfl | hm' := Dict.mem_values_insert hm'
    · exact .inr hm
    · exact .inl hm'

end Receives

theorem giveBack_cells (roots : Roots) (n : Nat) (id : Slot) (σ : Store) :
    (σ.giveBack roots n id).cells = σ.cells := by
  induction n generalizing id σ with
  | zero => rfl
  | succ n ih =>
    rw [giveBack_succ]
    split
    · rfl
    · split
      · split
        · exact sweep_cells _ σ
        · exact (ih _ _).trans (sweep_cells _ σ)
      · rfl

theorem close_cells (σ : Store) (roots : Roots) (id : Slot) :
    (σ.close roots id).cells = σ.cells := by
  rw [close]
  split
  · rfl
  · have h : (giveBack roots (σ.live + 1) id (σ.deactivate id)).cells = σ.cells :=
      giveBack_cells roots (σ.live + 1) id (σ.deactivate id)
    dsimp only
    generalize giveBack roots (σ.live + 1) id (σ.deactivate id) = τ at h ⊢
    split
    · rw [collect_eq]
      exact (sweep_cells _ τ).trans h
    · exact h

theorem newClosure_cells (σ : Store) (parameters : List String) (body : Block)
    (signature : Signature) (s : Slot) :
    (σ.newClosure parameters body signature s).2.cells = σ.cells := by
  rw [newClosure, handleFor]
  cases σ.scope? s <;> rfl

end Store

namespace Event

/-- What an action can do. Numbers are put into new cells, but only the target of `++` or `--` gets
another number. -/
structure Effect (e : Event) : Prop where
  cells : ∀ ⦃r x⦄, r.read e.store.cells = some x →
    r.read e.outcome.2.cells = some (if e.target? = some r then e.onTarget x else x)
  receives : e.store.Receives e.binding? (e.action.operands.flatMap Value.refs) e.outcome.2
  result : ∀ v ∈ held e.outcome.1, ∀ r ∈ v.refs,
    r.read e.store.cells = none ∧ (∃ x, r.read e.outcome.2.cells = some x) ∨
      ¬e.action.Computes ∧ r ∈ e.before.refs

variable {σ : Store} {roots : Roots}

theorem Effect.of_keeps {e : Event} (htarget : e.target? = none)
    (hkeeps : e.store.cells.Keeps e.outcome.2.cells)
    (hreceives : e.store.Receives e.binding? (e.action.operands.flatMap Value.refs) e.outcome.2)
    (hresult : ∀ v ∈ held e.outcome.1, ∀ r ∈ v.refs,
      r.read e.store.cells = none ∧ (∃ x, r.read e.outcome.2.cells = some x) ∨
        ¬e.action.Computes ∧ r ∈ e.before.refs) : e.Effect := by
  refine ⟨fun r x hx => ?_, hreceives, hresult⟩
  rw [htarget, if_neg nofun]
  exact hkeeps hx

theorem Effect.of_failed {e : Event} (htarget : e.target? = none) {x : EvalError}
    (h : e.outcome = (.error (.failed x), e.store)) : e.Effect := by
  refine .of_keeps htarget ?_ ?_ ?_ <;> rw [h]
  · exact .refl _
  · exact .of_retains (.refl _)
  · exact List.forall_mem_nil _

theorem Effect.of_alloc {e : Event} (htarget : e.target? = none) {x : Except EvalError Scalar}
    (h : e.outcome = Eval.ofScalar x e.store) : e.Effect := by
  cases x with
  | error error => exact .of_failed htarget h
  | ok y =>
    have he : e.outcome = (.ok (e.store.cells.alloc y).1,
      { e.store with cells := (e.store.cells.alloc y).2 }) := h
    refine .of_keeps htarget ?_ ?_ ?_ <;> rw [he]
    · exact e.store.cells.keeps_alloc y
    · exact .of_retains (.withCells ..)
    · refine List.forall_mem_singleton.2 fun r hr => ?_
      obtain ⟨hnew, hread⟩ := e.store.cells.read_alloc y hr
      exact .inl ⟨hnew, y, hread⟩

theorem Effect.of_found {e : Event} (htarget : e.target? = none) (hcomputes : ¬e.action.Computes)
    {v : Value} (h : e.outcome = (.ok v, e.store)) (hv : ∀ r ∈ v.refs, r ∈ e.before.refs) :
    e.Effect := by
  refine .of_keeps htarget ?_ ?_ ?_ <;> rw [h]
  · exact .refl _
  · exact .of_retains (.refl _)
  · exact List.forall_mem_singleton.2 fun r hr => .inr ⟨hcomputes, hv r hr⟩

theorem Effect.of_receives {e : Event} {τ : Store} (htarget : e.target? = none)
    (h : e.outcome = (.ok .void, τ)) (hcells : τ.cells = e.store.cells)
    (hreceives : e.store.Receives e.binding? (e.action.operands.flatMap Value.refs) τ) :
    e.Effect := by
  refine .of_keeps htarget ?_ ?_ ?_ <;> rw [h]
  · rw [hcells]
    exact .refl _
  · exact hreceives
  · exact List.forall_mem_singleton.2 (List.forall_mem_nil _)

theorem literal_effect (v : Literal) : Effect ⟨.literal v, σ, roots⟩ := by
  obtain ⟨x, hx⟩ | ⟨hrefs, hcells⟩ := Cells.literal_cases σ.cells v
  · refine .of_alloc (x := .ok x) rfl ?_
    simp only [outcome, Action.run, Eval.literal, Eval.updateCells, Eval.ofScalar, hx]
  · have he : outcome ⟨.literal v, σ, roots⟩ = (.ok (σ.cells.literal v).1, σ) := by
      simp only [outcome, Action.run, Eval.literal, Eval.updateCells, hcells]
    refine .of_keeps rfl ?_ ?_ ?_ <;> rw [he]
    · exact .refl _
    · exact .of_retains (.refl _)
    · refine List.forall_mem_singleton.2 ?_
      rw [hrefs]
      exact List.forall_mem_nil _

theorem mem_refs_of_lookup? {id : Slot} {x : String} {v : Value}
    (h : σ.lookup? id x = some v) {r : Ref} (hr : r ∈ v.refs) :
    r ∈ (⟨σ, roots⟩ : Session).refs := by
  rw [Store.lookup?] at h
  split at h
  · cases h
  · obtain ⟨s, hs, hv⟩ := Option.bind_eq_some_iff.1 h
    exact Session.mem_refs.2 (.inl ⟨_, s, x, v, hs, Dict.mem_entries_of_get? hv, hr⟩)

theorem lookup_effect (scope : Slot) (name : String) : Effect ⟨.lookup scope name, σ, roots⟩ := by
  cases hv : σ.lookup? scope name with
  | none =>
    refine .of_failed rfl (x := .variableNotDeclared name) ?_
    simp [outcome, Action.run, Eval.lookup, hv, Eval.fail]
  | some v =>
    refine .of_found rfl id (v := v) ?_ fun r hr => mem_refs_of_lookup? hv hr
    simp [outcome, Action.run, Eval.lookup, hv]

theorem assign_effect (scope : Slot) (name : String) (v : Value) :
    Effect ⟨.assign scope name v, σ, roots⟩ := by
  cases hfound : σ.binder? scope name with
  | none =>
    refine .of_failed rfl (x := .variableNotDeclared name) ?_
    simp [outcome, Action.run, Eval.assign, hfound, Eval.fail]
  | some found =>
    have he : outcome ⟨.assign scope name v, σ, roots⟩ = (.ok v, σ.bind found name v) := by
      simp [outcome, Action.run, Eval.assign, hfound]
    refine .of_keeps rfl ?_ ?_ ?_ <;> rw [he]
    · exact .refl _
    · exact .bind σ found name v fun _ => by simp [binding?, hfound]
    · refine List.forall_mem_singleton.2 fun r hr => .inr ⟨id, ?_⟩
      refine Session.mem_refs.2 (.inr (.inr ?_))
      simp [before, Action.operands, hr]

theorem define_effect (scope : Slot) (receiver : Option Ty) (name : String) (v : Value) :
    Effect ⟨.define scope receiver name v, σ, roots⟩ := by
  cases receiver with
  | none => exact .of_receives rfl rfl rfl (.bind σ scope name v fun _ => rfl)
  | some ty =>
    refine .of_receives rfl rfl rfl (.insertMember σ (ty, name) (m := .field v) ?_)
    simp [Member.value, Action.operands]

theorem func_effect (scope : Slot) (heading : Heading) (body : Block) :
    Effect ⟨.func scope heading body, σ, roots⟩ := by
  obtain ⟨id, home, τ, hnew, hretains⟩ :=
    Store.newClosure_eq σ heading.boundNames body heading.signature scope
  have hcells : τ.cells = σ.cells := by
    have h := Store.newClosure_cells σ heading.boundNames body heading.signature scope
    rwa [hnew] at h
  generalize hf : (⟨id, heading.boundNames, body, home, heading.signature⟩ : Closure) = f at hnew
  -- A function that has just been made has no receiver, so it names no cell.
  cases hreceiver : heading.receiver with
  | none =>
    have he : outcome ⟨.func scope heading body, σ, roots⟩ =
        (.ok .void, τ.bind scope heading.name (.function f)) := by
      simp [outcome, Action.run, Eval.defineFunction, hnew, hreceiver]
    refine .of_receives rfl he hcells (.after_retains hretains ?_)
    exact .bind τ scope heading.name (.function f) fun h => absurd rfl h
  | some ty =>
    have he : outcome ⟨.func scope heading body, σ, roots⟩ =
        (.ok .void, τ.setMethod ty heading.name f none) := by
      simp [outcome, Action.run, Eval.defineFunction, hnew, hreceiver]
    refine .of_receives rfl he hcells (.after_retains hretains ?_)
    exact .insertMember τ (ty, heading.name) (m := .method f none) (List.nil_subset _)

theorem member_effect (object : Value) (ty : Ty) (name : String) :
    Effect ⟨.member object ty name, σ, roots⟩ := by
  have he : outcome ⟨.member object ty name, σ, roots⟩ = Eval.member object ty name σ := rfl
  rw [Eval.member, Store.member?] at he
  cases hm : σ.members.get? (ty, name) with
  | none =>
    rw [hm] at he
    exact .of_failed rfl he
  | some m =>
    rw [hm] at he
    cases m with
    | field v =>
      refine .of_found rfl id he fun r hr => ?_
      exact Session.mem_refs.2 (.inr (.inl ⟨_, Dict.mem_values_of_get? hm, hr⟩))
    | method f receiver =>
      refine .of_keeps rfl ?_ ?_ ?_ <;> rw [he]
      · exact .refl _
      · exact .of_retains (.withFresh σ)
      · refine List.forall_mem_singleton.2 fun r hr => .inr ⟨id, ?_⟩
        have hobject : r ∈ object.refs := hr
        refine Session.mem_refs.2 (.inr (.inr ?_))
        simp [before, Action.operands, hobject]

theorem Effect.of_step {scope : Slot} {op : StepOp} {before : Bool} {name : String} {v : Value}
    {r : Ref} (hv : σ.lookup? scope name = some v) (hr : v.ref? = some r)
    {f : Cells → Value × Cells} (h : Eval.step op before name v = Eval.updateCells f)
    (hcells : ∀ ⦃other x⦄, other.read σ.cells = some x →
      other.read (f σ.cells).2 = some (if other = r then op.onScalar x else x))
    (hbefore : before = true → (f σ.cells).1 = v)
    (hbehind : before = false → ∀ new ∈ (f σ.cells).1.refs,
      new.read σ.cells = none ∧ ∃ x, new.read (f σ.cells).2 = some x) :
    Effect ⟨.step scope op before name, σ, roots⟩ := by
  have he : outcome ⟨.step scope op before name, σ, roots⟩ =
      (.ok (f σ.cells).1, { σ with cells := (f σ.cells).2 }) := by
    simp [outcome, Action.run, Eval.lookup, hv, h, Eval.updateCells]
  have htarget : target? ⟨.step scope op before name, σ, roots⟩ = some r := by
    simp [target?, hv, hr]
  refine ⟨fun other x hx => ?_, ?_, ?_⟩ <;> rw [he]
  · rw [htarget, hcells hx]
    simp only [Option.some.injEq, eq_comm, onTarget]
  · exact .of_retains (.withCells ..)
  · refine List.forall_mem_singleton.2 fun new hnew => ?_
    cases before with
    | true =>
      rw [hbefore rfl] at hnew
      exact .inr ⟨Bool.noConfusion, mem_refs_of_lookup? hv hnew⟩
    | false => exact .inl (hbehind rfl new hnew)

theorem step_effect (scope : Slot) (op : StepOp) (before : Bool) (name : String) :
    Effect ⟨.step scope op before name, σ, roots⟩ := by
  cases hv : σ.lookup? scope name with
  | none =>
    refine .of_failed (by simp [target?, hv]) (x := .variableNotDeclared name) ?_
    simp [outcome, Action.run, Eval.lookup, hv, Eval.fail]
  | some v =>
    cases hr : v.ref? with
    | none =>
      have hstep : Eval.step op before name v = Eval.fail (.notIncrementable name v.ty) := by
        cases v <;> cases hr <;> rfl
      refine .of_failed (by simp [target?, hv, hr]) (x := .notIncrementable name v.ty) ?_
      simp [outcome, Action.run, Eval.lookup, hv, hstep, Eval.fail]
    | some r =>
      cases v with
      | integer cell =>
        cases hr
        refine .of_step (f := (·.stepInteger op before cell)) hv rfl rfl
          (fun other x => σ.cells.read_stepInteger op before cell) ?_ ?_
        · rintro rfl
          rfl
        · rintro rfl new hnew
          exact σ.cells.read_of_stepInteger op cell hnew
      | float cell =>
        cases hr
        refine .of_step (f := (·.stepFloat op before cell)) hv rfl rfl
          (fun other x => σ.cells.read_stepFloat op before cell) ?_ ?_
        · rintro rfl
          rfl
        · rintro rfl new hnew
          exact σ.cells.read_of_stepFloat op cell hnew
      | _ => cases hr

theorem effect (e : Event) : e.Effect := by
  obtain ⟨a, σ, roots⟩ := e
  cases a with
  | lookup scope name => exact lookup_effect scope name
  | literal v => exact literal_effect v
  | unary op v => exact .of_alloc rfl (x := v.unary σ.cells op) rfl
  | binary op v u => exact .of_alloc rfl (x := Value.binary σ.cells op v u) rfl
  | assign scope name v => exact assign_effect scope name v
  | step scope op before name => exact step_effect scope op before name
  | member object ty name => exact member_effect object ty name
  | define scope receiver name v => exact define_effect scope receiver name v
  | func scope heading body => exact func_effect scope heading body
  | pass scope name v => exact .of_receives rfl rfl rfl (.bind σ scope name v fun _ => rfl)
  | openScope parent =>
    exact .of_receives rfl rfl (Store.openScope_cells σ parent) (.openScope σ parent)
  | close scope =>
    exact .of_receives rfl rfl (Store.close_cells σ roots scope) (.of_retains (.close ..))

end Event

end TypedScript
