import TypedScript.Store.Reference

/-! Giving scopes back. A finished scope goes at once if nothing refers to it. Scopes that only
keep each other are found by a collection: what is idle stays only if something outside the
idle scopes leads to it. -/

namespace TypedScript

namespace Store

def giveBack (roots : Roots) : Nat → Slot → Store → Store
  | 0, _, σ => σ
  | n + 1, id, σ =>
    match σ.scope? id with
    | none => σ
    | some s =>
      if !s.active && s.children == 0 && !σ.isHeld roots s.stamp then
        let σ := (σ.vacate id).dropChild s.parent
        match s.parent with
        | none => σ
        | some parent => giveBack roots n parent σ
      else σ

structure Trail where
  seen : List Nat
  pending : List Nat

def Trail.add (size : Nat) (t : Trail) (index : Nat) : Trail :=
  if index < size ∧ index ∉ t.seen then ⟨index :: t.seen, index :: t.pending⟩ else t

def homes (v : Value) : List Nat := v.closures.map (·.home.slot.index)

def neighbours (s : Scope) : List Nat :=
  s.parent.toList.map Slot.index ++ s.bindings.values.flatMap homes

def follow (σ : Store) : Nat → Trail → List Nat
  | 0, t => t.seen
  | n + 1, t =>
    match t.pending with
    | [] => t.seen
    | index :: rest =>
      let found := match σ.scope? ⟨index⟩ with
        | none => []
        | some s => neighbours s
      follow σ n (found.foldl (Trail.add σ.slots.size) ⟨t.seen, rest⟩)

/-- The slots that a collection starts from: those of active scopes, of scopes with more holds
than the idle functions account for, and those that an idle function leads to which has more
references than the idle scopes account for. -/
def anchors (σ : Store) (roots : Roots) : List Nat :=
  let everything := Census.ofValues (σ.referenced roots)
  let idle := Census.ofValues σ.idleValues
  let accounted (index : Nat) : Nat :=
    (idle.values.filter (·.closure.home.slot.index == index)).length
  let scopes := σ.allocated.filter fun (index, s) =>
    s.active || accounted index < holds roots everything s.stamp
  let functions := idle.values.filter fun f => f.count < everything.countOf f.closure.id
  scopes.map (·.1) ++ functions.flatMap (homes ·.value)

def reachable (σ : Store) (roots : Roots) : List Nat :=
  follow σ σ.slots.size ((σ.anchors roots).foldl (Trail.add σ.slots.size) ⟨[], []⟩)

def collect (σ : Store) (roots : Roots) : Store :=
  let kept := σ.reachable roots
  let garbage := σ.allocated.filter fun (index, _) => !kept.contains index
  let σ := garbage.foldl (fun σ (index, _) => σ.vacate ⟨index⟩) σ
  let σ := garbage.foldl (fun σ (_, s) => σ.dropChild s.parent) σ
  { σ with collectAt := max (2 * σ.live) threshold }

def deactivate (σ : Store) (id : Slot) : Store :=
  σ.modifyScope id fun s => { s with active := false }

/-- Ends the activity of a scope, gives it back if nothing refers to it, and collects when it
is time. -/
def close (σ : Store) (roots : Roots) (id : Slot) : Store :=
  match σ.scope? id with
  | none => σ
  | some _ =>
    let σ := giveBack roots (σ.live + 1) id (σ.deactivate id)
    if σ.collectAt ≤ σ.live then σ.collect roots else σ

end Store

structure Reclaimer where
  close : Store → Roots → Slot → Store

namespace Reclaimer

def standard : Reclaimer := ⟨Store.close⟩

def never : Reclaimer := ⟨fun σ _ id => σ.deactivate id⟩

/-- Like `standard`, with a collection after every closing that leaves a store of a certain
kind. -/
def eager (due : Store → Bool) : Reclaimer :=
  ⟨fun σ roots id =>
    let σ := σ.close roots id
    if due σ then σ.collect roots else σ⟩

end Reclaimer

end TypedScript
