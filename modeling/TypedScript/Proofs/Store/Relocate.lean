import TypedScript.Proofs.Dict
import TypedScript.Proofs.Value.Relocate
import TypedScript.Store.Reclaim

namespace TypedScript

instance : Placed Slot := ⟨fun _ id => id⟩

def Member.relocate (ρ : Relocation) : Member → Member
  | .field v => .field (v.relocate ρ)
  | .method f receiver => .method (f.relocate ρ) (receiver.map (Value.relocate ρ))

def Scope.relocate (ρ : Relocation) (s : Scope) : Scope :=
  { s with bindings := s.bindings.mapValues (Value.relocate ρ) }

namespace Store

def relocate (ρ : Relocation) (σ : Store) : Store :=
  { σ with
    slots := σ.slots.map (Option.map (Scope.relocate ρ))
    members := σ.members.mapValues (Member.relocate ρ) }

instance : Placed Store := ⟨relocate⟩

variable (ρ : Relocation) (σ : Store)

@[simp] theorem relocate_initial : initial.relocate ρ = initial := by
  simp only [relocate, initial, List.map_toArray, List.map_cons, List.map_nil]
  rfl

@[simp] theorem cells_relocate : (σ.relocate ρ).cells = σ.cells := rfl

theorem scope?_relocate (id : Slot) :
    (σ.relocate ρ).scope? id = (σ.scope? id).map (Scope.relocate ρ) := by
  simp only [scope?, relocate, Array.getElem?_map]
  cases σ.slots[id.index]? <;> rfl

theorem modifyScope_relocate (id : Slot) {f g : Scope → Scope}
    (h : ∀ s, g (s.relocate ρ) = (f s).relocate ρ) :
    (σ.relocate ρ).modifyScope id g = (σ.modifyScope id f).relocate ρ := by
  have hslots : (σ.slots.map (Option.map (Scope.relocate ρ))).modify id.index (Option.map g) =
      (σ.slots.modify id.index (Option.map f)).map (Option.map (Scope.relocate ρ)) := by
    refine Array.ext_getElem? fun i => ?_
    rw [Array.getElem?_modify, Array.getElem?_map, Array.getElem?_map, Array.getElem?_modify]
    split
    · rcases σ.slots[i]? with _ | _ | s
      · rfl
      · rfl
      · exact congrArg (some ∘ some) (h s)
    · rfl
  rw [modifyScope, modifyScope, relocate, relocate, hslots]

theorem deactivate_relocate (id : Slot) :
    (σ.relocate ρ).deactivate id = (σ.deactivate id).relocate ρ :=
  σ.modifyScope_relocate ρ id fun _ => rfl

theorem bind_relocate (id : Slot) (x : String) (v : Value) :
    (σ.relocate ρ).bind id x (v.relocate ρ) = (σ.bind id x v).relocate ρ :=
  σ.modifyScope_relocate ρ id fun s => by rw [Scope.relocate, Scope.relocate, Dict.mapValues_insert]

theorem openScope_relocate (parent : Slot) :
    (σ.relocate ρ).openScope parent = Placed.relocate ρ (σ.openScope parent) := by
  have hparent :
      (σ.relocate ρ).modifyScope parent (fun s => { s with children := s.children + 1 }) =
        (σ.modifyScope parent fun s => { s with children := s.children + 1 }).relocate ρ :=
    σ.modifyScope_relocate ρ parent fun _ => rfl
  simp only [openScope, hparent]
  generalize σ.modifyScope parent _ = τ
  have hscope : some ⟨.empty, some parent, true, 0, τ.fresh⟩ =
      Option.map (Scope.relocate ρ) (some ⟨.empty, some parent, true, 0, τ.fresh⟩) := rfl
  cases hfree : τ.free with
  | nil =>
    simp only [relocate, hfree]
    rw [hscope, ← Array.map_push, Array.size_map]
    rfl
  | cons index free =>
    simp only [relocate, hfree]
    rw [hscope, ← Array.map_setIfInBounds]
    rfl

theorem newClosure_relocate (parameters : List String) (body : Block) (signature : Signature)
    (id : Slot) : (σ.relocate ρ).newClosure parameters (body.relocate ρ) signature id =
      Placed.relocate ρ (σ.newClosure parameters body signature id) := by
  rw [newClosure, newClosure, handleFor, handleFor, scope?_relocate]
  cases σ.scope? id <;> rfl

theorem setField_relocate (t : Ty) (x : String) (v : Value) :
    (σ.relocate ρ).setField t x (v.relocate ρ) = (σ.setField t x v).relocate ρ := by
  simp only [setField, relocate, Dict.mapValues_insert, Member.relocate]

theorem setMethod_relocate (t : Ty) (x : String) (f : Closure) :
    (σ.relocate ρ).setMethod t x (f.relocate ρ) none = (σ.setMethod t x f none).relocate ρ := by
  simp only [setMethod, relocate, Dict.mapValues_insert, Member.relocate, Option.map_none]

theorem member?_relocate (receiver : Value) (t : Ty) (x : String) :
    (σ.relocate ρ).member? (receiver.relocate ρ) t x =
      Placed.relocate ρ (σ.member? receiver t x) := by
  have hget : (σ.relocate ρ).members.get? (t, x) =
      (σ.members.get? (t, x)).map (Member.relocate ρ) := Dict.get?_mapValues ..
  rw [member?, member?, hget]
  rcases σ.members.get? (t, x) with _ | _ | _ <;> rfl

theorem binderFrom_relocate (x : String) (n : Nat) (id : Slot) :
    (σ.relocate ρ).binderFrom x n id = σ.binderFrom x n id := by
  induction n generalizing id with
  | zero => rfl
  | succ n ih =>
    rw [binderFrom, binderFrom, scope?_relocate]
    cases σ.scope? id with
    | none => rfl
    | some s =>
      simp only [Option.map_some, Scope.relocate, Dict.contains_mapValues, ih]

theorem binder?_relocate (id : Slot) (x : String) :
    (σ.relocate ρ).binder? id x = σ.binder? id x := by
  rw [binder?, binder?, binderFrom_relocate]
  exact congrArg (σ.binderFrom x · id) Array.size_map

theorem lookup?_relocate (id : Slot) (x : String) :
    (σ.relocate ρ).lookup? id x = Placed.relocate ρ (σ.lookup? id x) := by
  rw [lookup?, lookup?, binder?_relocate]
  cases σ.binder? id x with
  | none => rfl
  | some found =>
    dsimp only
    rw [scope?_relocate]
    cases σ.scope? found with
    | none => rfl
    | some s => exact Dict.get?_mapValues ..

end Store

end TypedScript
