import TypedScript.Diagnostic
import TypedScript.Dict
import TypedScript.Ty.Basic

namespace TypedScript

structure StaticScope where
  names : Dict String Ty
  returns : Option Ty

/-- All that is known at a place of the program. There is always a scope, so the outermost one
cannot be closed. -/
structure Context where
  current : StaticScope
  enclosing : List StaticScope
  types : Dict String Ty
  members : Dict (Ty × String) Ty

namespace Context

def initial : Context where
  current := ⟨.empty, none⟩
  enclosing := []
  types := ⟨["int", "float", "string", "bool", "void"].filterMap
    fun name => (Ty.builtin? name).map (name, ·)⟩
  members := .empty

def scopes (Γ : Context) : List StaticScope := Γ.current :: Γ.enclosing

def depth (Γ : Context) : Nat := Γ.scopes.length

def enter (Γ : Context) : Context :=
  { Γ with current := ⟨.empty, Γ.current.returns⟩, enclosing := Γ.scopes }

def enterFunction (Γ : Context) (result : Ty) : Context :=
  { Γ with current := ⟨.empty, some result⟩, enclosing := Γ.scopes }

def leave (Γ : Context) : Context :=
  match Γ.enclosing with
  | [] => Γ
  | s :: ss => { Γ with current := s, enclosing := ss }

def local? (Γ : Context) (name : String) : Option Ty := Γ.current.names.get? name

def typeOf? (Γ : Context) (name : String) : Option Ty :=
  Γ.scopes.findSome? (·.names.get? name)

def returning? (Γ : Context) : Option Ty := Γ.current.returns

def bind (Γ : Context) (name : String) (ty : Ty) (place : Position) :
    Except Diagnostic Context :=
  if (Γ.local? name).isSome then .error ⟨.variableAlreadyDeclared name, place⟩
  else .ok { Γ with current := { Γ.current with names := Γ.current.names.insert name ty } }

def declareType (Γ : Context) (name : String) (place : Position) :
    Except Diagnostic (Ty × Context) :=
  if Γ.types.contains name then .error ⟨.typeAlreadyDeclared name, place⟩
  else .ok (.named name, { Γ with types := Γ.types.insert name (.named name) })

def typeNamed (Γ : Context) (name : String) (place : Position) : Except Diagnostic Ty :=
  match Γ.types.get? name with
  | some ty => .ok ty
  | none => .error ⟨.unknownType name, place⟩

def bindMember (Γ : Context) (receiver : Ty) (name : String) (ty : Ty) (place : Position) :
    Except Diagnostic Context :=
  if Γ.members.contains (receiver, name) then
    .error ⟨.memberAlreadyDeclared receiver.text name, place⟩
  else .ok { Γ with members := Γ.members.insert (receiver, name) ty }

def memberType? (Γ : Context) (receiver : Ty) (name : String) : Option Ty :=
  Γ.members.get? (receiver, name)

@[simp] theorem leave_enter (Γ : Context) : Γ.enter.leave = Γ := rfl

@[simp] theorem leave_enterFunction (Γ : Context) (result : Ty) :
    (Γ.enterFunction result).leave = Γ := rfl

@[simp] theorem depth_enter (Γ : Context) : Γ.enter.depth = Γ.depth + 1 := rfl

@[simp] theorem depth_enterFunction (Γ : Context) (result : Ty) :
    (Γ.enterFunction result).depth = Γ.depth + 1 := rfl

end Context

end TypedScript
