import TypedScript.Context
import TypedScript.Parsing.Cursor

namespace TypedScript.Ty

open Parse Cursor

def resolve (Γ : Context) (name : Token) : Parse Cursor Ty :=
  match Γ.typeNamed name.value name.span.start with
  | .ok ty => pure ty
  | .error d => fail d

def parseName (Γ : Context) : Parse Cursor Ty := do
  let name ← expect .identifier
  resolve Γ name

mutual
def parseAt : Nat → Context → Parse Cursor Ty
  | 0, _ => exhausted
  | n + 1, Γ => do
    match ← currentKind with
    | .identifier => parseName Γ
    | .kwFunc => parseFunctionAt n Γ
    | _ => refuse "expected a type"

def parseFunctionAt : Nat → Context → Parse Cursor Ty
  | 0, _ => exhausted
  | n + 1, Γ => do
    let _ ← expect .kwFunc
    let _ ← expect .openParen
    let parameters ← parseListAt n Γ
    let _ ← expect .closeParen
    let result ← parseResultAt n Γ
    return .func parameters result

def parseListAt : Nat → Context → Parse Cursor (List Ty)
  | 0, _ => exhausted
  | n + 1, Γ => do
    if (← currentKind) = .closeParen then return []
    else
      let ty ← parseAt n Γ
      if (← currentKind) = .closeParen then return [ty]
      else
        let _ ← expect .comma
        let rest ← parseListAt n Γ
        return ty :: rest

def parseResultAt : Nat → Context → Parse Cursor Ty
  | 0, _ => exhausted
  | n + 1, Γ => do
    if (← currentKind) = .arrow then
      let _ ← advance
      parseAt n Γ
    else return .void
end

end TypedScript.Ty
