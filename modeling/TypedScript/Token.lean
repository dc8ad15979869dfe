import TypedScript.Source.Position

namespace TypedScript

inductive Token.Kind
  | eof
  | integer
  | float
  | string
  | identifier
  | openCurly
  | closeCurly
  | openParen
  | closeParen
  | assignment
  | equals
  | not
  | notEquals
  | less
  | lessEquals
  | greater
  | greaterEquals
  | or
  | and
  | dot
  | semicolon
  | colon
  | comma
  | arrow
  | plusPlus
  | minusMinus
  | plus
  | dash
  | slash
  | star
  | kwLet
  | kwFunc
  | kwReturn
  | kwIf
  | kwElse
  | kwWhile
  | kwType
  | kwTrue
  | kwFalse
  | kwNull
  deriving DecidableEq, Inhabited

def Token.Kind.ofReserved? : String → Option Token.Kind
  | "let" => some .kwLet
  | "func" => some .kwFunc
  | "return" => some .kwReturn
  | "if" => some .kwIf
  | "else" => some .kwElse
  | "while" => some .kwWhile
  | "type" => some .kwType
  | "true" => some .kwTrue
  | "false" => some .kwFalse
  | "null" => some .kwNull
  | _ => none

structure Token where
  kind : Token.Kind
  value : String
  span : Span
  deriving DecidableEq, Inhabited

namespace Token

def text (t : Token) : String :=
  match t.kind with
  | .eof => "end of file"
  | _ => t.value

def endAt (place : Position) : Token := ⟨.eof, "EOF", ⟨place, place⟩⟩

end Token

end TypedScript
