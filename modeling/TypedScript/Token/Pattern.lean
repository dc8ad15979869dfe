import TypedScript.Text.Blank
import TypedScript.Token

namespace TypedScript

inductive Pattern
  | name
  | number
  | blank
  | quoted
  | comment
  | fixed (kind : Token.Kind) (text : String)
  deriving DecidableEq

namespace Pattern

/-- The patterns in the order of trial: the first that matches is taken. -/
def table : List Pattern :=
  [name, number, blank, quoted, comment,
   fixed .openCurly "\x7b", fixed .closeCurly "\x7d", fixed .openParen "(", fixed .closeParen ")",
   fixed .equals "==", fixed .notEquals "!=", fixed .not "!", fixed .assignment "=",
   fixed .lessEquals "<=", fixed .less "<", fixed .greaterEquals ">=", fixed .greater ">",
   fixed .or "||", fixed .and "&&",
   fixed .dot ".", fixed .semicolon ";", fixed .colon ":", fixed .comma ",",
   fixed .plusPlus "++", fixed .arrow "->", fixed .minusMinus "--",
   fixed .plus "+", fixed .dash "-", fixed .slash "/", fixed .star "*"]

def isLetter (c : Char) : Bool := ('a' ≤ c && c ≤ 'z') || ('A' ≤ c && c ≤ 'Z') || c == '_'

def isDigit (c : Char) : Bool := '0' ≤ c && c ≤ '9'

def isWordChar (c : Char) : Bool := isLetter c || isDigit c

def quotedTail : List Char → Option (List Char)
  | [] => none
  | ['\\'] => none
  | '\\' :: c :: cs => if c = '\n' then none else (quotedTail cs).map ('\\' :: c :: ·)
  | c :: cs => if c = '"' then some [c] else (quotedTail cs).map (c :: ·)

def fractionOf : List Char → List Char
  | '.' :: cs => if (cs.takeWhile isDigit).isEmpty then [] else '.' :: cs.takeWhile isDigit
  | _ => []

def someText (cs : List Char) : Option (List Char) := if cs.isEmpty then none else some cs

def lexeme? : Pattern → List Char → Option (List Char)
  | name, cs =>
    match cs with
    | c :: rest => if isLetter c then some (c :: rest.takeWhile isWordChar) else none
    | [] => none
  | number, cs =>
    (someText (cs.takeWhile isDigit)).map (· ++ fractionOf (cs.dropWhile isDigit))
  | blank, cs => someText (cs.takeWhile Text.isBlank)
  | quoted, cs =>
    match cs with
    | '"' :: rest => (quotedTail rest).map ('"' :: ·)
    | _ => none
  | comment, cs =>
    match cs with
    | '/' :: '/' :: rest => some ('/' :: '/' :: rest.takeWhile (· ≠ '\n'))
    | _ => none
  | fixed _ text, cs => if text.toList.isPrefixOf cs then some text.toList else none

def first? (cs : List Char) : Option (Pattern × List Char) :=
  table.findSome? fun p => (p.lexeme? cs).map (p, ·)

end Pattern

end TypedScript
