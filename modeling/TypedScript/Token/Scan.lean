import TypedScript.Token.Escape
import TypedScript.Token.Pattern
import TypedScript.Diagnostic

namespace TypedScript.Token

def ofLexeme? : Pattern → List Char → Option (Kind × String)
  | .name, cs =>
    let word := String.ofList cs
    some ((Kind.ofReserved? word).getD .identifier, word)
  | .number, cs => some (if '.' ∈ cs then .float else .integer, String.ofList cs)
  | .quoted, cs => some (.string, String.ofList (Escape.decode (cs.drop 1).dropLast))
  | .fixed kind text, _ => some (kind, text)
  | .blank, _ => none
  | .comment, _ => none

/-- Scans from a byte offset, with the tokens found so far latest first. The first `inside`
characters belong to a lexeme that has been dealt with. -/
def scanFrom (file : String) : List Token → Nat → Nat → List Char → Except Diagnostic (List Token)
  | found, offset, _, [] => .ok (endAt (Source.positionAt file offset) :: found).reverse
  | found, offset, inside + 1, c :: cs => scanFrom file found (offset + c.utf8Size) inside cs
  | found, offset, 0, c :: cs =>
    match Pattern.first? (c :: cs) with
    | none => .error ⟨.unrecognisedToken (String.singleton c), Source.positionAt file offset⟩
    | some (pattern, lexeme) =>
      let found := match ofLexeme? pattern lexeme with
        | some (kind, value) =>
          ⟨kind, value, Source.spanAt file offset (Source.byteLength lexeme)⟩ :: found
        | none => found
      scanFrom file found (offset + c.utf8Size) (lexeme.length - 1) cs

def scan (source : String) (file : Option String) : Except Diagnostic (List Token) :=
  scanFrom (file.getD Source.defaultFile) [] 0 0 source.toList

end TypedScript.Token
