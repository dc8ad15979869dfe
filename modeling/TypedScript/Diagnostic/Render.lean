import TypedScript.Diagnostic
import TypedScript.Source.Line
import TypedScript.Text.Blank

namespace TypedScript.Diagnostic

def isIndent (c : Char) : Bool := c == ' ' || c == '\t'

def padLeft (fill : Char) (width : Nat) (c : Char) : String :=
  String.ofList (List.replicate (width - 1) fill ++ [c])

def header (d : Diagnostic) : String :=
  let about := match d.fault.tip with
    | none => ""
    | some tip => " (" ++ tip ++ ")"
  "Error: " ++ d.fault.name ++ about ++ "\n" ++ "-> " ++ d.position.file ++ "\n"

def excerpt (line : Source.Line) : String :=
  let number := toString line.number
  let margin := padLeft ' ' (number.length + 2) '|'
  let shown := line.text.dropWhile isIndent
  let removed := Source.byteLength (line.text.takeWhile isIndent)
  margin ++ "\n"
    ++ number ++ " | " ++ String.ofList (Text.trimEnd shown) ++ "\n"
    ++ margin ++ " " ++ padLeft '-' (line.column - removed + 1) '^' ++ "\n"

/-- The diagnostic as it is shown to a reader of `source`. Where the place lies outside the
text the message stands in for the line. -/
def render (d : Diagnostic) (source : String) : String :=
  d.header ++ match Source.lineAt? source d.position.offset with
    | some line => excerpt line
    | none => "   " ++ d.fault.message ++ "\n"

end TypedScript.Diagnostic
