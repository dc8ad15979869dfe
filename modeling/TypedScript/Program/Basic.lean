import TypedScript.Stmt.Parser
import TypedScript.Token.Scan

namespace TypedScript

structure Program where
  statements : List Stmt
  context : Context

namespace Program

open Parse Reader

def parseStatementsAt : Nat → Parse Reader (List Stmt)
  | 0 => exhausted
  | n + 1 => do
    match ← onCursor Cursor.currentKind with
    | .eof => return []
    | .semicolon =>
      let _ ← onCursor Cursor.advance
      parseStatementsAt n
    | _ =>
      let statement ← Stmt.parseAt n
      let rest ← parseStatementsAt n
      return statement.toList ++ rest

/-- Reads a program in a context. Statements that could not be read or accepted are left out
and reported; the program is sound only if nothing was reported. The fuel is enough for every
list of tokens, so the last case does not arise; it refuses the program. -/
def ofTokens (tokens : List Token) (Γ : Context) : Program × List Diagnostic :=
  let reader : Reader := ⟨Cursor.ofTokens tokens, Γ⟩
  match parseStatementsAt reader.fuel reader with
  | .ok statements r => (⟨statements, r.context⟩, r.cursor.reported)
  | .error d r => (⟨[], r.context⟩, r.cursor.reported ++ [d])
  | .exhausted => (⟨[], Γ⟩, [⟨.unclosedBlock, reader.cursor.place⟩])

def parse (source : String) (file : Option String) : Program × List Diagnostic :=
  match Token.scan source file with
  | .ok tokens => ofTokens tokens .initial
  | .error d => (⟨[], .initial⟩, [d])

end Program

end TypedScript
