import TypedScript.Parsing.Reply
import TypedScript.Token

namespace TypedScript

/-- A place in a list of tokens. The tokens before it are kept latest first; the last token of
the list is never passed. -/
structure Cursor where
  passed : List Token
  current : Token
  ahead : List Token
  reported : List Diagnostic

namespace Cursor

def start : List Token → Token → Cursor
  | [], last => ⟨[], last, [], []⟩
  | t :: ts, last => ⟨[], t, ts ++ [last], []⟩

/-- The cursor at the first token. If the list does not end in an end token, one is added where
the last token ends. -/
def ofTokens (tokens : List Token) : Cursor :=
  match tokens.getLast? with
  | none => start [] (.endAt .nowhere)
  | some last =>
    if last.kind = .eof then start tokens.dropLast last
    else start tokens (.endAt last.span.stop)

def index (s : Cursor) : Nat := s.passed.length

def kind (s : Cursor) : Token.Kind := s.current.kind

def next (s : Cursor) : Cursor :=
  match s.ahead with
  | [] => s
  | t :: ts => { s with passed := s.current :: s.passed, current := t, ahead := ts }

def atEnd (s : Cursor) : Bool := s.kind = .eof

def place (s : Cursor) : Position := s.current.span.start

def passedEnd (s : Cursor) : Position :=
  match s.passed with
  | [] => s.place
  | t :: _ => t.span.stop

def since (s : Cursor) (start : Position) : Span := ⟨start, s.passedEnd⟩

def report (s : Cursor) (d : Diagnostic) : Cursor := { s with reported := s.reported ++ [d] }

def misplaced (s : Cursor) (message : String) : Diagnostic :=
  ⟨.unexpectedTokenDetailed s.current.text message, s.place⟩

/-- Fuel for reading the rest of the tokens: no parser nests more than a few calls deep
without passing a token. -/
def fuel (s : Cursor) : Nat := 16 * (s.ahead.length + 2)

def skip (reported : List Diagnostic) : Nat → List Token → Token → List Token → Cursor
  | _, passed, current, [] => ⟨passed, current, [], reported⟩
  | depth, passed, current, t :: ts =>
    match current.kind, depth with
    | .eof, _ => ⟨passed, current, t :: ts, reported⟩
    | .semicolon, 0 => ⟨current :: passed, t, ts, reported⟩
    | .closeCurly, 0 => ⟨passed, current, t :: ts, reported⟩
    | .closeCurly, 1 => ⟨current :: passed, t, ts, reported⟩
    | .closeCurly, depth + 2 => skip reported (depth + 1) (current :: passed) t ts
    | .openCurly, depth => skip reported (depth + 1) (current :: passed) t ts
    | _, depth => skip reported depth (current :: passed) t ts

/-- Skips the rest of a malformed statement: to behind the next `;` outside braces, to behind
the brace that closes a nested block, or to before one that closes a block around it. -/
def skipStatement (s : Cursor) : Cursor := skip s.reported 0 s.passed s.current s.ahead

/-- Notes a fault and skips the statement that began with `start` tokens passed. Something is
always skipped. -/
def recover (s : Cursor) (start : Nat) (d : Diagnostic) : Cursor :=
  let t := (s.report d).skipStatement
  if t.index = start then t.next else t

open Parse

def advance : Parse Cursor Token := fun s => .ok s.current s.next

def expectOr (kind : Token.Kind) (d : Diagnostic) : Parse Cursor Token := fun s =>
  if s.kind = kind then advance s else .error d s

def expect (kind : Token.Kind) : Parse Cursor Token := fun s =>
  expectOr kind ⟨.unexpectedToken s.current.text, s.place⟩ s

def demand (kind : Token.Kind) (message : String) : Parse Cursor Token := fun s =>
  expectOr kind (s.misplaced message) s

def refuse {α : Type} (message : String) : Parse Cursor α := fun s => .error (s.misplaced message) s

def currentKind : Parse Cursor Token.Kind := fun s => .ok s.kind s

def reporting (d : Diagnostic) : Parse Cursor Unit := fun s => .ok () (s.report d)

def spanSince (start : Position) : Parse Cursor Span := fun s => .ok (s.since start) s

@[simp] theorem advance_apply (s : Cursor) : advance s = .ok s.current s.next := rfl

@[simp] theorem currentKind_apply (s : Cursor) : currentKind s = .ok s.kind s := rfl

@[simp] theorem reporting_apply (d : Diagnostic) (s : Cursor) :
    reporting d s = .ok () (s.report d) := rfl

@[simp] theorem spanSince_apply (start : Position) (s : Cursor) :
    spanSince start s = .ok (s.since start) s := rfl

end Cursor

end TypedScript
