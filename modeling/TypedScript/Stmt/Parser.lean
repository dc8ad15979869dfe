import TypedScript.Expr.Parser
import TypedScript.Stmt.Basic

/-! Reading and checking statements. A statement that cannot be read is reported and skipped;
one that can be read but not accepted is reported and left out. -/

namespace TypedScript

structure Reader where
  cursor : Cursor
  context : Context

namespace Reader

open Parse

def reading {α : Type} (p : Context → Parse Cursor α) : Parse Reader α := fun s =>
  match p s.context s.cursor with
  | .ok a c => .ok a { s with cursor := c }
  | .error d c => .error d { s with cursor := c }
  | .exhausted => .exhausted

def onCursor {α : Type} (p : Parse Cursor α) : Parse Reader α := reading fun _ => p

def inScope {α : Type} (enter : Context → Context) (p : Parse Reader α) : Parse Reader α := fun s =>
  match p { s with context := enter s.context } with
  | .ok a t => .ok a { t with context := t.context.leave }
  | .error d t => .error d { t with context := t.context.leave }
  | .exhausted => .exhausted

/-- Goes on in the context that a declaration gives, or reports why there is none. The answer
tells whether there was one. -/
def declaring (f : Context → Except Diagnostic Context) : Parse Reader Bool := fun s =>
  match f s.context with
  | .ok Γ => .ok true { s with context := Γ }
  | .error d => .ok false { s with cursor := s.cursor.report d }

def report (d : Diagnostic) : Parse Reader Unit := onCursor (Cursor.reporting d)

def fuel (s : Reader) : Nat := s.cursor.fuel

end Reader

namespace Stmt

open Parse Reader

def declare (receiver : Option Ty) (name : Token) (ty : Ty) (Γ : Context) :
    Except Diagnostic Context :=
  match receiver with
  | some r => Γ.bindMember r name.value ty name.span.start
  | none => Γ.bind name.value ty name.span.start

def parseDeclared (what : String) (Γ : Context) : Parse Cursor (Option Ty × Token) := do
  let first ← Cursor.demand .identifier ("expected identifier in " ++ what)
  if (← Cursor.currentKind) = .dot then
    let _ ← Cursor.advance
    let receiver ← Ty.resolve Γ first
    let member ← Cursor.demand .identifier "expected member name"
    return (some receiver, member)
  else return (none, first)

def parseExprStmt (n : Nat) (Γ : Context) : Parse Cursor Stmt := do
  let e ← Expr.parseAt n Γ .default
  let _ ← Cursor.demand .semicolon "expected `;` after expression"
  let span ← Cursor.spanSince e.span.start
  return .expr e span

def parseAscription (n : Nat) (Γ : Context) : Parse Cursor (Option Ty) := do
  if (← Cursor.currentKind) = .colon then
    let _ ← Cursor.advance
    let ty ← Ty.parseAt n Γ
    return some ty
  else return none

def parseInitial (n : Nat) (annotated : Bool) (Γ : Context) : Parse Cursor (Option Expr) := do
  if (← Cursor.currentKind) = .assignment then
    let _ ← Cursor.advance
    let e ← Expr.parseAt n Γ .default
    return some e
  else if annotated then return none
  else fun s => .error ⟨.expectedExplicitValue, s.place⟩ s

structure Definition where
  receiver : Option Ty
  name : Token
  annotation : Option Ty
  value : Expr
  span : Span

def parseDefinition (n : Nat) (Γ : Context) : Parse Cursor Definition := do
  let keyword ← Cursor.advance
  let (receiver, name) ← parseDeclared "let statement" Γ
  let annotation ← parseAscription n Γ
  let value ← parseInitial n annotation.isSome Γ
  let _ ← Cursor.demand .semicolon "expected `;` after let statement"
  let span ← Cursor.spanSince keyword.span.start
  return ⟨receiver, name, annotation, value.getD (.literal ⟨.never, span⟩ .null), span⟩

def Definition.check (d : Definition) : Ty × Option Diagnostic :=
  match d.annotation with
  | some ty =>
    if d.value.ty.assignable ty then (ty, none)
    else (ty, some ⟨.notAssignable ty.text d.value.ty.text, d.value.span.start⟩)
  | none =>
    if d.value.isNull then (.never, some ⟨.cannotInferType d.name.value, d.name.span.start⟩)
    else (d.value.ty, none)

def reportSome : Option Diagnostic → Parse Reader Unit
  | some d => report d
  | none => pure ()

/-- The name is bound even if the definition is refused, so that its uses are not reported
too. -/
def parseLet (n : Nat) : Parse Reader (Option Stmt) := do
  let d ← reading (parseDefinition n)
  let (ty, fault) := d.check
  reportSome fault
  let declared ← declaring (declare d.receiver d.name ty)
  return if declared && fault.isNone then
    some (.define d.name.value ty d.value d.receiver d.span) else none

def parseReturned (n : Nat) (keyword : Token) (Γ : Context) : Parse Cursor Expr := do
  if (← Cursor.currentKind) = .semicolon then return .literal ⟨.void, keyword.span⟩ .void
  else Expr.parseAt n Γ .default

/-- A mistyped `return` is kept, so that the function is not said to lack one. -/
def parseReturn (n : Nat) (Γ : Context) : Parse Cursor (Option Stmt) := do
  let keyword ← Cursor.advance
  let value ← parseReturned n keyword Γ
  let _ ← Cursor.demand .semicolon "expected `;` after return statement"
  let span ← Cursor.spanSince keyword.span.start
  match Γ.returning? with
  | none =>
    Cursor.reporting ⟨.returnOutsideFunction, span.start⟩
    return none
  | some expected =>
    if value.ty.assignable expected then return some (.ret value span)
    else
      Cursor.reporting ⟨.notAssignable expected.text value.ty.text, value.span.start⟩
      return some (.ret value span)

def parseParametersAt : Nat → Context → Parse Cursor (List Parameter)
  | 0, _ => exhausted
  | n + 1, Γ => do
    if (← Cursor.currentKind) = .closeParen then return []
    else
      let name ← Cursor.demand .identifier "expected parameter name"
      let _ ← Cursor.expect .colon
      let ty ← Ty.parseAt n Γ
      if (← Cursor.currentKind) = .closeParen then return [⟨name.value, ty⟩]
      else
        let _ ← Cursor.demand .comma "expected `,` or `)` in parameter list"
        let rest ← parseParametersAt n Γ
        return ⟨name.value, ty⟩ :: rest

def parseHeading (n : Nat) (Γ : Context) : Parse Cursor (Token × Token × Heading) := do
  let keyword ← Cursor.advance
  let (receiver, name) ← parseDeclared "function definition" Γ
  let _ ← Cursor.expect .openParen
  let parameters ← parseParametersAt n Γ
  let _ ← Cursor.expect .closeParen
  let result ← Ty.parseResultAt n Γ
  return (keyword, name, ⟨name.value, receiver, parameters, ⟨parameters.map Parameter.ty, result⟩⟩)

def bindAll : List (String × Ty) → Parse Reader Unit
  | [] => pure ()
  | (name, ty) :: rest => do
    let _ ← fun s => declaring (·.bind name ty s.cursor.place) s
    bindAll rest

def parseTypeDecl : Parse Reader (Option Stmt) := do
  let keyword ← onCursor Cursor.advance
  let name ← onCursor (Cursor.demand .identifier "expected type name")
  let _ ← onCursor (Cursor.demand .semicolon "expected `;` after type definition")
  let declared ← declaring fun Γ => (Γ.declareType name.value name.span.start).map Prod.snd
  let span ← onCursor (Cursor.spanSince keyword.span.start)
  return if declared then some (.typeDecl name.value span) else none

inductive Form
  | expression
  | define
  | ret
  | func
  | block
  | cond
  | loop
  | typeDecl
  deriving DecidableEq

def Form.ofKind : Token.Kind → Form
  | .kwLet => define
  | .kwReturn => ret
  | .kwFunc => func
  | .openCurly => block
  | .kwIf => cond
  | .kwWhile => loop
  | .kwType => typeDecl
  | _ => expression

def recovering (p : Parse Reader (Option Stmt)) : Parse Reader (Option Stmt) := fun s =>
  match p s with
  | .error d t => .ok none { t with cursor := t.cursor.recover s.cursor.index d }
  | reply => reply

mutual
/-- One statement. It is missing if it had to be left out; a diagnostic then says why. -/
def parseAt : Nat → Parse Reader (Option Stmt)
  | 0 => exhausted
  | n + 1 => recovering do
    parseFormAt n (Form.ofKind (← onCursor Cursor.currentKind))

def parseFormAt : Nat → Form → Parse Reader (Option Stmt)
  | 0, _ => exhausted
  | n + 1, form =>
    match form with
    | .expression => some <$> reading (parseExprStmt n)
    | .define => parseLet n
    | .ret => reading (parseReturn n)
    | .func => parseFuncAt n
    | .block => (some ∘ Stmt.block) <$> parseBlockAt n
    | .cond => parseCondAt n
    | .loop => parseLoopAt n
    | .typeDecl => parseTypeDecl

def parseFuncAt : Nat → Parse Reader (Option Stmt)
  | 0 => exhausted
  | n + 1 => do
    let (keyword, name, heading) ← reading (parseHeading n)
    let declared ← declaring (declare heading.receiver name heading.signature.toTy)
    let body ← inScope (·.enterFunction heading.signature.result) (parseBodyAt n heading)
    reportSome (if heading.signature.result ≠ .void ∧ body.alwaysReturns = false then
      some ⟨.missingReturn heading.name, name.span.start⟩ else none)
    let span ← onCursor (Cursor.spanSince keyword.span.start)
    return if declared then some (.func heading body span) else none

def parseBodyAt : Nat → Heading → Parse Reader Block
  | 0, _ => exhausted
  | n + 1, heading => do
    bindAll heading.bindings
    parseBlockAt n

def parseBlockAt : Nat → Parse Reader Block
  | 0 => exhausted
  | n + 1 => do
    let opening ← onCursor (Cursor.demand .openCurly "expected `\x7b`")
    let statements ← inScope Context.enter (parseStatementsAt n)
    let span ← onCursor (Cursor.spanSince opening.span.start)
    return .mk statements span

def parseStatementsAt : Nat → Parse Reader (List Stmt)
  | 0 => exhausted
  | n + 1 => do
    match ← onCursor Cursor.currentKind with
    | .closeCurly =>
      let _ ← onCursor (Cursor.expect .closeCurly)
      return []
    | .eof => fun s => .error ⟨.unclosedBlock, s.cursor.place⟩ s
    | .semicolon =>
      let _ ← onCursor Cursor.advance
      parseStatementsAt n
    | _ =>
      let statement ← parseAt n
      let rest ← parseStatementsAt n
      return statement.toList ++ rest

def parseBranchAt : Nat → Parse Reader (Option Stmt)
  | 0 => exhausted
  | n + 1 => inScope Context.enter (parseAt n)

def parseElseAt : Nat → Parse Reader (Option (Option Stmt))
  | 0 => exhausted
  | n + 1 => do
    if (← onCursor Cursor.currentKind) = .kwElse then
      let _ ← onCursor Cursor.advance
      let branch ← parseBranchAt n
      return some branch
    else return none

def parseCondAt : Nat → Parse Reader (Option Stmt)
  | 0 => exhausted
  | n + 1 => do
    let keyword ← onCursor Cursor.advance
    let condition ← reading fun Γ => Expr.parseAt n Γ .default
    let yes ← parseBranchAt n
    let no ← parseElseAt n
    let span ← onCursor (Cursor.spanSince keyword.span.start)
    return match yes, no with
      | some yes, none => some (.cond condition yes none span)
      | some yes, some (some no) => some (.cond condition yes (some no) span)
      | _, _ => none

def parseLoopAt : Nat → Parse Reader (Option Stmt)
  | 0 => exhausted
  | n + 1 => do
    let keyword ← onCursor Cursor.advance
    let condition ← reading fun Γ => Expr.parseAt n Γ .default
    let body ← parseBranchAt n
    let span ← onCursor (Cursor.spanSince keyword.span.start)
    return body.map (.loop condition · span)
end

end Stmt

end TypedScript
