import TypedScript.Decimal.Text
import TypedScript.Expr.Basic
import TypedScript.Parsing.Power
import TypedScript.Ty.Parser

/-! Reading and typing expressions, by binding power. A typing fault is reported and the node
gets the type `never`, which keeps the expressions around it quiet. -/

namespace TypedScript.Expr

open Parse Cursor

def mistyped (fault : Fault) (span : Span) : Parse Cursor Ty := do
  reporting ⟨fault, span.start⟩
  return .never

def unexpectedToken (token : Token) : Diagnostic :=
  ⟨.unexpectedToken token.text, token.span.start⟩

def numberFault (token : Token) : Diagnostic :=
  ⟨.numberParse token.value, token.span.start⟩

def typeOfName (Γ : Context) (name : String) (span : Span) : Parse Cursor Ty :=
  match Γ.typeOf? name with
  | some ty => pure ty
  | none => mistyped (.variableNotDeclared name) span

def parsePrimary (Γ : Context) : Parse Cursor Expr := do
  let token ← advance
  let span := token.span
  match token.kind with
  | .integer =>
    match Decimal.readInteger? token.value with
    | some i => return .literal ⟨.int, span⟩ (.integer i)
    | none => fail (numberFault token)
  | .float =>
    match Decimal.readFloat? token.value with
    | some x => return .literal ⟨.float, span⟩ (.float x)
    | none => fail (numberFault token)
  | .string => return .literal ⟨.string, span⟩ (.string token.value)
  | .kwTrue => return .literal ⟨.bool, span⟩ (.boolean true)
  | .kwFalse => return .literal ⟨.bool, span⟩ (.boolean false)
  | .kwNull => return .literal ⟨.never, span⟩ .null
  | .identifier =>
    let ty ← typeOfName Γ token.value span
    return .name ⟨ty, span⟩ token.value
  | _ => fail (unexpectedToken token)

def typeUnary (op : UnaryOp) (operand : Expr) (span : Span) : Parse Cursor Ty :=
  match op with
  | .not => pure .bool
  | .negate =>
    if operand.ty.isNumeric || operand.isFaulty then pure operand.ty
    else mistyped (.unaryOperatorMismatch op.symbol operand.tyName) span

def typeBinary (op : BinaryOp) (left right : Expr) (span : Span) : Parse Cursor Ty :=
  let nullOperand := (left.isNull || right.isNull) && !op.isUniversal
  match op.resultTy? left.ty right.ty, nullOperand with
  | some ty, false => pure ty
  | _, _ => mistyped (.operatorMismatch op.symbol left.tyName right.tyName) span

def typeAssign (target value : Expr) : Parse Cursor Ty :=
  if target.isFaulty || value.ty.assignable target.ty then pure target.ty
  else mistyped (.notAssignable target.ty.text value.ty.text) value.span

def typeStep (target : Expr) (span : Span) : Parse Cursor Ty :=
  if target.ty.isNumeric || target.isFaulty then pure target.ty
  else mistyped (.notIncrementable target.ty.text) span

def arityFaults (expected received : Nat) : List Fault :=
  if expected < received then [.unexpectedArguments expected received]
  else if received < expected then [.missingArguments expected received]
  else []

def argumentFaults (parameters : List Ty) (arguments : List Expr) (place : Position) :
    List Diagnostic :=
  (arityFaults parameters.length arguments.length).map (⟨·, place⟩) ++
    (parameters.zip arguments).filterMap fun (parameter, argument) =>
      if argument.ty.assignable parameter then none
      else some ⟨.argumentMismatch parameter.text argument.ty.text, argument.span.start⟩

def reportAll : List Diagnostic → Parse Cursor Unit
  | [] => pure ()
  | d :: ds => do
    reporting d
    reportAll ds

def typeCall (callee : Expr) (arguments : List Expr) (span : Span) : Parse Cursor Ty :=
  match callee.ty with
  | .func parameters result => do
    reportAll (argumentFaults parameters arguments span.start)
    return result
  | _ =>
    if callee.isFaulty then pure .never
    else mistyped (.notCallable callee.tyName) span

def typeMember (Γ : Context) (object : Expr) (member : String) (span : Span) : Parse Cursor Ty :=
  if object.isFaulty then pure .never
  else match Γ.memberType? object.ty member with
    | some ty => pure ty
    | none => mistyped (.unknownMember object.tyName member) span

def asName? : Expr → Option String
  | .name _ x => some x
  | _ => none

def parseStep (operator : Token) (target : Expr) (before : Bool) (span : Span) :
    Parse Cursor Expr :=
  match StepOp.ofKind? operator.kind with
  | none => refuse "expected `++` or `--`"
  | some op =>
    match target.asName? with
    | none => fail ⟨.invalidAssignmentTarget, target.span.start⟩
    | some x => do
      let ty ← typeStep target span
      return .step ⟨ty, span⟩ op before x

def parseStepAfter (left : Expr) : Parse Cursor Expr := do
  let operator ← advance
  parseStep operator left false ⟨left.span.start, operator.span.stop⟩

def parseMember (Γ : Context) (left : Expr) : Parse Cursor Expr := do
  let _ ← advance
  let member ← demand .identifier "expected a member name"
  let span ← spanSince left.span.start
  let ty ← typeMember Γ left member.value span
  return .member ⟨ty, span⟩ left member.value

mutual
/-- An expression whose operators bind more tightly than `bound`. -/
def parseAt : Nat → Context → Power → Parse Cursor Expr
  | 0, _, _ => exhausted
  | n + 1, Γ, bound => do
    let left ← parseOpeningAt n Γ
    parseRestAt n Γ bound left

def parseOpeningAt : Nat → Context → Parse Cursor Expr
  | 0, _ => exhausted
  | n + 1, Γ => do
    match (← currentKind).opening? with
    | none => refuse "expected an expression"
    | some .primary => parsePrimary Γ
    | some .grouping => parseGroupingAt n Γ
    | some .unary => parseUnaryAt n Γ
    | some .step => parseStepBeforeAt n Γ

def parseRestAt : Nat → Context → Power → Expr → Parse Cursor Expr
  | 0, _, _, _ => exhausted
  | n + 1, Γ, bound, left => do
    match (← currentKind).continuation? with
    | none => return left
    | some (power, form) =>
      if bound < power then
        let longer ← parseContinuationAt n Γ form power left
        parseRestAt n Γ bound longer
      else return left

def parseContinuationAt : Nat → Context → Continuation → Power → Expr → Parse Cursor Expr
  | 0, _, _, _, _ => exhausted
  | n + 1, Γ, form, power, left =>
    match form with
    | .binary => parseBinaryAt n Γ power left
    | .assignment => parseAssignAt n Γ left
    | .step => parseStepAfter left
    | .call => parseCallAt n Γ left
    | .member => parseMember Γ left

def parseGroupingAt : Nat → Context → Parse Cursor Expr
  | 0, _ => exhausted
  | n + 1, Γ => do
    let opening ← advance
    let inner ← parseAt n Γ .default
    let _ ← expect .closeParen
    let span ← spanSince opening.span.start
    return inner.withSpan span

def parseUnaryAt : Nat → Context → Parse Cursor Expr
  | 0, _ => exhausted
  | n + 1, Γ => do
    let operator ← advance
    match UnaryOp.ofKind? operator.kind with
    | none => fail (unexpectedToken operator)
    | some op =>
      let operand ← parseAt n Γ .unary
      let span : Span := ⟨operator.span.start, operand.span.stop⟩
      let ty ← typeUnary op operand span
      return .unary ⟨ty, span⟩ op operand

def parseStepBeforeAt : Nat → Context → Parse Cursor Expr
  | 0, _ => exhausted
  | n + 1, Γ => do
    let operator ← advance
    let target ← parseAt n Γ .unary
    parseStep operator target true ⟨operator.span.start, target.span.stop⟩

def parseBinaryAt : Nat → Context → Power → Expr → Parse Cursor Expr
  | 0, _, _, _ => exhausted
  | n + 1, Γ, power, left => do
    let operator ← advance
    match BinaryOp.ofKind? operator.kind with
    | none => fail (unexpectedToken operator)
    | some op =>
      let right ← parseAt n Γ power
      let span : Span := ⟨left.span.start, right.span.stop⟩
      let ty ← typeBinary op left right span
      return .binary ⟨ty, span⟩ op left right

def parseAssignAt : Nat → Context → Expr → Parse Cursor Expr
  | 0, _, _ => exhausted
  | n + 1, Γ, left => do
    let _ ← advance
    match left.asName? with
    | none => fail ⟨.invalidAssignmentTarget, left.span.start⟩
    | some x =>
      let value ← parseAt n Γ .default
      let ty ← typeAssign left value
      return .assign ⟨ty, ⟨left.span.start, value.span.stop⟩⟩ x value

def parseCallAt : Nat → Context → Expr → Parse Cursor Expr
  | 0, _, _ => exhausted
  | n + 1, Γ, left => do
    let _ ← advance
    let arguments ← parseArgumentsAt n Γ
    let _ ← expect .closeParen
    let span ← spanSince left.span.start
    let ty ← typeCall left arguments span
    return .call ⟨ty, span⟩ left arguments

def parseArgumentsAt : Nat → Context → Parse Cursor (List Expr)
  | 0, _ => exhausted
  | n + 1, Γ => do
    if (← currentKind) = .closeParen then return []
    else
      let argument ← parseAt n Γ .default
      if (← currentKind) = .closeParen then return [argument]
      else
        let _ ← demand .comma "expected `,` or `)` in argument list"
        let rest ← parseArgumentsAt n Γ
        return argument :: rest
end

end TypedScript.Expr
