import TypedScript.Source.Position
import TypedScript.Text.Quoted

namespace TypedScript

open Text (quoted)

/-- The cause of a diagnostic. Types and operators are kept as their text. -/
inductive Fault
  | unrecognisedToken (token : String)
  | unexpectedToken (token : String)
  | unexpectedTokenDetailed (token message : String)
  | numberParse (token : String)
  | unclosedBlock
  | variableAlreadyDeclared (subject : String)
  | variableNotDeclared (subject : String)
  | typeAlreadyDeclared (type : String)
  | memberAlreadyDeclared (type member : String)
  | unknownType (type : String)
  | unknownMember (type member : String)
  | notAssignable (expected received : String)
  | operatorMismatch (operator left right : String)
  | unaryOperatorMismatch (operator operand : String)
  | notCallable (type : String)
  | unexpectedArguments (expected received : Nat)
  | missingArguments (expected received : Nat)
  | argumentMismatch (expected received : String)
  | invalidAssignmentTarget
  | notIncrementable (type : String)
  | missingReturn (function : String)
  | returnOutsideFunction
  | expectedExplicitValue
  | cannotInferType (subject : String)
  deriving DecidableEq

namespace Fault

def name : Fault → String
  | unrecognisedToken _ => "UnrecognisedToken"
  | unexpectedToken _ => "UnexpectedToken"
  | unexpectedTokenDetailed _ _ => "UnexpectedTokenDetailed"
  | numberParse _ => "NumberParseError"
  | unclosedBlock => "UnclosedBlock"
  | variableAlreadyDeclared _ => "VariableAlreadyDeclared"
  | variableNotDeclared _ => "VariableNotDeclared"
  | typeAlreadyDeclared _ => "TypeAlreadyDeclared"
  | memberAlreadyDeclared _ _ => "MemberAlreadyDeclared"
  | unknownType _ => "UnknownType"
  | unknownMember _ _ => "UnknownMember"
  | notAssignable _ _ => "NotAssignable"
  | operatorMismatch _ _ _ => "OperatorTypeMismatch"
  | unaryOperatorMismatch _ _ => "UnaryOperatorTypeMismatch"
  | notCallable _ => "NotCallable"
  | unexpectedArguments _ _ => "UnexpectedArguments"
  | missingArguments _ _ => "MissingArguments"
  | argumentMismatch _ _ => "ArgumentTypeMatchError"
  | invalidAssignmentTarget => "InvalidAssignmentTarget"
  | notIncrementable _ => "NotIncrementable"
  | missingReturn _ => "MissingReturn"
  | returnOutsideFunction => "ReturnOutsideFunction"
  | expectedExplicitValue => "ExpectedExplicitValue"
  | cannotInferType _ => "CannotInferType"

def message : Fault → String
  | unrecognisedToken token => "unrecognised token: " ++ quoted token
  | unexpectedToken token => "unexpected token: " ++ quoted token
  | unexpectedTokenDetailed token message =>
    "unexpected token (" ++ message ++ "): " ++ quoted token
  | numberParse token => "error parsing number: " ++ quoted token
  | unclosedBlock => "unclosed block"
  | variableAlreadyDeclared subject => "cannot redefine " ++ quoted subject
  | variableNotDeclared subject => "cannot resolve " ++ quoted subject
  | typeAlreadyDeclared type => "type " ++ quoted type ++ " already declared"
  | memberAlreadyDeclared type member =>
    "member " ++ quoted member ++ " already declared on type " ++ type
  | unknownType type => "unknown type " ++ type ++ " found"
  | unknownMember type member => "type " ++ type ++ " has no member " ++ quoted member
  | notAssignable expected received =>
    "type '" ++ received ++ "' is not assignable to '" ++ expected ++ "'"
  | operatorMismatch operator left right =>
    "operator " ++ operator ++ " is not defined for '" ++ left ++ "' and '" ++ right ++ "'"
  | unaryOperatorMismatch operator operand =>
    "operator " ++ operator ++ " is not defined for '" ++ operand ++ "'"
  | notCallable type => "cannot call non-function of type '" ++ type ++ "'"
  | unexpectedArguments expected received =>
    "unexpected arguments: expected " ++ toString expected ++ ", received " ++ toString received
  | missingArguments expected received =>
    "missing arguments: expected " ++ toString expected ++ ", received " ++ toString received
  | argumentMismatch expected received =>
    "argument types do not match: expected '" ++ expected ++ "', received '" ++ received ++ "'"
  | invalidAssignmentTarget => "invalid assignment target"
  | notIncrementable type => "cannot increment or decrement a value of type '" ++ type ++ "'"
  | missingReturn function => "missing return statement in " ++ quoted function
  | returnOutsideFunction => "return statement outside of a function"
  | expectedExplicitValue => "expected explicit value when no type is given"
  | cannotInferType subject => "cannot infer a type for " ++ quoted subject ++ " from null"

def tip : Fault → Option String
  | unrecognisedToken _ => none
  | unexpectedToken token =>
    some ("Unexpected token: `" ++ token ++ "`, did you miss a semicolon?")
  | unexpectedTokenDetailed token message =>
    some ("Unexpected token: `" ++ token ++ "`, " ++ message)
  | numberParse token =>
    some ("Invalid number: `" ++ token ++ "`, is it above the integer limit?")
  | unclosedBlock => some "Block is missing its closing `\x7d`"
  | variableAlreadyDeclared subject =>
    some ("Cannot redefine `" ++ subject ++ "` in the same scope")
  | variableNotDeclared subject => some ("Variable `" ++ subject ++ "` not declared")
  | typeAlreadyDeclared type => some ("Type `" ++ type ++ "` already declared")
  | memberAlreadyDeclared type member =>
    some ("Type `" ++ type ++ "` already has a member `" ++ member ++ "`")
  | unknownType type => some ("Unknown type `" ++ type ++ "` found")
  | unknownMember type member => some ("Type `" ++ type ++ "` has no member `" ++ member ++ "`")
  | notAssignable expected received =>
    some ("Type `" ++ received ++ "` is not assignable to `" ++ expected ++ "`")
  | operatorMismatch operator left right =>
    some ("Operator `" ++ operator ++ "` is not defined for `" ++ left ++ "` and `" ++ right ++ "`")
  | unaryOperatorMismatch operator operand =>
    some ("Operator `" ++ operator ++ "` is not defined for `" ++ operand ++ "`")
  | notCallable type => some ("Type `" ++ type ++ "` cannot be called")
  | unexpectedArguments expected received
  | missingArguments expected received =>
    some ("Expected " ++ toString expected ++ " arguments, received " ++ toString received)
  | argumentMismatch expected received =>
    some ("Expected argument type `" ++ expected ++ "`, received `" ++ received ++ "`")
  | invalidAssignmentTarget => some "Only variables can be assigned to"
  | notIncrementable type =>
    some ("Only `int` and `float` variables can be incremented, found `" ++ type ++ "`")
  | missingReturn function => some ("Not every path through `" ++ function ++ "` returns a value")
  | returnOutsideFunction => some "`return` is only allowed inside a function"
  | expectedExplicitValue => some "Expected explicit value when no type is given"
  | cannotInferType subject =>
    some ("Add a type annotation, for example `let " ++ subject ++ ": int = null;`")

end Fault

structure Diagnostic where
  fault : Fault
  position : Position
  deriving DecidableEq

end TypedScript
