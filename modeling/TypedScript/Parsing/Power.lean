import TypedScript.Token

namespace TypedScript

inductive Power
  | default
  | assignment
  | logicalOr
  | logicalAnd
  | equality
  | relational
  | additive
  | multiplicative
  | unary
  | suffix
  | primary
  deriving DecidableEq

namespace Power

def rank : Power → Nat
  | default => 0
  | assignment => 1
  | logicalOr => 2
  | logicalAnd => 3
  | equality => 4
  | relational => 5
  | additive => 6
  | multiplicative => 7
  | unary => 8
  | suffix => 9
  | primary => 10

instance : LT Power := ⟨fun p q => p.rank < q.rank⟩

instance (p q : Power) : Decidable (p < q) := inferInstanceAs (Decidable (p.rank < q.rank))

end Power

inductive Opening
  | primary
  | grouping
  | unary
  | step
  deriving DecidableEq

inductive Continuation
  | binary
  | assignment
  | step
  | call
  | member
  deriving DecidableEq

namespace Token.Kind

def opening? : Token.Kind → Option Opening
  | .integer | .float | .string | .identifier | .kwTrue | .kwFalse | .kwNull => some .primary
  | .openParen => some .grouping
  | .not | .dash => some .unary
  | .plusPlus | .minusMinus => some .step
  | _ => none

def continuation? : Token.Kind → Option (Power × Continuation)
  | .assignment => some (.assignment, .assignment)
  | .or => some (.logicalOr, .binary)
  | .and => some (.logicalAnd, .binary)
  | .equals | .notEquals => some (.equality, .binary)
  | .less | .lessEquals | .greater | .greaterEquals => some (.relational, .binary)
  | .plus | .dash => some (.additive, .binary)
  | .star | .slash => some (.multiplicative, .binary)
  | .openParen => some (.suffix, .call)
  | .dot => some (.suffix, .member)
  | .plusPlus | .minusMinus => some (.suffix, .step)
  | _ => none

def power (k : Token.Kind) : Power :=
  match k.continuation? with
  | some (power, _) => power
  | none => .default

end Token.Kind

end TypedScript
