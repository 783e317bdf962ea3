import RillLang.Tree.Basic
import RillLang.Word

/-!
# Faults and operators

What can go wrong while a program runs, and what the operators compute.  Addition,
subtraction, multiplication, division and negation wrap their exact result; the
comparisons give one for true and zero for false.
-/

namespace RillLang

/-- Why a run stops early. -/
inductive Fault where
  /-- A name that no scope binds. -/
  | undefinedVariable (name : String)
  /-- A division by zero. -/
  | divisionByZero
  /-- The nesting limit is used up. -/
  | nestingTooDeep
  /-- A node that is no statement stands for one. -/
  | unknownStatement (label : String)
  /-- A node that is no expression stands for one. -/
  | unknownExpression (label : String)
  /-- A unary node without a unary operator. -/
  | unknownUnary (operator : Option Operator)
  /-- A binary node without a binary operator. -/
  | unknownBinary (operator : Option Operator)
  /-- The global scope was to be closed. -/
  | globalScope
  /-- A loop went on for longer than it was given rounds. -/
  | outOfRounds
  deriving DecidableEq, Repr

/-- How a message refers to the operator of a node. -/
def operatorText : Option Operator → String
  | none => "None"
  | some op => op.qualifiedName

namespace Fault

/-- The message for a fault. -/
def message : Fault → String
  | undefinedVariable name => "Undefined variable '" ++ name ++ "'"
  | divisionByZero => "Division by zero"
  | nestingTooDeep => "Nesting too deep"
  | unknownStatement label => "Unknown statement type: " ++ label
  | unknownExpression label => "Unknown expression type: " ++ label
  | unknownUnary op => "Unknown unary operator: " ++ operatorText op
  | unknownBinary op => "Unknown binary operator: " ++ operatorText op
  | globalScope => "Cannot exit from the global scope"
  | outOfRounds => "Out of rounds"

/-- The faults a program can be blamed for: the others mean that the tree was not
well placed, that scopes were closed by hand, or that a loop was cut short. -/
def isProgramFault : Fault → Bool
  | undefinedVariable _ | divisionByZero | nestingTooDeep => true
  | _ => false

end Fault

/-- One for true and zero for false. -/
def truth (p : Prop) [Decidable p] : Int := if p then 1 else 0

/-- What a binary operator computes. -/
def BinaryOperator.apply : BinaryOperator → Int → Int → Except Fault Int
  | add, l, r => .ok (Word.wrap (l + r))
  | subtract, l, r => .ok (Word.wrap (l - r))
  | multiply, l, r => .ok (Word.wrap (l * r))
  | divide, l, r =>
    match Word.quotient? l r with
    | some q => .ok q
    | none => .error .divisionByZero
  | equal, l, r => .ok (truth (l = r))
  | notEqual, l, r => .ok (truth (l ≠ r))
  | less, l, r => .ok (truth (l < r))
  | lessEqual, l, r => .ok (truth (l ≤ r))
  | greater, l, r => .ok (truth (l > r))
  | greaterEqual, l, r => .ok (truth (l ≥ r))

/-- What the operator of a unary node computes. -/
def applyUnary : Option Operator → Int → Except Fault Int
  | some .negate, v => .ok (Word.wrap (-v))
  | op, _ => .error (.unknownUnary op)

/-- What the operator of a binary node computes. -/
def applyBinary : Option Operator → Int → Int → Except Fault Int
  | some (.binary op), l, r => op.apply l r
  | op, _, _ => .error (.unknownBinary op)

end RillLang
