import RillLang.Env
import RillLang.Machine.Fault

/-!
# Evaluating expressions

Evaluation reads and assigns variables, so it acts on an environment; it prints
nothing.  Operands are evaluated before the operator is looked at, left before
right.

A chain of binary nodes that leans to the left is evaluated in one go: its leftmost
operand first, then each operator with its right operand, from the inside out.  So
a chain takes the same room however long it is.  Otherwise each nested evaluation
takes one unit of `room`, and a binary node one more for its chain.
-/

namespace RillLang

/-- A computation on an environment. -/
abbrev Eval (α : Type) : Type := EStateM Fault Env α

namespace Eval

/-- A result that does not depend on the environment. -/
def ofExcept {α : Type} : Except Fault α → Eval α
  | .ok a => fun env => .ok a env
  | .error fault => fun env => .error fault env

/-- Reads a variable. -/
def get (x : String) : Eval Int := fun env =>
  match env.get? x with
  | some v => .ok v env
  | none => .error (.undefinedVariable x) env

/-- Assigns a variable. -/
def assign (x : String) (v : Int) : Eval Unit := fun env =>
  match env.assign? x v with
  | some env => .ok () env
  | none => .error (.undefinedVariable x) env

/-- An operator of a chain with its right operand. -/
abbrev Link : Type := Option Operator × Node

/-- The leftmost operand of a chain, and its links from the inside out before the
links `links`. -/
def spine : Node → List Link → Node × List Link
  | .binary _ op l r, links => spine l ((op, r) :: links)
  | e, links => (e, links)

/-- Applies links in order, each right operand evaluated by `operand`. -/
def fold (operand : Node → Eval Int) : List Link → Int → Eval Int
  | [], left => fun env => .ok left env
  | (op, r) :: links, left => do
    let right ← operand r
    let value ← ofExcept (applyBinary op left right)
    fold operand links value

mutual

/-- The value of an expression. -/
def evaluate : Nat → Node → Eval Int
  | 0, _ => throw .nestingTooDeep
  | room + 1, e =>
    match e with
    | .literal _ v => return v
    | .reference _ x => get x
    | .assign _ x e => do
      let v ← evaluate room e
      assign x v
      return v
    | .unary _ op e => do
      let v ← evaluate room e
      ofExcept (applyUnary op v)
    | .binary line op l r => chain room (.binary line op l r)
    | e => throw (.unknownExpression e.label)

/-- The value of a chain. -/
def chain : Nat → Node → Eval Int
  | 0, _ => throw .nestingTooDeep
  | room + 1, e => do
    let left ← evaluate room (spine e []).1
    fold (evaluate room) (spine e []).2 left

end

end Eval

end RillLang
