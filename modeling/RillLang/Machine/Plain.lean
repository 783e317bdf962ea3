import RillLang.Machine.Evaluate

/-!
# Evaluation by plain recursion

Two evaluators to compare `Eval.evaluate` with.

* `Eval.plain` evaluates a binary node the obvious way: its left operand, its right
  operand, then the operator.  It needs no room.
* `Eval.exact` does the same without ever wrapping: it computes in the unbounded
  integers.
-/

namespace RillLang.Eval

/-- The value of an expression, by recursion on the tree. -/
def plain : Node → Eval Int
  | .literal _ v => return v
  | .reference _ x => get x
  | .assign _ x e => do
    let v ← plain e
    assign x v
    return v
  | .unary _ op e => do
    let v ← plain e
    ofExcept (applyUnary op v)
  | .binary _ op l r => do
    let left ← plain l
    let right ← plain r
    ofExcept (applyBinary op left right)
  | e => throw (.unknownExpression e.label)

/-- What an operator computes when nothing is wrapped.  Division and comparisons are
as before. -/
def applyExact : Option Operator → Int → Int → Except Fault Int
  | some (.binary .add), l, r => .ok (l + r)
  | some (.binary .subtract), l, r => .ok (l - r)
  | some (.binary .multiply), l, r => .ok (l * r)
  | op, l, r => applyBinary op l r

/-- The value of an expression when nothing is wrapped. -/
def exact : Node → Eval Int
  | .literal _ v => return v
  | .reference _ x => get x
  | .assign _ x e => do
    let v ← exact e
    assign x v
    return v
  | .unary _ (some .negate) e => do
    let v ← exact e
    return -v
  | .unary _ op e => do
    let v ← exact e
    ofExcept (applyUnary op v)
  | .binary _ op l r => do
    let left ← exact l
    let right ← exact r
    ofExcept (applyExact op left right)
  | e => throw (.unknownExpression e.label)

end RillLang.Eval
