import RillLang.Tree.Basic

/-!
# Polynomials

Expressions that compute with sums, differences, products and negatives only: no division and no
comparison.  They may assign the variables that they read.
-/

namespace RillLang.Node

/-- An expression built from literals, variables, assignments, negation, sums, differences and
products. -/
inductive Polynomial : Node → Prop
  | literal (line v : Int) : Polynomial (.literal line v)
  | reference (line : Int) (x : String) : Polynomial (.reference line x)
  | assign {e : Node} (line : Int) (x : String) : Polynomial e → Polynomial (.assign line x e)
  | negate {e : Node} (line : Int) : Polynomial e → Polynomial (.unary line (some .negate) e)
  | binary {op : BinaryOperator} {l r : Node} (line : Int) :
      op ∈ [BinaryOperator.add, .subtract, .multiply] → Polynomial l → Polynomial r →
        Polynomial (.binary line (some (.binary op)) l r)

/-- The literals of an expression. -/
def literals : Node → List Int
  | literal _ v => [v]
  | assign _ _ e => literals e
  | unary _ _ e => literals e
  | binary _ _ l r => literals l ++ literals r
  | _ => []

end RillLang.Node
