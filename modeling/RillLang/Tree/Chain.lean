import RillLang.Token.Basic
import RillLang.Word

/-!
# Chains of sums and products

A chain is a number followed by operators with a number each, all of them plus,
minus or times.  `Chain.text` prints one, and `Chain.value` is its exact value: the
products are formed first, and then added and subtracted from left to right.
-/

namespace RillLang

/-- An operator of a chain. -/
inductive ChainOperator where
  | plus | minus | times
  deriving DecidableEq, Repr

namespace ChainOperator

/-- The mark an operator is written with. -/
def mark : ChainOperator → Mark
  | plus => .plus | minus => .minus | times => .star

end ChainOperator

/-- A number and the operators after it, each with its number. -/
structure Chain where
  /-- The first number. -/
  first : Nat
  /-- The operators and the numbers after them. -/
  links : List (ChainOperator × Nat)

namespace Chain

/-- The value of links after the signed sum `sum` and the unfinished product
`product`. -/
def valueFrom (sum product : Int) : List (ChainOperator × Nat) → Int
  | [] => sum + product
  | (.plus, n) :: links => valueFrom (sum + product) n links
  | (.minus, n) :: links => valueFrom (sum + product) (-n) links
  | (.times, n) :: links => valueFrom sum (product * n) links

/-- The exact value of a chain. -/
def value (c : Chain) : Int := valueFrom 0 c.first c.links

/-- Every number of the chain is a word. -/
def Fits (c : Chain) : Prop :=
  (c.first : Int) ≤ Word.greatest ∧ ∀ link ∈ c.links, (link.2 : Int) ≤ Word.greatest

instance (c : Chain) : Decidable c.Fits := inferInstanceAs (Decidable (_ ∧ _))

/-- The text of links, with a gap before and after each operator. -/
def linksText (gap : String) : List (ChainOperator × Nat) → String
  | [] => ""
  | (op, n) :: links => gap ++ op.mark.spelling ++ gap ++ toString n ++ linksText gap links

/-- The text of a statement that prints a chain. -/
def text (gap : String) (c : Chain) : String :=
  "print(" ++ toString c.first ++ linksText gap c.links ++ ");"

end Chain

end RillLang
