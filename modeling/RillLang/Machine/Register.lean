import RillLang.Machine.Fault

/-!
# Registers

What a machine computes that has 64-bit registers.  A register holds an integer modulo `2^64`,
and is read as a signed number in two's complement.

* `Register.ofInt` reduces an integer to a register.
* `Register.apply` is what the machine computes for a binary operator.  Negation is the negative
  of a register.
-/

namespace RillLang

/-- A register of 64 bits. -/
abbrev Register : Type := BitVec 64

namespace Register

/-- The register that holds an integer, reduced modulo `2^64`. -/
def ofInt (v : Int) : Register := BitVec.ofInt 64 v

/-- The register that holds a truth value: one for true and zero for false. -/
def flag (b : Bool) : Register := if b then 1 else 0

/-- What a machine with registers computes for a binary operator: modular sums, differences and
products, signed division and signed comparisons. -/
def apply : BinaryOperator → Register → Register → Except Fault Register
  | .add, a, b => .ok (a + b)
  | .subtract, a, b => .ok (a - b)
  | .multiply, a, b => .ok (a * b)
  | .divide, a, b => if b = 0 then .error .divisionByZero else .ok (a.sdiv b)
  | .equal, a, b => .ok (flag (a == b))
  | .notEqual, a, b => .ok (flag (a != b))
  | .less, a, b => .ok (flag (a.slt b))
  | .lessEqual, a, b => .ok (flag (a.sle b))
  | .greater, a, b => .ok (flag (b.slt a))
  | .greaterEqual, a, b => .ok (flag (b.sle a))

end Register

end RillLang
