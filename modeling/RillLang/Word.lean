/-!
# Words: signed 64-bit integers

Rill computes with the integers between `least` and `greatest`.  Values are kept
as unbounded integers, and each arithmetic operation brings its exact result
back into the range with `wrap`, which adds or removes a multiple of `modulus`.

* `wrap` is the reduction: its result is in range (`wrap_inRange`), it changes a
  value only by multiples of `modulus` (`wrap_emod`), and it leaves a value in
  range alone (`wrap_eq_self`).
* `towardZero` is division rounded toward zero, and `quotient?` wraps its result;
  dividing by zero has none.
-/

namespace RillLang.Word

/-- The least word, `-2^63`. -/
def least : Int := -9223372036854775808

/-- The greatest word, `2^63 - 1`. -/
def greatest : Int := 9223372036854775807

/-- The number of words, `2^64`. -/
def modulus : Int := 18446744073709551616

/-- `v` is a word. -/
def InRange (v : Int) : Prop := least ≤ v ∧ v ≤ greatest

instance (v : Int) : Decidable (InRange v) := inferInstanceAs (Decidable (_ ∧ _))

/-- The word that differs from `v` by a multiple of `modulus`. -/
def wrap (v : Int) : Int := (v - least) % modulus + least

/-- The quotient of `dividend` by `divisor`, rounded toward zero: that of their absolute
values, negated where one of the two is negative and the other is not. -/
def towardZero (dividend divisor : Int) : Int :=
  let magnitude : Nat := dividend.natAbs / divisor.natAbs
  if dividend < 0 ↔ divisor < 0 then magnitude else -magnitude

/-- The quotient of `dividend` by `divisor`, rounded toward zero and wrapped.
Dividing by zero has no quotient. -/
def quotient? (dividend divisor : Int) : Option Int :=
  if divisor = 0 then none else some (wrap (towardZero dividend divisor))

/-! ## The reduction -/

theorem wrap_inRange (v : Int) : InRange (wrap v) := by
  unfold InRange wrap least greatest modulus
  omega

theorem wrap_emod (v : Int) : wrap v % modulus = v % modulus := by
  unfold wrap least modulus
  omega

theorem wrap_eq_self {v : Int} (h : InRange v) : wrap v = v := by
  unfold InRange least greatest at h
  unfold wrap least modulus
  omega

end RillLang.Word
