import Mathlib.Data.Int.ModEq
import RillLang.Word

/-!
# Wrapping commutes with arithmetic

Two integers that differ by a multiple of `modulus` wrap to the same word (`wrap_congr`).  So
wrapping the operands of a sum, a difference or a product does not change the wrapped result,
and a calculation that wraps at every step gives what wrapping once at its end gives.
-/

namespace RillLang.Word

theorem wrap_congr {a b : Int} (h : a ≡ b [ZMOD modulus]) : wrap a = wrap b := by
  have hshift : (a - least) % modulus = (b - least) % modulus := h.sub_right least
  rw [wrap, wrap, hshift]

theorem wrap_modEq (a : Int) : wrap a ≡ a [ZMOD modulus] := wrap_emod a

theorem wrap_add (a b : Int) : wrap (wrap a + wrap b) = wrap (a + b) :=
  wrap_congr ((wrap_modEq a).add (wrap_modEq b))

theorem wrap_sub (a b : Int) : wrap (wrap a - wrap b) = wrap (a - b) :=
  wrap_congr ((wrap_modEq a).sub (wrap_modEq b))

theorem wrap_mul (a b : Int) : wrap (wrap a * wrap b) = wrap (a * b) :=
  wrap_congr ((wrap_modEq a).mul (wrap_modEq b))

/-- A natural number that is not greater than the greatest word is a word. -/
theorem wrap_natCast {n : Nat} (h : (n : Int) ≤ greatest) : wrap n = n :=
  wrap_eq_self ⟨Int.le_trans (by decide) (Int.natCast_nonneg n), h⟩

end RillLang.Word
