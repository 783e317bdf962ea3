import Mathlib.Algebra.Order.Ring.Abs
import Mathlib.Tactic.LinearCombination
import RillLang.Proofs.Word

/-!
# Division rounds toward zero

The quotient is computed from the absolute values, and its sign is put right afterwards.  This
is division with a remainder on the side of zero where the dividend is, for operands of any size
(`quotient_truncates`).

* `Truncates` — what it means to divide so.  There is one quotient and one remainder
  (`Truncates.unique`).
* `truncates_towardZero` — `towardZero` is that quotient.
* `towardZero_inRange` — the quotient of two words is a word, with one exception.
-/

namespace RillLang.Word

/-! ## Quotients of absolute values -/

theorem towardZero_of_iff {d v : Int} (h : d < 0 ↔ v < 0) :
    towardZero d v = (d.natAbs / v.natAbs : Nat) :=
  if_pos h

theorem towardZero_of_not_iff {d v : Int} (h : ¬(d < 0 ↔ v < 0)) :
    towardZero d v = -(d.natAbs / v.natAbs : Nat) :=
  if_neg h

/-- The quotient of the absolute values with its sign put right is the truncated quotient of the
library. -/
theorem towardZero_eq_tdiv (d v : Int) : towardZero d v = d.tdiv v := by
  by_cases hd : d < 0
  · obtain ⟨a, rfl⟩ := Int.eq_negSucc_of_lt_zero hd
    by_cases hv : v < 0
    · obtain ⟨b, rfl⟩ := Int.eq_negSucc_of_lt_zero hv
      exact towardZero_of_iff (by omega)
    · obtain ⟨b, rfl⟩ := Int.eq_ofNat_of_zero_le (Int.not_lt.1 hv)
      exact towardZero_of_not_iff (by omega)
  · obtain ⟨a, rfl⟩ := Int.eq_ofNat_of_zero_le (Int.not_lt.1 hd)
    by_cases hv : v < 0
    · obtain ⟨b, rfl⟩ := Int.eq_negSucc_of_lt_zero hv
      exact towardZero_of_not_iff (by omega)
    · obtain ⟨b, rfl⟩ := Int.eq_ofNat_of_zero_le (Int.not_lt.1 hv)
      exact towardZero_of_iff (by omega)

/-- Only by `-1` is a word divided into something that is as great as itself, so only the least
word has a quotient that is no word. -/
theorem towardZero_inRange {d v : Int} (hd : InRange d) (h : ¬(d = least ∧ v = -1)) :
    InRange (towardZero d v) := by
  rw [towardZero_eq_tdiv]
  unfold InRange least greatest at *
  have hunit : v = -1 ∨ v = 0 ∨ v = 1 ∨ 2 ≤ v.natAbs := by omega
  rcases hunit with rfl | rfl | rfl | htwo
  · rw [Int.tdiv_neg, Int.tdiv_one]
    omega
  · rw [Int.tdiv_zero]
    omega
  · rwa [Int.tdiv_one]
  · -- every other divisor at least halves the dividend
    have hquotient : (d.tdiv v).natAbs = d.natAbs / v.natAbs := Int.natAbs_tdiv d v
    have hhalf : d.natAbs / v.natAbs ≤ d.natAbs / 2 := Nat.div_le_div_left htwo (by decide)
    omega

/-! ## Truncated division -/

/-- `d` is `q` times `v` with `m` left over, less than `v` and on the side of zero where `d`
is. -/
structure Truncates (d v q m : Int) : Prop where
  total : d = q * v + m
  small : |m| < |v|
  sign : m = 0 ∨ m.sign = d.sign

theorem truncates_towardZero (d : Int) {v : Int} (hv : v ≠ 0) :
    Truncates d v (towardZero d v) (d.tmod v) := by
  rw [towardZero_eq_tdiv]
  refine ⟨?_, ?_, ?_⟩
  · rw [mul_comm, Int.mul_tdiv_add_tmod]
  · rw [Int.abs_eq_natAbs, Int.abs_eq_natAbs, Int.natAbs_tmod]
    exact_mod_cast Nat.mod_lt _ (Int.natAbs_pos.2 hv)
  · by_cases hdvd : v ∣ d
    · exact .inl (Int.tmod_eq_zero_of_dvd hdvd)
    · exact .inr (by rw [Int.sign_tmod, if_neg hdvd])

namespace Truncates

variable {d v q m q' m' : Int}

theorem nonneg (h : Truncates d v q m) (hd : 0 ≤ d) : 0 ≤ m := by
  rcases h.sign with hm | hm
  · exact hm.ge
  · rwa [← Int.sign_nonneg_iff, hm, Int.sign_nonneg_iff]

theorem nonpos (h : Truncates d v q m) (hd : d ≤ 0) : m ≤ 0 := by
  rcases h.sign with hm | hm
  · exact hm.le
  · rwa [← Int.sign_nonpos_iff, hm, Int.sign_nonpos_iff]

/-- Two remainders are on the same side of zero, so they are less than the divisor apart. -/
theorem abs_sub_lt (h : Truncates d v q m) (h' : Truncates d v q' m') : |m' - m| < |v| := by
  rcases le_total 0 d with hd | hd
  · have hm := h.small
    have hm' := h'.small
    rw [abs_of_nonneg (h.nonneg hd)] at hm
    rw [abs_of_nonneg (h'.nonneg hd)] at hm'
    exact abs_sub_lt_of_nonneg_of_lt (h'.nonneg hd) hm' (h.nonneg hd) hm
  · have hm := h.small
    have hm' := h'.small
    rw [abs_of_nonpos (h.nonpos hd)] at hm
    rw [abs_of_nonpos (h'.nonpos hd)] at hm'
    rw [← neg_sub_neg]
    exact abs_sub_lt_of_nonneg_of_lt (neg_nonneg.2 (h.nonpos hd)) hm
      (neg_nonneg.2 (h'.nonpos hd)) hm'

/-- There is one way to divide so. -/
theorem unique (hv : v ≠ 0) (h : Truncates d v q m) (h' : Truncates d v q' m') :
    q' = q ∧ m' = m := by
  have hdvd : |v| ∣ m' - m := by
    rw [abs_dvd]
    exact ⟨q - q', by linear_combination h.total - h'.total⟩
  have hm : m' = m := sub_eq_zero.1 (Int.eq_zero_of_abs_lt_dvd hdvd (h.abs_sub_lt h'))
  have hmul : q' * v = q * v := by linear_combination h.total - h'.total - hm
  exact ⟨mul_right_cancel₀ hv hmul, hm⟩

end Truncates

/-- **Division rounds toward zero**, for operands of any size.  A dividend can be divided by a
divisor that is not zero, with a remainder less than the divisor and on the side of zero where
the dividend is, in one way only.  What is computed is the one word that differs from that
quotient by a multiple of `modulus`.  For a dividend that is a word it is the quotient itself,
unless that is the least word and it is divided by `-1`. -/
theorem quotient_truncates (d : Int) {v : Int} (hv : v ≠ 0) :
    ∃ q m, Truncates d v q m ∧ (∀ q' m', Truncates d v q' m' → q' = q ∧ m' = m) ∧
      ∃ w, quotient? d v = some w ∧ InRange w ∧ w ≡ q [ZMOD modulus] ∧
        (∀ u, InRange u → u ≡ q [ZMOD modulus] → u = w) ∧
        (InRange d → (w = q ↔ ¬(d = least ∧ v = -1))) := by
  have hq := truncates_towardZero d hv
  refine ⟨towardZero d v, d.tmod v, hq, fun q' m' h => hq.unique hv h, wrap (towardZero d v),
    if_neg hv, wrap_inRange _, wrap_modEq _, fun u hu hmod => ?_, fun hd => ⟨?_, fun h => ?_⟩⟩
  · rw [← wrap_eq_self hu, wrap_congr hmod]
  · rintro hw ⟨rfl, rfl⟩
    exact absurd hw (by decide)
  · exact wrap_eq_self (towardZero_inRange hd h)

/-- A dividend far beyond the words: half of it is an odd multiple of `2^64` and one, which wraps
to one, with one left over below zero. -/
theorem quotient_truncates_beyond_least :
    (-2 : Int) ≠ 0 ∧ quotient? (-(3 * modulus * 2 + 3)) (-2) = some 1 ∧
      ∃ q m, Truncates (-(3 * modulus * 2 + 3)) (-2) q m ∧ q = 3 * modulus + 1 ∧ m = -1 := by
  have hone : quotient? (-(3 * modulus * 2 + 3)) (-2) = some 1 := by decide
  obtain ⟨q, m, htruncates, hunique, -⟩ :=
    quotient_truncates (-(3 * modulus * 2 + 3)) (v := -2) (by decide)
  have hpair := hunique (3 * modulus + 1) (-1) ⟨by decide, by decide, .inr (by decide)⟩
  exact ⟨by decide, hone, q, m, htruncates, hpair.1.symm, hpair.2.symm⟩

end RillLang.Word
