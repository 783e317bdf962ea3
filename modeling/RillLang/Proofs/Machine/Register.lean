import RillLang.Machine.Register
import RillLang.Proofs.Machine.Words
import RillLang.Proofs.Quotient

/-!
# Words compute as registers

The operators bring their exact results back into range by a modulus and a shift.  A machine with
64-bit registers computes the same words (`words_compute_as_registers`).

An integer is put into a register by a reduction modulo `2^64`, and what is read from the register
is the wrapped integer (`Register.toInt_ofInt`).  So a word is known by its register
(`Register.eq_toInt`), and for each operator one square is left to prove: the register of the
result is the result of the registers.  Sums, differences and products satisfy it for operands of
any size (`Register.reduce_ring`), as reduction is a homomorphism.  Quotients and comparisons
satisfy it for words (`Register.reduce_binary`).
-/

namespace RillLang

open Word

/-! ## Integers in registers -/

theorem Word.wrap_eq_bmod (v : Int) : wrap v = v.bmod (2 ^ 64) := by
  rw [Int.bmod_def]
  unfold wrap least modulus
  omega

namespace Register

theorem toInt_ofInt (v : Int) : (ofInt v).toInt = wrap v := by
  rw [ofInt, BitVec.toInt_ofInt, wrap_eq_bmod]

/-- A word can be read from the register it was put into. -/
theorem toInt_ofInt_of_inRange {v : Int} (h : InRange v) : (ofInt v).toInt = v := by
  rw [toInt_ofInt, wrap_eq_self h]

theorem ofInt_wrap (v : Int) : ofInt (wrap v) = ofInt v := by
  rw [← BitVec.toInt_inj, toInt_ofInt, toInt_ofInt, wrap_eq_self (wrap_inRange v)]

/-- A word is what is read from its register. -/
theorem eq_toInt {v : Int} {a : Register} (hv : InRange v) (h : ofInt v = a) : v = a.toInt := by
  rw [← h, toInt_ofInt_of_inRange hv]

theorem ofInt_eq_ofInt {l r : Int} (hl : InRange l) (hr : InRange r) :
    ofInt l = ofInt r ↔ l = r := by
  rw [← BitVec.toInt_inj, toInt_ofInt_of_inRange hl, toInt_ofInt_of_inRange hr]

theorem ofInt_truth (p : Prop) [Decidable p] : ofInt (truth p) = flag (decide p) := by
  by_cases hp : p
  · simp only [truth, flag, hp, if_true, decide_true]
    rfl
  · simp only [truth, flag, hp, if_false, decide_false]
    rfl

theorem ofInt_sub (l r : Int) : ofInt (l - r) = ofInt l - ofInt r := by
  rw [ofInt, Int.sub_eq_add_neg, BitVec.ofInt_add, BitVec.ofInt_neg, ← BitVec.sub_eq_add_neg]
  rfl

/-! ## The square of each operator -/

/-- Sums, differences and products commute with the reduction. -/
theorem reduce_ring {op : BinaryOperator} (h : op ∈ [.add, .subtract, .multiply]) (l r : Int) :
    (op.apply l r).map ofInt = apply op (ofInt l) (ofInt r) := by
  cases op with
  | add => exact congrArg Except.ok ((ofInt_wrap _).trans (BitVec.ofInt_add l r))
  | subtract => exact congrArg Except.ok ((ofInt_wrap _).trans (ofInt_sub l r))
  | multiply => exact congrArg Except.ok ((ofInt_wrap _).trans (BitVec.ofInt_mul l r))
  | _ => simp at h

theorem reduce_negate (v : Int) : ofInt (wrap (-v)) = -ofInt v :=
  (ofInt_wrap _).trans BitVec.ofInt_neg

/-- Signed division of registers truncates, and wraps where the least word is divided by `-1`. -/
theorem reduce_divide {l r : Int} (hl : InRange l) (hr : InRange r) :
    (BinaryOperator.divide.apply l r).map ofInt = apply .divide (ofInt l) (ofInt r) := by
  have hzero : ofInt r = 0 ↔ r = 0 := ofInt_eq_ofInt hr (show InRange 0 by decide)
  by_cases h : r = 0
  · rw [apply, if_pos (hzero.2 h), BinaryOperator.apply, quotient?, if_pos h]
    rfl
  · rw [apply, if_neg (mt hzero.1 h), BinaryOperator.apply, quotient?, if_neg h]
    -- both sides are read as the truncated quotient of the words, wrapped
    refine congrArg Except.ok (BitVec.toInt_inj.1 ?_)
    rw [ofInt_wrap, toInt_ofInt, BitVec.toInt_sdiv, toInt_ofInt_of_inRange hl,
      toInt_ofInt_of_inRange hr, towardZero_eq_tdiv, wrap_eq_bmod]

/-- Every operator computes on words as it does on their registers. -/
theorem reduce_binary (op : BinaryOperator) {l r : Int} (hl : InRange l) (hr : InRange r) :
    (op.apply l r).map ofInt = apply op (ofInt l) (ofInt r) := by
  have hbeq : (ofInt l == ofInt r) = decide (l = r) := by
    rw [beq_eq_decide, decide_eq_decide]
    exact ofInt_eq_ofInt hl hr
  cases op with
  | add | subtract | multiply => exact reduce_ring (by simp) l r
  | divide => exact reduce_divide hl hr
  | equal =>
      rw [apply, hbeq]
      exact congrArg Except.ok (ofInt_truth _)
  | notEqual =>
      rw [apply, bne, hbeq, ← decide_not]
      exact congrArg Except.ok (ofInt_truth _)
  | less | lessEqual | greater | greaterEqual =>
      simp only [apply, BitVec.slt_eq_decide, BitVec.sle_eq_decide, toInt_ofInt_of_inRange hl,
        toInt_ofInt_of_inRange hr]
      exact congrArg Except.ok (ofInt_truth _)

/-- What an operator computes on words can be read from the register that the machine computes. -/
theorem apply_eq_toInt (op : BinaryOperator) {l r : Int} (hl : InRange l) (hr : InRange r) :
    op.apply l r = (apply op (ofInt l) (ofInt r)).map BitVec.toInt := by
  have hsquare := reduce_binary op hl hr
  cases h : op.apply l r with
  | ok v =>
      rw [h] at hsquare
      rw [← hsquare]
      exact congrArg Except.ok (toInt_ofInt_of_inRange (op.apply_inRange h)).symm
  | error fault =>
      rw [h] at hsquare
      rw [← hsquare]
      rfl

end Register

/-! ## Faults -/

/-- Dividing by zero is the only way to fail. -/
theorem BinaryOperator.apply_eq_error {op : BinaryOperator} {l r : Int} {fault : Fault} :
    op.apply l r = .error fault ↔ op = .divide ∧ r = 0 ∧ fault = .divisionByZero := by
  constructor
  · intro h
    have hfault := op.apply_fault h
    cases op with
    | divide =>
        by_cases hr : r = 0
        · exact ⟨rfl, hr, hfault⟩
        · rw [apply, quotient?, if_neg hr] at h
          cases h
    | _ => cases h
  · rintro ⟨rfl, rfl, rfl⟩
    rfl

/-- **Words compute as registers.**  On words every operator computes what a machine with 64-bit
registers does, read as signed numbers, and the result is a word again.  An operator fails on a
division by zero and on nothing else; dividing the least word by `-1` gives the least word.  Sums,
differences, products and negatives commute with the reduction modulo `2^64` for integers of any
size. -/
theorem words_compute_as_registers :
    (∀ l r, InRange l → InRange r →
      (∀ op, applyBinary (some (.binary op)) l r =
        (Register.apply op (.ofInt l) (.ofInt r)).map BitVec.toInt) ∧
      applyUnary (some .negate) l = .ok (-Register.ofInt l).toInt) ∧
    (∀ op l r fault, applyBinary (some (.binary op)) l r = .error fault ↔
      op = .divide ∧ r = 0 ∧ fault = .divisionByZero ∧ fault.message = "Division by zero") ∧
    applyBinary (some (.binary .divide)) least (-1) = .ok least ∧
    (∀ op l r v, applyBinary (some (.binary op)) l r = .ok v → InRange v) ∧
    (∀ l v, applyUnary (some .negate) l = .ok v → InRange v) ∧
    (∀ op ∈ [BinaryOperator.add, .subtract, .multiply], ∀ l r,
      (applyBinary (some (.binary op)) l r).map Register.ofInt =
        Register.apply op (.ofInt l) (.ofInt r)) ∧
    (∀ l, (applyUnary (some .negate) l).map Register.ofInt = .ok (-Register.ofInt l)) := by
  refine ⟨fun l r hl hr => ⟨fun op => Register.apply_eq_toInt op hl hr, ?_⟩,
    fun op l r fault => ?_, by decide, fun _ _ _ _ => applyBinary_inRange,
    fun _ _ => applyUnary_inRange, fun op hop l r => Register.reduce_ring hop l r, fun l => ?_⟩
  · exact congrArg Except.ok (Register.eq_toInt (wrap_inRange _) (Register.reduce_negate l))
  · refine BinaryOperator.apply_eq_error.trans ⟨?_, fun h => ⟨h.1, h.2.1, h.2.2.1⟩⟩
    rintro ⟨hop, hr, rfl⟩
    exact ⟨hop, hr, rfl, rfl⟩
  · exact congrArg Except.ok (Register.reduce_negate l)

/-- The greatest word times itself, whose square lies far beyond the words: the machine and the
operator compute one. -/
theorem words_compute_as_registers_square :
    InRange greatest ∧ applyBinary (some (.binary .multiply)) greatest greatest = .ok 1 ∧
      (Register.apply .multiply (.ofInt greatest) (.ofInt greatest)).map BitVec.toInt = .ok 1 := by
  have hgreatest : InRange greatest := by decide
  have hone : applyBinary (some (.binary .multiply)) greatest greatest = .ok 1 := rfl
  obtain ⟨hbinary, -⟩ := words_compute_as_registers.1 greatest greatest hgreatest hgreatest
  exact ⟨hgreatest, hone, (hbinary .multiply).symm.trans hone⟩

end RillLang
