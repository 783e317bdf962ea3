import RillLang.Proofs.Machine.Words

/-!
# What is printed, as text

An integer is printed as its decimal numeral: digits without leading zeros, after a minus
sign when the integer is negative (`numeral_toString`).  What a machine prints is such
numerals, each with a line feed after it; `Printout` is the text of words printed like
that.
-/

namespace RillLang

/-! ## Numerals -/

/-- The text is the decimal numeral of the integer. -/
inductive Numeral : List Char → Int → Prop
  | zero : Numeral ['0'] 0
  | positive {c : Char} {cs : List Char} : c ≠ '0' → (∀ d ∈ c :: cs, isDigit d = true) →
      Numeral (c :: cs) (Token.valueOfDigits (c :: cs))
  | negative {c : Char} {cs : List Char} : c ≠ '0' → (∀ d ∈ c :: cs, isDigit d = true) →
      Numeral ('-' :: c :: cs) (-(Token.valueOfDigits (c :: cs)))

theorem digitChar_ne_zero {n : Nat} (hpos : 0 < n) (hlt : n < 10) : n.digitChar ≠ '0' := by
  intro h
  have hnat := Nat.toNat_digitChar_of_lt_ten hlt
  rw [h] at hnat
  have hzero : '0'.toNat = 48 := rfl
  omega

/-- The digits of a positive number do not start with a zero. -/
theorem exists_toDigits_eq_cons {n : Nat} (hpos : 0 < n) :
    ∃ c cs, Nat.toDigits 10 n = c :: cs ∧ c ≠ '0' := by
  induction n using Nat.strongRecOn with
  | ind n ih =>
      by_cases hlt : n < 10
      · exact ⟨n.digitChar, [], Nat.toDigits_of_lt_base hlt, digitChar_ne_zero hpos hlt⟩
      · -- the first digits are those of the tenth part
        have hten : 0 < n / 10 := by omega
        obtain ⟨c, cs, hdigits, hc⟩ := ih (n / 10) (by omega) hten
        have happend := Nat.toDigits_append_toDigits (b := 10) (by decide) hten
          (Nat.mod_lt n (by decide))
        rw [Nat.div_add_mod, hdigits] at happend
        exact ⟨c, cs ++ Nat.toDigits 10 (n % 10), happend.symm, hc⟩

/-- What the numeral of a positive number is made of. -/
theorem toDigits_of_pos {n : Nat} (hpos : 0 < n) :
    ∃ c cs, Nat.toDigits 10 n = c :: cs ∧ c ≠ '0' ∧ (∀ d ∈ c :: cs, isDigit d = true) ∧
      Token.valueOfDigits (c :: cs) = n := by
  obtain ⟨c, cs, hdigits, hc⟩ := exists_toDigits_eq_cons hpos
  refine ⟨c, cs, hdigits, hc, ?_, ?_⟩
  · rw [← hdigits]
    exact fun d hd => Token.isDigit_of_mem_toDigits hd
  · rw [← hdigits]
    exact Nat.ofDigitChars_ten_toDigits

/-- An integer is written as its decimal numeral. -/
theorem numeral_toString (v : Int) : Numeral (toString v).toList v := by
  cases v with
  | ofNat n =>
      have htext : (toString (Int.ofNat n)).toList = Nat.toDigits 10 n := Nat.toList_repr
      by_cases hzero : n = 0
      · subst hzero
        exact .zero
      · obtain ⟨c, cs, hdigits, hc, hall, rfl⟩ := toDigits_of_pos (Nat.pos_of_ne_zero hzero)
        rw [htext, hdigits]
        exact .positive hc hall
  | negSucc n =>
      have htext : (toString (Int.negSucc n)).toList = '-' :: Nat.toDigits 10 (n + 1) := by
        show ("-" ++ (n + 1).repr).toList = _
        rw [String.toList_append, Nat.toList_repr]
        rfl
      obtain ⟨c, cs, hdigits, hc, hall, hvalue⟩ := toDigits_of_pos (Nat.succ_pos n)
      have hnumeral := Numeral.negative hc hall
      rw [hvalue] at hnumeral
      rw [htext, hdigits]
      exact hnumeral

/-! ## Printed lines -/

/-- The text is made of the numerals of words, each with a line feed after it. -/
inductive Printout : List Char → Prop
  | nil : Printout []
  | line {text rest : List Char} {v : Int} : Numeral text v → Word.InRange v → Printout rest →
      Printout (text ++ '\n' :: rest)

theorem printout_textOf {printed : List Int} (h : ∀ v ∈ printed, Word.InRange v) :
    Printout (Machine.textOf printed).toList := by
  induction printed with
  | nil => exact .nil
  | cons v rest ih =>
      obtain ⟨hv, hrest⟩ := List.forall_mem_cons.1 h
      have hline : (Machine.textOf (v :: rest)).toList =
          (toString v).toList ++ '\n' :: (Machine.textOf rest).toList := by
        simp [Machine.textOf, Machine.lineOf]
      rw [hline]
      exact .line (numeral_toString v) hv (ih hrest)

theorem Printout.append {text more : List Char} (h : Printout text) (hmore : Printout more) :
    Printout (text ++ more) := by
  induction h with
  | nil => exact hmore
  | line hnumeral hv _ ih =>
      rw [List.append_assoc, List.cons_append]
      exact .line hnumeral hv ih

end RillLang
