import RillLang.Json.Grammar
import RillLang.Json.Write
import RillLang.Proofs.Machine.Printed

/-!
# What is written is well formed

The text written for a value, in any layout and at any level, is a text of the grammar
with that value (`value_write`, `spells_render`).  The layout shows in blanks only.

* `unit?_hexDigits` — a unit reads back as its number.
* `characters_escape` — each way to write a character.
* `integer_writeInt` — a number is its numeral.
-/

namespace RillLang.Json

open Json.Grammar

/-! ## Characters -/

theorem hexValue?_hexDigit {n : Nat} (h : n < 16) : hexValue? (Text.hexDigit n) = some n := by
  revert n
  decide

/-- A sixteen-bit unit reads back from its four digits. -/
theorem unit?_hexDigits {n : Nat} (h : n < 0x10000) :
    unit? (Text.hexDigit (n / 16 / 16 / 16 % 16)) (Text.hexDigit (n / 16 / 16 % 16))
      (Text.hexDigit (n / 16 % 16)) (Text.hexDigit (n % 16)) = some n := by
  have hdigit (m : Nat) : hexValue? (Text.hexDigit (m % 16)) = some (m % 16) :=
    hexValue?_hexDigit (Nat.mod_lt m (by decide))
  simp only [unit?, hdigit, Option.some.injEq]
  omega

/-- A character is no surrogate. -/
theorem not_isSurrogate (c : Char) : isHigh c.toNat = false ∧ isLow c.toNat = false := by
  have hvalid : c.toNat < 0xd800 ∨ 0xdfff < c.toNat ∧ c.toNat < 0x110000 := c.valid
  simp only [isHigh, isLow, Bool.and_eq_false_iff, decide_eq_false_iff_not]
  omega

/-- A unit by number stands for its character. -/
theorem characters_escapeUnit {c : Char} (h : c.toNat < 0x10000) {text cs rest : List Char}
    (hrest : Characters text cs rest) :
    Characters (escapeUnit c.toNat ++ text) (c :: cs) rest := by
  have hunit := Characters.unit (unit?_hexDigits h) (not_isSurrogate c).1 (not_isSurrogate c).2
    hrest
  rw [Char.ofNat_toNat] at hunit
  exact hunit

/-- Two units by number that form a surrogate pair stand for one character. -/
theorem characters_escapePair {c : Char} {high low : Nat} (hhigh : isHigh high = true)
    (hlow : isLow low = true)
    (hvalue : 0x10000 + (high - 0xd800) * 0x400 + (low - 0xdc00) = c.toNat)
    {text cs rest : List Char} (hrest : Characters text cs rest) :
    Characters (escapeUnit high ++ (escapeUnit low ++ text)) (c :: cs) rest := by
  simp only [isHigh, isLow, Bool.and_eq_true, decide_eq_true_eq] at hhigh hlow
  have hpair := Characters.pair (unit?_hexDigits (n := high) (by omega)) (by simp [isHigh, hhigh])
    (unit?_hexDigits (n := low) (by omega)) (by simp [isLow, hlow]) hrest
  rw [hvalue, Char.ofNat_toNat] at hpair
  exact hpair

/-- A character beyond the first plane is written as the pair that stands for it. -/
theorem characters_escapeNumeric (c : Char) {text cs rest : List Char}
    (hrest : Characters text cs rest) :
    Characters (escapeNumeric c ++ text) (c :: cs) rest := by
  by_cases h : c.toNat < 0x10000
  · rw [escapeNumeric, if_pos h]
    exact characters_escapeUnit h hrest
  · have hvalid : c.toNat < 0xd800 ∨ 0xdfff < c.toNat ∧ c.toNat < 0x110000 := c.valid
    rw [escapeNumeric, if_neg h, List.append_assoc]
    refine characters_escapePair ?_ ?_ ?_ hrest
    · simp only [isHigh, Bool.and_eq_true, decide_eq_true_eq]
      omega
    · simp only [isLow, Bool.and_eq_true, decide_eq_true_eq]
      omega
    · omega

/-- However a character is written, it reads as itself. -/
theorem characters_escape (c : Char) {text cs rest : List Char}
    (hrest : Characters text cs rest) : Characters (escape c ++ text) (c :: cs) rest := by
  unfold escape
  simp only [beq_iff_eq]
  split
  · subst c; exact .short rfl hrest
  split
  · subst c; exact .short rfl hrest
  split
  · subst c; exact .short rfl hrest
  split
  · subst c; exact .short rfl hrest
  split
  · subst c; exact .short rfl hrest
  split
  · subst c; exact .short rfl hrest
  split
  · subst c; exact .short rfl hrest
  split
  · rename_i hquote hbackslash _ _ _ _ _ hshown
    have hspace : ' ' ≤ c := by
      simp only [Bool.and_eq_true, decide_eq_true_eq] at hshown
      exact hshown.1
    exact .plain hquote hbackslash (Char.le_def.1 hspace) hrest
  · exact characters_escapeNumeric c hrest

theorem characters_flatMap (cs rest : List Char) :
    Characters (cs.flatMap escape ++ '"' :: rest) cs rest := by
  induction cs with
  | nil => exact .close
  | cons c cs ih =>
      rw [List.flatMap_cons, List.append_assoc]
      exact characters_escape c ih

/-- A string is written between quotes. -/
theorem exists_writeString (text : String) (rest : List Char) :
    ∃ quoted, writeString text ++ rest = '"' :: quoted ∧ Characters quoted text.toList rest := by
  refine ⟨text.toList.flatMap escape ++ '"' :: rest, ?_, characters_flatMap text.toList rest⟩
  simp [writeString]

/-! ## Numbers and blanks -/

theorem integer_writeInt (v : Int) (rest : List Char) : Integer (writeInt v ++ rest) v rest := by
  have hnumeral : Numeral (writeInt v) v := numeral_toString v
  generalize writeInt v = text at hnumeral
  cases hnumeral with
  | zero => exact .plain .zero
  | positive hc hdigits => exact .plain (.positive hc hdigits)
  | negative hc hdigits => exact .negative (.positive hc hdigits)

theorem blanks_replicate (n : Nat) (rest : List Char) :
    Blanks (List.replicate n ' ' ++ rest) rest := by
  induction n with
  | zero => exact .none
  | succ n ih => exact .more rfl ih

theorem blanks_gap (layout : Layout) (level : Nat) (rest : List Char) :
    Blanks (layout.gap level ++ rest) rest := by
  cases layout with
  | oneLine => exact .none
  | indented step => exact .more rfl (blanks_replicate _ rest)

/-- Between two items there is a comma, and blanks after it. -/
theorem exists_separator (layout : Layout) (level : Nat) :
    ∃ gap, layout.separator level = ',' :: gap ∧ ∀ rest, Blanks (gap ++ rest) rest := by
  cases layout with
  | oneLine => exact ⟨[' '], rfl, fun _ => .more rfl .none⟩
  | indented step => exact ⟨_, rfl, blanks_gap (.indented step) level⟩

/-- A key, its colon and a space before a value. -/
theorem member_write {text front rest : List Char} {value : Json} (key : String)
    (hblanks : ∀ rest, Blanks (text ++ rest) rest) (hvalue : Value front value rest) :
    Member (text ++ (writeString key ++ ':' :: ' ' :: front)) (key, value) rest := by
  obtain ⟨quoted, hquoted, hchars⟩ := exists_writeString key (':' :: ' ' :: front)
  have hmember : Member (text ++ (writeString key ++ ':' :: ' ' :: front))
      (String.ofList key.toList, value) rest :=
    .mk (hquoted ▸ hblanks _) hchars .none (.more rfl .none) hvalue
  rwa [String.ofList_toList] at hmember

/-! ## Values -/

variable (layout : Layout)

mutual

/-- The text of a value, before any other text, is a text of the grammar. -/
theorem value_write (level : Nat) :
    ∀ (value : Json) (rest : List Char), Value (write layout level value rest) value rest
  | .null, rest => Value.null
  | .bool true, rest => Value.true
  | .bool false, rest => Value.false
  | .int v, rest => Value.int (integer_writeInt v rest)
  | .str text, rest => by
      obtain ⟨quoted, hquoted, hchars⟩ := exists_writeString text rest
      have hstr := Value.str hchars
      rw [String.ofList_toList] at hstr
      show Value (writeString text ++ rest) (.str text) rest
      rwa [hquoted]
  | .arr [], rest => Value.emptyArr .none
  | .arr (item :: items), rest =>
      .arr (blanks_gap layout (level + 1) _) (value_write (level + 1) item _)
        (items_write level items rest)
  | .obj [], rest => Value.emptyObj .none
  | .obj ((key, value) :: members), rest =>
      .obj (member_write key (blanks_gap layout (level + 1))
        (value_write (level + 1) value _)) (members_write level members rest)

/-- The items after the first one, and the closing bracket. -/
theorem items_write (level : Nat) : ∀ (items : List Json) (rest : List Char),
    Items (writeItems layout (level + 1) items (layout.gap level ++ ']' :: rest)) items rest
  | [], rest => Items.close (blanks_gap layout level _)
  | item :: items, rest => by
      obtain ⟨gap, hgap, hblanks⟩ := exists_separator layout (level + 1)
      show Items (layout.separator (level + 1) ++ _) _ rest
      rw [hgap]
      exact .next .none (hblanks _) (value_write (level + 1) item _)
        (items_write level items rest)

/-- The members after the first one, and the closing brace. -/
theorem members_write (level : Nat) : ∀ (members : List (String × Json)) (rest : List Char),
    Members (writeMembers layout (level + 1) members (layout.gap level ++ '\x7d' :: rest))
      members rest
  | [], rest => Members.close (blanks_gap layout level _)
  | (key, value) :: members, rest => by
      obtain ⟨gap, hgap, hblanks⟩ := exists_separator layout (level + 1)
      show Members (layout.separator (level + 1) ++ _) _ rest
      rw [hgap]
      exact .next .none (member_write key hblanks (value_write (level + 1) value _))
        (members_write level members rest)

end

/-- The text of a value is well-formed JSON with that value. -/
theorem spells_render (value : Json) : Spells (value.render layout) value := by
  refine ⟨write layout 0 value [], [], ?_, value_write layout 0 value [], .none⟩
  rw [render, String.toList_ofList]
  exact .none

end RillLang.Json
