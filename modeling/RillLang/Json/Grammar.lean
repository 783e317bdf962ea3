import RillLang.Json.Read

/-!
# The grammar of JSON

What it is for a text to be well-formed JSON with a given value, for the values whose
numbers are integers.  Each relation is between a text, what stands at its front, and
the text after it:

    array   = "[" "]" | "[" value ("," value)* "]"
    object  = "{" "}" | "{" member ("," member)* "}"
    member  = string ":" value
    string  = quote character* quote
    integer = "-"? ("0" | digits without a leading zero)

Blanks may stand between any two parts of an array, an object or a member.  A character
of a string stands for itself unless it is a quote, a backslash or a control character,
or it is written as an escape of one letter, of four hexadecimal digits, or, beyond the
first plane, of two such escapes that form a surrogate pair.
-/

namespace RillLang.Json.Grammar

/-- The text begins with blanks, perhaps none. -/
inductive Blanks : List Char → List Char → Prop
  | none {rest : List Char} : Blanks rest rest
  | more {c : Char} {text rest : List Char} :
      isSpace c = true → Blanks text rest → Blanks (c :: text) rest

/-- The text begins with the characters of a string and the quote that closes it. -/
inductive Characters : List Char → List Char → List Char → Prop
  | close {rest : List Char} : Characters ('"' :: rest) [] rest
  | plain {c : Char} {text cs rest : List Char} :
      c ≠ '"' → c ≠ '\\' → 0x20 ≤ c.toNat → Characters text cs rest →
      Characters (c :: text) (c :: cs) rest
  | short {letter c : Char} {text cs rest : List Char} :
      shortEscape? letter = some c → Characters text cs rest →
      Characters ('\\' :: letter :: text) (c :: cs) rest
  | unit {a b c d : Char} {n : Nat} {text cs rest : List Char} :
      unit? a b c d = some n → isHigh n = false → isLow n = false → Characters text cs rest →
      Characters ('\\' :: 'u' :: a :: b :: c :: d :: text) (Char.ofNat n :: cs) rest
  | pair {a b c d a' b' c' d' : Char} {high low : Nat} {text cs rest : List Char} :
      unit? a b c d = some high → isHigh high = true →
      unit? a' b' c' d' = some low → isLow low = true → Characters text cs rest →
      Characters
        ('\\' :: 'u' :: a :: b :: c :: d :: '\\' :: 'u' :: a' :: b' :: c' :: d' :: text)
        (Char.ofNat (0x10000 + (high - 0xd800) * 0x400 + (low - 0xdc00)) :: cs) rest

/-- The digits are those of a number, without a leading zero. -/
inductive Digits : List Char → Nat → Prop
  | zero : Digits ['0'] 0
  | positive {c : Char} {cs : List Char} :
      c ≠ '0' → (∀ d ∈ c :: cs, isNumeral d = true) →
      Digits (c :: cs) (Nat.ofDigitChars 10 (c :: cs) 0)

/-- The text begins with an integer. -/
inductive Integer : List Char → Int → List Char → Prop
  | plain {digits rest : List Char} {n : Nat} :
      Digits digits n → Integer (digits ++ rest) n rest
  | negative {digits rest : List Char} {n : Nat} :
      Digits digits n → Integer ('-' :: (digits ++ rest)) (-n) rest

mutual

/-- The text begins with a value. -/
inductive Value : List Char → Json → List Char → Prop
  | null {rest : List Char} : Value ('n' :: 'u' :: 'l' :: 'l' :: rest) .null rest
  | true {rest : List Char} : Value ('t' :: 'r' :: 'u' :: 'e' :: rest) (.bool Bool.true) rest
  | false {rest : List Char} :
      Value ('f' :: 'a' :: 'l' :: 's' :: 'e' :: rest) (.bool Bool.false) rest
  | int {text rest : List Char} {v : Int} : Integer text v rest → Value text (.int v) rest
  | str {text cs rest : List Char} :
      Characters text cs rest → Value ('"' :: text) (.str (String.ofList cs)) rest
  | emptyArr {text rest : List Char} : Blanks text (']' :: rest) → Value ('[' :: text) (.arr []) rest
  | arr {text front more rest : List Char} {item : Json} {items : List Json} :
      Blanks text front → Value front item more → Items more items rest →
      Value ('[' :: text) (.arr (item :: items)) rest
  | emptyObj {text rest : List Char} :
      Blanks text ('\x7d' :: rest) → Value ('\x7b' :: text) (.obj []) rest
  | obj {text more rest : List Char} {member : String × Json}
      {members : List (String × Json)} :
      Member text member more → Members more members rest →
      Value ('\x7b' :: text) (.obj (member :: members)) rest

/-- The text begins with the items after the first one and the bracket that closes the
array. -/
inductive Items : List Char → List Json → List Char → Prop
  | close {text rest : List Char} : Blanks text (']' :: rest) → Items text [] rest
  | next {text after front more rest : List Char} {item : Json} {items : List Json} :
      Blanks text (',' :: after) → Blanks after front → Value front item more →
      Items more items rest → Items text (item :: items) rest

/-- The text begins with blanks and a member. -/
inductive Member : List Char → String × Json → List Char → Prop
  | mk {text quoted key colon after front rest : List Char} {value : Json} :
      Blanks text ('"' :: quoted) → Characters quoted key colon → Blanks colon (':' :: after) →
      Blanks after front → Value front value rest →
      Member text (String.ofList key, value) rest

/-- The text begins with the members after the first one and the brace that closes the
object. -/
inductive Members : List Char → List (String × Json) → List Char → Prop
  | close {text rest : List Char} : Blanks text ('\x7d' :: rest) → Members text [] rest
  | next {text after more rest : List Char} {member : String × Json}
      {members : List (String × Json)} :
      Blanks text (',' :: after) → Member after member more → Members more members rest →
      Members text (member :: members) rest

end

/-- The whole text is well-formed JSON with the given value. -/
def Spells (text : String) (value : Json) : Prop :=
  ∃ front rest, Blanks text.toList front ∧ Value front value rest ∧ Blanks rest []

end RillLang.Json.Grammar
