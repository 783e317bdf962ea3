import RillLang.Json.Basic

/-!
# Reading JSON

A reader for JSON texts whose numbers are integers.  Blanks may stand between any
two parts; a string may hold every escape of the format, and two escapes that form a
surrogate pair are one character.  A text that is not well formed has no value.

Each nested value takes one unit of `room`, and so does each further item or member;
as many units as the text has characters are always enough.
-/

namespace RillLang.Json

/-! ## Parts of a text -/

/-- The blanks of the format. -/
def isSpace (c : Char) : Bool := c == ' ' || c == '\t' || c == '\n' || c == '\r'

/-- The text after its leading blanks. -/
def skip (text : List Char) : List Char := text.dropWhile isSpace

/-- The value of a hexadecimal digit. -/
def hexValue? (c : Char) : Option Nat :=
  if '0' ≤ c && c ≤ '9' then some (c.toNat - 48)
  else if 'a' ≤ c && c ≤ 'f' then some (c.toNat - 87)
  else if 'A' ≤ c && c ≤ 'F' then some (c.toNat - 55)
  else none

/-- The unit that four hexadecimal digits stand for. -/
def unit? (a b c d : Char) : Option Nat :=
  match hexValue? a, hexValue? b, hexValue? c, hexValue? d with
  | some a, some b, some c, some d => some (((a * 16 + b) * 16 + c) * 16 + d)
  | _, _, _, _ => none

/-- The character of an escape of one letter. -/
def shortEscape? : Char → Option Char
  | '"' => some '"'
  | '\\' => some '\\'
  | '/' => some '/'
  | 'b' => some '\x08'
  | 'f' => some '\x0c'
  | 'n' => some '\n'
  | 'r' => some '\r'
  | 't' => some '\t'
  | _ => none

/-- The first half of a surrogate pair. -/
def isHigh (n : Nat) : Bool := 0xd800 ≤ n && n < 0xdc00

/-- The second half of a surrogate pair. -/
def isLow (n : Nat) : Bool := 0xdc00 ≤ n && n < 0xe000

/-- The characters of a string after its opening quote, and the text after its
closing one.  `high` is the first half of a pair whose second half has to follow. -/
def readChars (high : Option Nat) : List Char → Option (List Char × List Char)
  | [] => none
  | '"' :: rest => if high.isSome then none else some ([], rest)
  | '\\' :: 'u' :: a :: b :: c :: d :: rest =>
    match unit? a b c d, high with
    | none, _ => none
    | some n, some h =>
      if isLow n then
        (readChars none rest).map fun (cs, rest) =>
          (Char.ofNat (0x10000 + (h - 0xd800) * 0x400 + (n - 0xdc00)) :: cs, rest)
      else none
    | some n, none =>
      if isHigh n then readChars (some n) rest
      else if isLow n then none
      else (readChars none rest).map fun (cs, rest) => (Char.ofNat n :: cs, rest)
  | '\\' :: c :: rest =>
    match shortEscape? c, high with
    | some c, none => (readChars none rest).map fun (cs, rest) => (c :: cs, rest)
    | _, _ => none
  | c :: rest =>
    if high.isSome || c.toNat < 0x20 || c == '\\' then none
    else (readChars none rest).map fun (cs, rest) => (c :: cs, rest)

/-- Digits without a leading zero. -/
def natOf? (digits : List Char) : Option Nat :=
  match digits with
  | [] => none
  | ['0'] => some 0
  | '0' :: _ => none
  | digits => some (Nat.ofDigitChars 10 digits 0)

/-- The characters of a number. -/
def isNumeral (c : Char) : Bool := '0' ≤ c && c ≤ '9'

/-- An integer and the text after it. -/
def readInt : List Char → Option (Int × List Char)
  | '-' :: text => do
    let n ← natOf? (text.takeWhile isNumeral)
    return (-(n : Int), text.dropWhile isNumeral)
  | text => do
    let n ← natOf? (text.takeWhile isNumeral)
    return ((n : Int), text.dropWhile isNumeral)

/-! ## Values -/

mutual

/-- A value at the front of a text, and the text after it. -/
def readValue : Nat → List Char → Option (Json × List Char)
  | 0, _ => none
  | room + 1, text =>
    match skip text with
    | 'n' :: 'u' :: 'l' :: 'l' :: rest => some (null, rest)
    | 't' :: 'r' :: 'u' :: 'e' :: rest => some (bool true, rest)
    | 'f' :: 'a' :: 'l' :: 's' :: 'e' :: rest => some (bool false, rest)
    | '"' :: rest => do
      let (cs, rest) ← readChars none rest
      return (str (String.ofList cs), rest)
    | '[' :: rest =>
      match skip rest with
      | ']' :: rest => some (arr [], rest)
      | rest => do
        let (item, rest) ← readValue room rest
        let (items, rest) ← readItems room rest
        return (arr (item :: items), rest)
    | '\x7b' :: rest =>
      match skip rest with
      | '\x7d' :: rest => some (obj [], rest)
      | rest => do
        let (member, rest) ← readMember room rest
        let (members, rest) ← readMembers room rest
        return (obj (member :: members), rest)
    | text => do
      let (v, rest) ← readInt text
      return (int v, rest)

/-- The items after the first one, up to the closing bracket. -/
def readItems : Nat → List Char → Option (List Json × List Char)
  | 0, _ => none
  | room + 1, text =>
    match skip text with
    | ']' :: rest => some ([], rest)
    | ',' :: rest => do
      let (item, rest) ← readValue room rest
      let (items, rest) ← readItems room rest
      return (item :: items, rest)
    | _ => none

/-- A key, a colon and a value. -/
def readMember : Nat → List Char → Option ((String × Json) × List Char)
  | 0, _ => none
  | room + 1, text =>
    match skip text with
    | '"' :: rest => do
      let (key, rest) ← readChars none rest
      match skip rest with
      | ':' :: rest => do
        let (value, rest) ← readValue room rest
        return ((String.ofList key, value), rest)
      | _ => none
    | _ => none

/-- The members after the first one, up to the closing brace. -/
def readMembers : Nat → List Char → Option (List (String × Json) × List Char)
  | 0, _ => none
  | room + 1, text =>
    match skip text with
    | '\x7d' :: rest => some ([], rest)
    | ',' :: rest => do
      let (member, rest) ← readMember room rest
      let (members, rest) ← readMembers room rest
      return (member :: members, rest)
    | _ => none

end

/-- The value a text stands for, if it is well formed. -/
def read (text : String) : Option Json :=
  match readValue (text.length + 1) text.toList with
  | some (value, rest) => if (skip rest).isEmpty then some value else none
  | none => none

end RillLang.Json
