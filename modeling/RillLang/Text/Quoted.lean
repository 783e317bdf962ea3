import RillLang.Text.Printable

/-!
# Quoted text

How a message shows a piece of text it complains about.  The text stands between
two quotes; a character that would end it early, or could not be seen, is
written as an escape.

* The quote is `'`, unless the text holds a `'` and no `"`; then it is `"`.
* The quote itself and the backslash are written after a backslash.
* Tab, line feed and carriage return are `\t`, `\n` and `\r`.
* Any other hidden character is its code point in lower-case hexadecimal: two
  digits after `\x`, four after `\u`, or eight after `\U`, the first that fits.
* Every other character stands for itself.
-/

namespace RillLang.Text

/-- The lower-case hexadecimal digit for `n < 16`. -/
def hexDigit (n : Nat) : Char :=
  if n < 10 then Char.ofNat (48 + n) else Char.ofNat (87 + n)

/-- The last `width` hexadecimal digits of `n`, most significant first. -/
def hexDigits : Nat → Nat → List Char
  | 0, _ => []
  | width + 1, n => hexDigits width (n / 16) ++ [hexDigit (n % 16)]

namespace Quoted

/-- The quote a text is put between. -/
def quoteFor (text : List Char) : Char :=
  if text.contains '\'' && !text.contains '"' then '"' else '\''

/-- A code point by number: the shortest of the three forms that holds it. -/
def numeric (c : Char) : List Char :=
  if c.toNat < 0x100 then '\\' :: 'x' :: hexDigits 2 c.toNat
  else if c.toNat < 0x10000 then '\\' :: 'u' :: hexDigits 4 c.toNat
  else '\\' :: 'U' :: hexDigits 8 c.toNat

/-- One character inside the quotes `quote`. -/
def escape (quote c : Char) : List Char :=
  if c == quote || c == '\\' then ['\\', c]
  else if c == '\t' then ['\\', 't']
  else if c == '\n' then ['\\', 'n']
  else if c == '\r' then ['\\', 'r']
  else if isPrintable c then [c]
  else numeric c

/-- A text between quotes, as a list of characters. -/
def encode (text : List Char) : List Char :=
  quoteFor text :: (text.flatMap (escape (quoteFor text)) ++ [quoteFor text])

end Quoted

/-- A text between quotes. -/
def quoted (text : String) : String := String.ofList (Quoted.encode text.toList)

end RillLang.Text
