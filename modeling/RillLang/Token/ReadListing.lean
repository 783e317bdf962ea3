import RillLang.Token.Scan

/-!
# Reading token listings

A listing is read row by row.  The words of a row, which stand between its spaces, are
the number of the line, the name of the kind and, for a number or an identifier, the
value.

A listing escapes nothing, so it can only be read back when no value has a space or a
line feed in it; those that come from program text have none.
-/

namespace RillLang.Token

/-- The integer a numeral stands for. -/
def valueOfNumeral : List Char → Int
  | '-' :: digits => -(valueOfDigits digits)
  | digits => valueOfDigits digits

/-- The lexeme that is listed as a kind with the given values. -/
def lexeme? : Kind → List (List Char) → Option Lexeme
  | .number, [digits] => some (.number (valueOfNumeral digits))
  | .identifier, [name] => some (.identifier (some (String.ofList name)))
  | .mark m, [] => some (.mark m none)
  | .endOfInput, [] => some (.endOfInput none)
  | _, _ => none

/-- The words of a row. -/
def wordsOf (row : List Char) : List (List Char) :=
  (row.splitOn ' ').filter fun word => !word.isEmpty

/-- The token of a row. -/
def ofRow? (row : List Char) : Option Token :=
  match wordsOf row with
  | line :: name :: values => do
    let kind ← Kind.ofName? (String.ofList name)
    let lexeme ← lexeme? kind values
    return ⟨lexeme, valueOfNumeral line⟩
  | _ => none

/-- The tokens of a listing. -/
def ofListing? (text : String) : Option (List Token) := (text.toList.splitOn '\n').mapM ofRow?

end RillLang.Token
