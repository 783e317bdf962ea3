import RillLang.Token.Basic

/-!
# Token listings

A listing shows one token a line: its line number, set flush right in a column of
at least four places, two spaces, the name of its kind and, if the token carries
a value, a space and the value.
-/

namespace RillLang.Token

/-- A text set flush right in `width` places. -/
def flushRight (width : Nat) (text : String) : String :=
  String.ofList (List.replicate (width - text.length) ' ') ++ text

/-- The row of a token. -/
def row (t : Token) : String :=
  flushRight 4 (toString t.line) ++ "  " ++ t.kind.name ++
    (match t.lexeme.value? with
      | none => ""
      | some value => " " ++ value)

/-- The rows of the tokens, one a line, with no line feed at the end. -/
def listing (tokens : List Token) : String := "\n".intercalate (tokens.map row)

end RillLang.Token
