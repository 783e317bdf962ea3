import RillLang.Token.Piece

/-!
# Writing tokens

A token list is written by spelling each token, with blanks between them where two
spellings would otherwise run together.  `needsBlank` says where that is: between a
word and a word or number that follows it, between two numbers, between a mark that
an equals sign can extend and an equals sign, and between two slashes.
-/

namespace RillLang

namespace Lexeme

/-- How a lexeme is written.  The end of the input is not written at all. -/
def spelling : Lexeme → List Char
  | number v => (toString v).toList
  | identifier name => (identifierName name).toList
  | mark m _ => m.spelling.toList
  | endOfInput _ => []

/-- The lexeme is written as a word. -/
def isWordLike : Lexeme → Bool
  | identifier _ => true
  | mark m _ => Mark.keywords.contains m
  | _ => false

/-- The lexeme is a number. -/
def isNumber : Lexeme → Bool
  | number _ => true
  | _ => false

/-- An equals sign right after the lexeme would become part of it. -/
def takesEquals : Lexeme → Bool
  | mark .equal _ | mark .less _ | mark .greater _ => true
  | _ => false

/-- The spelling of the lexeme starts with an equals sign. -/
def startsWithEquals : Lexeme → Bool
  | mark .equal _ | mark .equalEqual _ => true
  | _ => false

/-- The lexeme is a slash. -/
def isSlash : Lexeme → Bool
  | mark .slash _ => true
  | _ => false

/-- Two lexemes that cannot be written without a blank between them. -/
def needsBlank (a b : Lexeme) : Bool :=
  (a.isWordLike && (b.isWordLike || b.isNumber)) || (a.isNumber && b.isNumber) ||
    (a.takesEquals && b.startsWithEquals) || (a.isSlash && b.isSlash)

end Lexeme

/-- The lexemes written with a single space between any two of them. -/
def spaced : List Lexeme → List Char
  | [] => []
  | [a] => a.spelling
  | a :: rest => a.spelling ++ ' ' :: spaced rest

/-! ## Any blanks between tokens -/

/-- The lexemes written after the text `lead`, each with the text that follows it. -/
def written (lead : List Char) : List (Lexeme × List Char) → List Char
  | [] => lead
  | (a, gap) :: rest => lead ++ a.spelling ++ written gap rest

/-- The tokens of lexemes written like that, where `lead` starts on a line, and the
end-of-input token after them. -/
def writtenTokens (line : Int) (lead : List Char) : List (Lexeme × List Char) → List Token
  | [] => [.endOfInput (line + lead.count '\n')]
  | (a, gap) :: rest =>
    ⟨a, line + lead.count '\n'⟩ :: writtenTokens (line + lead.count '\n') gap rest

/-- Each gap is made of blanks, and is not empty where a blank is needed. -/
def Separated : List (Lexeme × List Char) → Prop
  | [] => True
  | [(_, gap)] => ∀ c ∈ gap, isBlank c = true
  | (a, gap) :: (b, gap') :: rest =>
    (∀ c ∈ gap, isBlank c = true) ∧ (a.needsBlank b = true → gap ≠ []) ∧
      Separated ((b, gap') :: rest)

end RillLang
