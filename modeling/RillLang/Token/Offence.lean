import RillLang.Token.Scan

/-!
# Where a text offends

What keeps a text from having tokens, said of single places in it.  A place is
inside a comment when two slashes stand at or before it on the same line.  Outside
comments, two things offend: a character that belongs to no token, and the start of
a run of digits that is too long or too great.  A run of digits that goes on a word
is part of the word.
-/

namespace RillLang

/-- The place `i` is inside a comment. -/
def InComment (text : List Char) (i : Nat) : Prop :=
  ∃ j, j ≤ i ∧ text[j]? = some '/' ∧ text[j + 1]? = some '/' ∧
    ∀ k, j ≤ k → k ≤ i → text[k]? ≠ some '\n'

/-- The characters of operators and punctuation that may stand anywhere. -/
def punctuation : List Char :=
  ['+', '-', '*', '/', '=', '<', '>', '(', ')', '\x7b', '\x7d', ';']

/-- A character that belongs to some token, or to none but may stand between tokens.
An exclamation mark does so only before an equals sign. -/
def Belongs (c : Char) (next : Option Char) : Prop :=
  isBlank c = true ∨ isWordChar c = true ∨ c ∈ punctuation ∨ (c = '!' ∧ next = some '=')

/-- The line of a place: one more than the number of line feeds before it. -/
def lineAt (text : List Char) (i : Nat) : Int := (text.take i).count '\n' + 1

/-- A run of digits starts at the place `i`, and no word or run goes on there. -/
def StartsNumber (text : List Char) (i : Nat) : Prop :=
  (∃ c, text[i]? = some c ∧ isDigit c = true) ∧
    ∀ c, 0 < i → text[i - 1]? = some c → isWordChar c = false

/-- The run of digits at a place. -/
def digitsAt (text : List Char) (i : Nat) : List Char := (text.drop i).takeWhile isDigit

/-- The place `i` offends with an error. -/
inductive Offends (text : List Char) (i : Nat) : ScanError → Prop
  | stray {c : Char} :
      ¬ InComment text i → text[i]? = some c → ¬ Belongs c text[i + 1]? →
      Offends text i (.unexpected (String.singleton c) (lineAt text i))
  | tooManyDigits :
      ¬ InComment text i → StartsNumber text i → digitLimit < (digitsAt text i).length →
      Offends text i (.tooManyDigits (digitsAt text i).length)
  | outOfRange :
      ¬ InComment text i → StartsNumber text i → (digitsAt text i).length ≤ digitLimit →
      Word.greatest < Token.valueOfDigits (digitsAt text i) →
      Offends text i (.outOfRange (String.ofList (digitsAt text i)) (lineAt text i))

/-- The place `i` is the leftmost that offends, and it does so with an error. -/
def FirstOffence (text : List Char) (i : Nat) (e : ScanError) : Prop :=
  Offends text i e ∧ ∀ j < i, ∀ e', ¬ Offends text j e'

end RillLang
