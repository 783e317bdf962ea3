import RillLang.Token.Basic

/-!
# Pieces: cutting a text where tokens begin and end

A text is cut from left to right, always taking the longest piece that can stand
at the front: a blank character, a comment up to the end of its line, a run of
digits, a run of word characters, a mark, or, when nothing else fits, a stray
character.  Cutting never fails and loses nothing: the pieces joined again are
the text (`Piece.join_cut`).
-/

namespace RillLang

/-! ## Character classes -/

/-- The characters that may stand between tokens: space, tab, form feed, carriage
return and line feed. -/
def isBlank (c : Char) : Bool :=
  c == ' ' || c == '\t' || c == '\x0c' || c == '\r' || c == '\n'

/-- The decimal digits. -/
def isDigit (c : Char) : Bool := '0' ≤ c && c ≤ '9'

/-- The characters a word may start with: ASCII letters and the underscore. -/
def isWordStart (c : Char) : Bool :=
  ('A' ≤ c && c ≤ 'Z') || ('a' ≤ c && c ≤ 'z') || c == '_'

/-- The characters a word may go on with. -/
def isWordChar (c : Char) : Bool := isWordStart c || isDigit c

/-- The characters a comment may go on with: all but the line feed. -/
def isCommentChar (c : Char) : Bool := c != '\n'

/-! ## Marks by their characters -/

/-- The marks of two characters. -/
def pairMark? : Char → Char → Option Mark
  | '=', '=' => some .equalEqual
  | '!', '=' => some .bangEqual
  | '<', '=' => some .lessEqual
  | '>', '=' => some .greaterEqual
  | _, _ => none

/-- The marks of one character. -/
def singleMark? : Char → Option Mark
  | '+' => some .plus
  | '-' => some .minus
  | '*' => some .star
  | '/' => some .slash
  | '=' => some .equal
  | '<' => some .less
  | '>' => some .greater
  | '(' => some .leftParen
  | ')' => some .rightParen
  | '\x7b' => some .leftBrace
  | '\x7d' => some .rightBrace
  | ';' => some .semicolon
  | _ => none

/-! ## Pieces -/

/-- A piece of text. -/
inductive Piece where
  /-- One blank character. -/
  | blank (c : Char)
  /-- A comment, from its two slashes up to the end of its line. -/
  | comment (text : List Char)
  /-- A run of digits. -/
  | digits (text : List Char)
  /-- A run of word characters that starts with a letter or an underscore. -/
  | word (text : List Char)
  /-- A mark that is not a keyword. -/
  | mark (mark : Mark)
  /-- A character no piece starts with. -/
  | stray (c : Char)
  deriving DecidableEq, Repr

namespace Piece

/-- The text a piece was cut from. -/
def text : Piece → List Char
  | blank c => [c]
  | comment t => t
  | digits t => t
  | word t => t
  | mark m => m.spelling.toList
  | stray c => [c]

/-- The longest piece at the front of the text `c :: cs`, and the text after it. -/
def munch (c : Char) (cs : List Char) : Piece × List Char :=
  if isBlank c then (blank c, cs)
  else if isDigit c then (digits (c :: cs.takeWhile isDigit), cs.dropWhile isDigit)
  else if isWordStart c then (word (c :: cs.takeWhile isWordChar), cs.dropWhile isWordChar)
  else match cs with
    | [] => ((singleMark? c).elim (stray c) mark, [])
    | d :: ds =>
      if c = '/' ∧ d = '/' then
        (comment (c :: d :: ds.takeWhile isCommentChar), ds.dropWhile isCommentChar)
      else match pairMark? c d with
        | some m => (mark m, ds)
        | none => ((singleMark? c).elim (stray c) mark, d :: ds)

/-- What is left after a piece is no longer than what followed its first
character. -/
theorem length_munch_le (c : Char) (cs : List Char) : (munch c cs).2.length ≤ cs.length := by
  have h (p : Char → Bool) (l : List Char) : (l.dropWhile p).length ≤ l.length :=
    (List.dropWhile_sublist p).length_le
  unfold munch
  split
  · exact Nat.le_refl _
  split
  · exact h _ _
  split
  · exact h _ _
  split
  · exact Nat.le_refl _
  split
  · exact Nat.le_succ_of_le (h _ _)
  split
  · exact Nat.le_succ _
  · exact Nat.le_refl _

/-- The pieces of a text after the pieces `done`, which are held last piece first. -/
def cutOnto (done : List Piece) (text : List Char) : List Piece :=
  match text with
  | [] => done.reverse
  | c :: cs => cutOnto ((munch c cs).1 :: done) (munch c cs).2
termination_by text.length
decreasing_by exact Nat.lt_succ_of_le (length_munch_le c cs)

/-- The pieces of a text, from left to right. -/
def cut (text : List Char) : List Piece := cutOnto [] text

/-- The text some pieces make when they are joined. -/
def join (pieces : List Piece) : List Char := pieces.flatMap Piece.text

/-! ## Cutting, one piece at a time -/

theorem cutOnto_append (done before : List Piece) (text : List Char) :
    cutOnto (done ++ before) text = before.reverse ++ cutOnto done text := by
  fun_induction cutOnto done text with
  | case1 done => simp [cutOnto]
  | case2 done c cs ih =>
      rw [cutOnto, ← List.cons_append, ih]

@[simp] theorem cut_nil : cut [] = [] := by simp [cut, cutOnto]

theorem cut_cons (c : Char) (cs : List Char) :
    cut (c :: cs) = (munch c cs).1 :: cut (munch c cs).2 := by
  rw [cut, cutOnto]
  exact cutOnto_append [] [_] _

/-! ## Nothing is lost -/

theorem spelling_of_pairMark? {c d : Char} {m : Mark} (h : pairMark? c d = some m) :
    m.spelling.toList = [c, d] := by
  unfold pairMark? at h
  split at h <;> cases h <;> rfl

theorem spelling_of_singleMark? {c : Char} {m : Mark} (h : singleMark? c = some m) :
    m.spelling.toList = [c] := by
  unfold singleMark? at h
  split at h <;> cases h <;> rfl

theorem text_single (c : Char) : ((singleMark? c).elim (stray c) mark).text = [c] := by
  cases h : singleMark? c with
  | none => rfl
  | some m => exact spelling_of_singleMark? h

/-- A piece and what is left after it make the text it was taken from. -/
theorem text_munch (c : Char) (cs : List Char) :
    (munch c cs).1.text ++ (munch c cs).2 = c :: cs := by
  unfold munch
  split
  · rfl
  split
  · simp [text]
  split
  · simp [text]
  split
  · simp [text_single]
  split
  · simp [text]
  split
  · rename_i h
    simp [text, spelling_of_pairMark? h]
  · simp [text_single]

/-- The pieces of a text joined again are the text. -/
theorem join_cut (text : List Char) : join (cut text) = text := by
  fun_induction cutOnto [] text with
  | case1 => simp [join]
  | case2 done c cs ih =>
      rw [cut_cons, join, List.flatMap_cons]
      rw [join] at ih
      rw [ih, text_munch]

end Piece

end RillLang
