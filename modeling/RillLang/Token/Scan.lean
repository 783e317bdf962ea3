import RillLang.Text.Quoted
import RillLang.Token.Piece
import RillLang.Word

/-!
# Scanning: from text to tokens

`Token.scan` reads the pieces of a text in order and keeps the tokens among them,
each with the line it starts on.  A line feed, and nothing else, begins a new
line.  Blanks and comments leave no token, a word that spells a keyword is that
keyword, and the list is closed by an end-of-input token on the last line.

The first piece that is not allowed ends the scan with a `ScanError`: a stray
character, a number greater than the greatest word, or a run of more digits than
`digitLimit`.
-/

namespace RillLang

/-- A number may be written with at most this many digits, leading zeros included. -/
def digitLimit : Nat := 4300

/-- Why a text has no tokens. -/
inductive ScanError where
  /-- A character that starts no token. -/
  | unexpected (character : String) (line : Int)
  /-- A number, as written, that is greater than the greatest word. -/
  | outOfRange (digits : String) (line : Int)
  /-- A run of `count` digits, more than the limit. -/
  | tooManyDigits (count : Nat)
  deriving DecidableEq, Repr

namespace ScanError

/-- The message for a scan error. -/
def message : ScanError → String
  | unexpected character line =>
    "Unexpected character " ++ Text.quoted character ++ " on line " ++ toString line
  | outOfRange digits line =>
    "Number literal " ++ digits ++ " out of range on line " ++ toString line
  | tooManyDigits count =>
    "Exceeds the limit (" ++ toString digitLimit ++ " digits) for integer string conversion: " ++
      "value has " ++ toString count ++ " digits; " ++
      "use sys.set_int_max_str_digits() to increase the limit"

end ScanError

namespace Token

/-- The number a run of digits stands for. -/
def valueOfDigits (digits : List Char) : Nat := Nat.ofDigitChars 10 digits 0

/-- The token of a run of digits. -/
def ofDigits (digits : List Char) (line : Int) : Except ScanError Token :=
  if digitLimit < digits.length then .error (.tooManyDigits digits.length)
  else if Word.greatest < valueOfDigits digits then
    .error (.outOfRange (String.ofList digits) line)
  else .ok (number (valueOfDigits digits) line)

/-- The keyword a word spells, if it spells one. -/
def keyword? (word : List Char) : Option Mark :=
  Mark.keywords.find? fun m => m.spelling.toList == word

/-- The token of a word: its keyword, or else an identifier. -/
def ofWord (word : List Char) (line : Int) : Token :=
  match keyword? word with
  | some m => mark m line
  | none => identifier (String.ofList word) line

/-- The token of a piece that starts on a line, if it leaves one. -/
def ofPiece (piece : Piece) (line : Int) : Except ScanError (Option Token) :=
  match piece with
  | .blank _ => .ok none
  | .comment _ => .ok none
  | .digits text => (ofDigits text line).map some
  | .word text => .ok (some (ofWord text line))
  | .mark m => .ok (some (mark m line))
  | .stray c => .error (.unexpected (String.singleton c) line)

/-- The line after a piece that starts on a line. -/
def lineAfter (piece : Piece) (line : Int) : Int :=
  match piece with
  | .blank '\n' => line + 1
  | _ => line

/-- The tokens of pieces that start on a line, after the tokens `done`, which are
held last token first. -/
def ofPiecesOnto (done : List Token) (line : Int) : List Piece → Except ScanError (List Token)
  | [] => .ok (endOfInput line :: done).reverse
  | piece :: pieces =>
    match ofPiece piece line with
    | .error e => .error e
    | .ok none => ofPiecesOnto done (lineAfter piece line) pieces
    | .ok (some token) => ofPiecesOnto (token :: done) (lineAfter piece line) pieces

/-- The tokens of pieces that start on a line, closed by an end-of-input token. -/
def ofPieces (line : Int) (pieces : List Piece) : Except ScanError (List Token) :=
  ofPiecesOnto [] line pieces

theorem ofPiecesOnto_append (done before : List Token) (line : Int) (pieces : List Piece) :
    ofPiecesOnto (done ++ before) line pieces =
      (ofPiecesOnto done line pieces).map (before.reverse ++ ·) := by
  induction pieces generalizing done line with
  | nil => simp [ofPiecesOnto, Except.map]
  | cons piece pieces ih =>
      rw [ofPiecesOnto, ofPiecesOnto]
      cases ofPiece piece line with
      | error e => rfl
      | ok found =>
          cases found with
          | none => exact ih done _
          | some token => exact ih (token :: done) _

@[simp] theorem ofPieces_nil (line : Int) : ofPieces line [] = .ok [endOfInput line] := rfl

/-- The first piece gives its token, if it leaves one, and the others go on from the
line after it. -/
theorem ofPieces_cons (line : Int) (piece : Piece) (pieces : List Piece) :
    ofPieces line (piece :: pieces) =
      match ofPiece piece line with
      | .error e => .error e
      | .ok none => ofPieces (lineAfter piece line) pieces
      | .ok (some token) => (ofPieces (lineAfter piece line) pieces).map (token :: ·) := by
  rw [ofPieces, ofPiecesOnto]
  cases ofPiece piece line with
  | error e => rfl
  | ok found =>
      cases found with
      | none => rfl
      | some token => exact ofPiecesOnto_append [] [token] _ pieces

/-- The tokens of a text given as characters. -/
def scanChars (text : List Char) : Except ScanError (List Token) := ofPieces 1 (Piece.cut text)

/-- The tokens of a text. -/
def scan (text : String) : Except ScanError (List Token) := scanChars text.toList

end Token

end RillLang
