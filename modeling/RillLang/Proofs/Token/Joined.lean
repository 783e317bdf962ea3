import RillLang.Proofs.Token.Scanned

/-!
# Scanning texts joined by a line feed

No piece reaches across a line feed: a run of digits or of word characters ends before it,
a comment ends before it, and no mark has one in it.  So the pieces of two texts joined by
a line feed are the pieces of the first, a blank, and the pieces of the second
(`Piece.cut_append_newline`).

The tokens are then those of the first text without its end, and those of the second moved
down by the lines of the first (`Token.scan_then`, `Token.scan_joined`); and what keeps one of
the texts from having tokens keeps the joined text from it, too (`Token.scan_joined_of_error`).
-/

namespace RillLang

/-! ## Pieces -/

/-- A run of characters of a class ends before a character of another class. -/
theorem takeWhile_append_stop {p : Char → Bool} {stop : Char} (hp : p stop = false)
    (cs rest : List Char) :
    (cs ++ stop :: rest).takeWhile p = cs.takeWhile p ∧
      (cs ++ stop :: rest).dropWhile p = cs.dropWhile p ++ stop :: rest := by
  induction cs with
  | nil => simp [hp]
  | cons c cs ih =>
      by_cases hc : p c = true
      · simp [hc, ih]
      · simp [hc]

theorem not_isDigit_newline : isDigit '\n' = false := by decide

theorem not_isWordChar_newline : isWordChar '\n' = false := by decide

theorem not_isCommentChar_newline : isCommentChar '\n' = false := by decide

/-- Every mark of two characters ends with an equals sign. -/
theorem pairMark?_of_ne {d : Char} (hd : d ≠ '=') (c : Char) : pairMark? c d = none := by
  unfold pairMark?
  split <;> first | rfl | contradiction

namespace Piece

/-- The longest piece at the front of a text is the same when a character follows the text that
goes on no piece, provided that the text does not begin with a comment and that the character
does not make it begin with one. -/
theorem munch_append {c stop : Char} {cs : List Char} (hword : isWordChar stop = false)
    (hequals : stop ≠ '=') (hslash : c = '/' → (cs ++ [stop]).head? ≠ some '/')
    (rest : List Char) :
    munch c (cs ++ stop :: rest) = ((munch c cs).1, (munch c cs).2 ++ stop :: rest) := by
  by_cases hblank : isBlank c = true
  · simp [munch, hblank]
  by_cases hdigit : isDigit c = true
  · obtain ⟨htake, hdrop⟩ := takeWhile_append_stop (not_isDigit_of_not_isWordChar hword) cs rest
    simp [munch, hblank, hdigit, htake, hdrop]
  by_cases hstart : isWordStart c = true
  · obtain ⟨htake, hdrop⟩ := takeWhile_append_stop hword cs rest
    simp [munch, hblank, hdigit, hstart, htake, hdrop]
  cases cs with
  | nil =>
      have hnone : ¬ (c = '/' ∧ stop = '/') := by
        rintro ⟨hc, rfl⟩
        exact hslash hc rfl
      simp [munch, hblank, hdigit, hstart, hnone, pairMark?_of_ne hequals]
  | cons d ds =>
      have hnone : ¬ (c = '/' ∧ d = '/') := by
        rintro ⟨hc, rfl⟩
        exact hslash hc rfl
      cases hpair : pairMark? c d with
      | some m => simp [munch, hblank, hdigit, hstart, hnone, hpair]
      | none => simp [munch, hblank, hdigit, hstart, hnone, hpair]

/-- No character but a slash makes a text begin with a comment. -/
theorem munch_append_of_ne {c stop : Char} {cs : List Char} (hword : isWordChar stop = false)
    (hequals : stop ≠ '=') (hslash : stop ≠ '/') (hcomment : ¬ (c = '/' ∧ cs.head? = some '/'))
    (rest : List Char) :
    munch c (cs ++ stop :: rest) = ((munch c cs).1, (munch c cs).2 ++ stop :: rest) := by
  refine munch_append hword hequals (fun hc hhead => ?_) rest
  cases cs with
  | nil => exact hslash (Option.some.inj hhead)
  | cons d ds => exact hcomment ⟨hc, hhead⟩

theorem munch_comment (cs : List Char) :
    munch '/' ('/' :: cs) =
      (comment ('/' :: '/' :: cs.takeWhile isCommentChar), cs.dropWhile isCommentChar) := rfl

/-- The longest piece at the front of a text is the same when a line feed follows the
text. -/
theorem munch_append_newline (c : Char) (cs rest : List Char) :
    munch c (cs ++ '\n' :: rest) = ((munch c cs).1, (munch c cs).2 ++ '\n' :: rest) := by
  by_cases hcomment : c = '/' ∧ cs.head? = some '/'
  · obtain ⟨rfl, hslash⟩ := hcomment
    obtain ⟨ds, rfl⟩ := List.head?_eq_some_iff.1 hslash
    obtain ⟨htake, hdrop⟩ := takeWhile_append_stop not_isCommentChar_newline ds rest
    rw [List.cons_append, munch_comment, munch_comment, htake, hdrop]
  · exact munch_append_of_ne not_isWordChar_newline (by decide) (by decide) hcomment rest

/-- The pieces of two texts joined by a line feed. -/
theorem cut_append_newline (text rest : List Char) :
    cut (text ++ '\n' :: rest) = cut text ++ blank '\n' :: cut rest := by
  fun_induction cutOnto [] text with
  | case1 => rw [List.nil_append, cut_cons, munch_blank rfl, cut_nil, List.nil_append]
  | case2 done c cs ih =>
      rw [List.cons_append, cut_cons, munch_append_newline, cut_cons, List.cons_append, ih]

end Piece

/-! ## Tokens -/

namespace ScanError

/-- The line of an error, which a run of too many digits does not tell. -/
def line? : ScanError → Option Int
  | unexpected _ line => some line
  | outOfRange _ line => some line
  | tooManyDigits _ => none

/-- The error with its line moved down. -/
def moved (n : Int) : ScanError → ScanError
  | unexpected character line => unexpected character (line + n)
  | outOfRange digits line => outOfRange digits (line + n)
  | tooManyDigits count => tooManyDigits count

theorem line?_moved (e : ScanError) (n : Int) : (e.moved n).line? = e.line?.map (· + n) := by
  cases e <;> rfl

/-- The line of an error as its message tells it. -/
def lineText (e : ScanError) : String := e.line?.elim "" toString

/-- The message of an error ends with its line, if it tells one, and nothing before that
depends on the line. -/
theorem exists_front (e : ScanError) (n : Int) :
    ∃ front, e.message = front ++ e.lineText ∧
      (e.moved n).message = front ++ (e.moved n).lineText := by
  cases e with
  | unexpected character line => exact ⟨_, rfl, rfl⟩
  | outOfRange digits line => exact ⟨_, rfl, rfl⟩
  | tooManyDigits count => exact ⟨_, String.append_empty.symm, String.append_empty.symm⟩

end ScanError

namespace Token

/-- The token with its line moved down. -/
def moved (n : Int) (t : Token) : Token := ⟨t.lexeme, t.line + n⟩

theorem ofDigits_moved {digits : List Char} {line : Int} {t : Token}
    (h : ofDigits digits line = .ok t) (n : Int) :
    ofDigits digits (line + n) = .ok (t.moved n) := by
  unfold ofDigits at h ⊢
  split at h
  · cases h
  split at h
  · cases h
  · cases h
    rename_i hlength hgreatest
    rw [if_neg hlength, if_neg hgreatest]
    rfl

theorem ofDigits_moved_of_error {digits : List Char} {line : Int} {e : ScanError}
    (h : ofDigits digits line = .error e) (n : Int) :
    ofDigits digits (line + n) = .error (e.moved n) := by
  unfold ofDigits at h ⊢
  split at h
  case isTrue hlength =>
    cases h
    rw [if_pos hlength]
    rfl
  case isFalse hlength =>
    split at h
    case isTrue hgreatest =>
      cases h
      rw [if_neg hlength, if_pos hgreatest]
      rfl
    case isFalse => cases h

theorem ofWord_moved (word : List Char) (line n : Int) :
    ofWord word (line + n) = (ofWord word line).moved n := by
  unfold ofWord
  cases keyword? word <;> rfl

/-- What a piece leaves does not depend on its line, but for the line. -/
theorem ofPiece_moved {piece : Piece} {line : Int} {found : Option Token}
    (h : ofPiece piece line = .ok found) (n : Int) :
    ofPiece piece (line + n) = .ok (found.map (moved n)) := by
  cases piece with
  | blank c =>
      cases h
      rfl
  | comment text =>
      cases h
      rfl
  | digits text =>
      rw [ofPiece] at h ⊢
      cases hdigits : ofDigits text line with
      | error e =>
          rw [hdigits] at h
          cases h
      | ok t =>
          rw [hdigits] at h
          cases h
          rw [ofDigits_moved hdigits]
          rfl
  | word text =>
      cases h
      rw [ofPiece, ofWord_moved]
      rfl
  | mark m =>
      cases h
      rfl
  | stray c => cases h

/-- What is wrong with a piece does not depend on its line, but for the line. -/
theorem ofPiece_moved_of_error {piece : Piece} {line : Int} {e : ScanError}
    (h : ofPiece piece line = .error e) (n : Int) :
    ofPiece piece (line + n) = .error (e.moved n) := by
  cases piece with
  | blank c => cases h
  | comment text => cases h
  | digits text =>
      rw [ofPiece] at h ⊢
      cases hdigits : ofDigits text line with
      | error e' =>
          rw [hdigits] at h
          cases h
          rw [ofDigits_moved_of_error hdigits]
          rfl
      | ok t =>
          rw [hdigits] at h
          cases h
  | word text => cases h
  | mark m => cases h
  | stray c =>
      cases h
      rfl

theorem lineAfter_add (piece : Piece) (line n : Int) :
    lineAfter piece (line + n) = lineAfter piece line + n := by
  unfold lineAfter
  split
  · omega
  · rfl

/-- The tokens of pieces that start further down are moved by as many lines. -/
theorem ofPieces_moved {pieces : List Piece} {line : Int} {tokens : List Token}
    (h : ofPieces line pieces = .ok tokens) (n : Int) :
    ofPieces (line + n) pieces = .ok (tokens.map (moved n)) := by
  induction pieces generalizing line tokens with
  | nil =>
      cases h
      rfl
  | cons piece pieces ih =>
      obtain ⟨found, rest, hfound, hrest, rfl⟩ := ofPieces_cons_eq_ok.1 h
      have hothers := ih hrest
      rw [← lineAfter_add] at hothers
      refine ofPieces_cons_eq_ok.2 ⟨_, _, ofPiece_moved hfound n, hothers, ?_⟩
      cases found <;> rfl

/-- The error of pieces that start further down is moved by as many lines. -/
theorem ofPieces_moved_of_error {pieces : List Piece} {line : Int} {e : ScanError}
    (h : ofPieces line pieces = .error e) (n : Int) :
    ofPieces (line + n) pieces = .error (e.moved n) := by
  induction pieces generalizing line with
  | nil => cases h
  | cons piece pieces ih =>
      rcases ofPieces_cons_eq_error.1 h with hpiece | ⟨found, hfound, hothers⟩
      · exact ofPieces_cons_eq_error.2 (.inl (ofPiece_moved_of_error hpiece n))
      · have hmoved := ih hothers
        rw [← lineAfter_add] at hmoved
        exact ofPieces_cons_eq_error.2 (.inr ⟨_, ofPiece_moved hfound n, hmoved⟩)

/-- Pieces that fail do so whatever follows them. -/
theorem ofPieces_append_of_error {pieces : List Piece} {line : Int} {e : ScanError}
    (h : ofPieces line pieces = .error e) (others : List Piece) :
    ofPieces line (pieces ++ others) = .error e := by
  induction pieces generalizing line with
  | nil => cases h
  | cons piece pieces ih =>
      rcases ofPieces_cons_eq_error.1 h with hpiece | ⟨found, hfound, hothers⟩
      · exact ofPieces_cons_eq_error.2 (.inl hpiece)
      · exact ofPieces_cons_eq_error.2 (.inr ⟨found, hfound, ih hothers⟩)

/-- Pieces that are followed by others have the tokens before their end, and the others go
on from the line of that end. -/
theorem ofPieces_append {pieces : List Piece} {line : Int} {tokens : List Token}
    (h : ofPieces line pieces = .ok tokens) :
    ∃ body last, tokens = body ++ [endOfInput last] ∧
      ∀ others, ofPieces line (pieces ++ others) = (ofPieces last others).map (body ++ ·) := by
  induction pieces generalizing line tokens with
  | nil =>
      cases h
      refine ⟨[], line, rfl, fun others => ?_⟩
      rw [List.nil_append]
      cases ofPieces line others <;> rfl
  | cons piece pieces ih =>
      obtain ⟨found, rest, hfound, hrest, rfl⟩ := ofPieces_cons_eq_ok.1 h
      obtain ⟨body, last, rfl, heq⟩ := ih hrest
      refine ⟨found.toList ++ body, last, by simp, fun others => ?_⟩
      rw [List.cons_append, ofPieces_cons_of_ok hfound, heq]
      cases ofPieces last others with
      | error e => rfl
      | ok tokens => simp [Except.map]

/-- The pieces of two texts joined by a line feed, as characters. -/
theorem scan_append_newline (s s' : String) :
    scan (s ++ "\n" ++ s') =
      ofPieces 1 (Piece.cut s.toList ++ .blank '\n' :: Piece.cut s'.toList) := by
  have hchars : (s ++ "\n" ++ s').toList = s.toList ++ '\n' :: s'.toList := by simp
  rw [scan, scanChars, hchars, Piece.cut_append_newline]

/-- What comes after a line feed starts on the next line. -/
theorem ofPieces_newline (last : Int) (text : List Char) :
    ofPieces last (.blank '\n' :: Piece.cut text) = ofPieces (1 + last) (Piece.cut text) := by
  rw [ofPieces_cons, Int.add_comm]
  rfl

/-- The tokens of two texts joined by a line feed are those of the first without its end,
and those of the second, moved down by the lines of the first.  When the second fails, so do
they, further down. -/
theorem scan_then {s : String} {tokens : List Token} (h : scan s = .ok tokens) (s' : String) :
    ∃ body last, tokens = body ++ [endOfInput last] ∧
      (∀ tokens', scan s' = .ok tokens' →
        scan (s ++ "\n" ++ s') = .ok (body ++ tokens'.map (moved last))) ∧
      ∀ e, scan s' = .error e → scan (s ++ "\n" ++ s') = .error (e.moved last) := by
  obtain ⟨body, last, hbody, heq⟩ := ofPieces_append h
  refine ⟨body, last, hbody, fun tokens' h' => ?_, fun e h' => ?_⟩
  · rw [scan_append_newline, heq, ofPieces_newline, ofPieces_moved h']
    rfl
  · rw [scan_append_newline, heq, ofPieces_newline, ofPieces_moved_of_error h']
    rfl

theorem scan_joined {s s' : String} {tokens tokens' : List Token} (h : scan s = .ok tokens)
    (h' : scan s' = .ok tokens') :
    ∃ body last, tokens = body ++ [endOfInput last] ∧
      scan (s ++ "\n" ++ s') = .ok (body ++ tokens'.map (moved last)) := by
  obtain ⟨body, last, hbody, hok, -⟩ := scan_then h s'
  exact ⟨body, last, hbody, hok tokens' h'⟩

/-- A text that fails does so whatever is joined to it. -/
theorem scan_joined_of_error {s : String} {e : ScanError} (h : scan s = .error e) (s' : String) :
    scan (s ++ "\n" ++ s') = .error e := by
  rw [scan_append_newline]
  exact ofPieces_append_of_error h _

end Token

end RillLang
