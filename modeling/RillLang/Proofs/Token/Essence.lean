import RillLang.Proofs.Token.Joined

/-!
# What matters of a text

Comments, and blanks other than the line feed, leave no token and begin no line.  The other
pieces of a text are its essence, and two texts of one essence have the same tokens on the same
lines, or fail in the same way (`Token.scan_eq_of_essence_eq`).  So a text may be changed in
comments and blanks as one likes, as long as its essence stays.
-/

namespace RillLang

namespace Piece

/-- The piece leaves no token and begins no line. -/
def isIdle : Piece → Bool
  | blank c => c != '\n'
  | comment _ => true
  | _ => false

/-- The pieces of a text that are not idle. -/
def essence (text : List Char) : List Piece := (cut text).filter (!·.isIdle)

/-- The essence of a text that begins with an idle piece is that of the rest. -/
theorem essence_of_isIdle {c : Char} {cs : List Char} (h : (munch c cs).1.isIdle = true) :
    essence (c :: cs) = essence (munch c cs).2 := by
  rw [essence, cut_cons, List.filter_cons_of_neg (by simp [h]), essence]

/-- Texts that begin with the same piece have the same essence when their rests have. -/
theorem essence_congr {c c' : Char} {cs cs' : List Char}
    (hpiece : (munch c cs).1 = (munch c' cs').1)
    (hrest : essence (munch c cs).2 = essence (munch c' cs').2) :
    essence (c :: cs) = essence (c' :: cs') := by
  unfold essence at hrest ⊢
  rw [cut_cons, cut_cons, List.filter_cons, List.filter_cons, hpiece, hrest]

theorem essence_append_newline (text rest : List Char) :
    essence (text ++ '\n' :: rest) = essence text ++ blank '\n' :: essence rest := by
  rw [essence, cut_append_newline, List.filter_append, List.filter_cons_of_pos rfl]
  rfl

end Piece

namespace Token

theorem ofPiece_of_isIdle {piece : Piece} (h : piece.isIdle = true) (line : Int) :
    ofPiece piece line = .ok none ∧ lineAfter piece line = line := by
  cases piece with
  | blank c =>
      have hc : c ≠ '\n' := by simpa [Piece.isIdle] using h
      refine ⟨rfl, ?_⟩
      unfold lineAfter
      split
      case h_1 heq => exact absurd (Piece.blank.inj heq) hc
      case h_2 => rfl
  | comment text => exact ⟨rfl, rfl⟩
  | digits text => cases h
  | word text => cases h
  | mark m => cases h
  | stray c => cases h

/-- Idle pieces can be left out. -/
theorem ofPieces_filter (pieces : List Piece) (line : Int) :
    ofPieces line (pieces.filter (!·.isIdle)) = ofPieces line pieces := by
  induction pieces generalizing line with
  | nil => rfl
  | cons piece pieces ih =>
      by_cases h : piece.isIdle = true
      · obtain ⟨hpiece, hline⟩ := ofPiece_of_isIdle h line
        rw [List.filter_cons_of_neg (by simp [h]), ofPieces_cons, hpiece, hline]
        exact ih line
      · rw [List.filter_cons_of_pos (by simp [h]), ofPieces_cons, ofPieces_cons, ih]

/-- Texts of one essence are scanned alike. -/
theorem scan_eq_of_essence_eq {s s' : String}
    (h : Piece.essence s.toList = Piece.essence s'.toList) : scan s = scan s' := by
  rw [scan, scanChars, scan, scanChars, ← ofPieces_filter, ← ofPieces_filter (Piece.cut s'.toList)]
  exact congrArg (ofPieces 1) h

end Token

end RillLang
