import RillLang.Proofs.Token.Spelling
import RillLang.Proofs.Tree.Exactness

/-!
# What scanning returns

A text that scans has tokens of a known form: lexemes that program text can have, and
one end-of-input token after them (`Token.scanned_of_scan`).  So a number is never
greater than the greatest word, a name is never a keyword, and what is parsed is
everything before the last token.

* `Piece.Proper` — the pieces that cutting a text can give.
* `Token.scannable_of_ofPiece` — the token of such a piece.
-/

namespace RillLang

namespace Piece

/-- A run of digits has a digit and nothing else, and a word starts like a word and goes
on like one. -/
def Proper : Piece → Prop
  | digits text => text ≠ [] ∧ ∀ c ∈ text, isDigit c = true
  | word text => ∃ c cs, text = c :: cs ∧ isWordStart c = true ∧ ∀ d ∈ cs, isWordChar d = true
  | _ => True

theorem proper_single (c : Char) : ((singleMark? c).elim (stray c) mark).Proper := by
  cases singleMark? c <;> trivial

theorem proper_munch (c : Char) (cs : List Char) : (munch c cs).1.Proper := by
  have hall (p : Char → Bool) (l : List Char) : ∀ d ∈ l.takeWhile p, p d = true :=
    List.all_eq_true.1 List.all_takeWhile
  unfold munch
  split
  · trivial
  split
  · rename_i hc
    exact ⟨List.cons_ne_nil _ _, List.forall_mem_cons.2 ⟨hc, hall isDigit cs⟩⟩
  split
  · rename_i hc
    exact ⟨c, _, rfl, hc, hall isWordChar cs⟩
  split
  · exact proper_single c
  split
  · trivial
  split
  · trivial
  · exact proper_single c

/-- Every piece of a text is proper. -/
theorem proper_of_mem_cut {text : List Char} {piece : Piece} (h : piece ∈ cut text) :
    piece.Proper := by
  fun_induction cutOnto [] text with
  | case1 => simp at h
  | case2 done c cs ih =>
      rw [cut_cons] at h
      rcases List.mem_cons.1 h with rfl | hrest
      · exact proper_munch c cs
      · exact ih hrest

end Piece

namespace Token

open Lexeme

/-- A run of digits that is accepted is a word that is not negative. -/
theorem scannable_of_ofDigits {digits : List Char} {line : Int} {t : Token}
    (h : ofDigits digits line = .ok t) : t.lexeme.Scannable := by
  unfold ofDigits at h
  split at h
  · cases h
  split at h
  · cases h
  · rename_i hgreatest
    cases h
    exact .number (Int.natCast_nonneg _) (Int.not_lt.1 hgreatest)

/-- A word is a keyword, or else a name. -/
theorem scannable_ofWord {c : Char} {cs : List Char} (hc : isWordStart c = true)
    (hcs : ∀ d ∈ cs, isWordChar d = true) (line : Int) :
    (ofWord (c :: cs) line).lexeme.Scannable := by
  unfold ofWord
  cases hkeyword : keyword? (c :: cs) with
  | some m => exact .mark m
  | none =>
      have hname : isName (String.ofList (c :: cs)) = true := by
        simp only [isName, String.toList_ofList, hc, hkeyword, Bool.true_and, Option.isNone_none,
          Bool.and_true]
        exact List.all_eq_true.2 hcs
      exact .name hname

theorem scannable_of_ofPiece {piece : Piece} (hpiece : piece.Proper) {line : Int} {t : Token}
    (h : ofPiece piece line = .ok (some t)) : t.lexeme.Scannable := by
  cases piece with
  | blank c => cases h
  | comment text => cases h
  | digits text =>
      simp only [ofPiece] at h
      cases hdigits : ofDigits text line with
      | ok t' =>
          rw [hdigits] at h
          cases h
          exact scannable_of_ofDigits hdigits
      | error e =>
          rw [hdigits] at h
          cases h
  | word text =>
      obtain ⟨c, cs, rfl, hc, hcs⟩ := hpiece
      cases h
      exact scannable_ofWord hc hcs line
  | mark m =>
      cases h
      exact .mark m
  | stray c => cases h

/-- The list is made of lexemes that program text can have, closed by one end-of-input
token. -/
def Scanned (tokens : List Token) : Prop :=
  ∃ body line, tokens = body ++ [endOfInput line] ∧ ∀ t ∈ body, t.lexeme.Scannable

theorem Scanned.cons {t : Token} {tokens : List Token} (ht : t.lexeme.Scannable)
    (h : Scanned tokens) : Scanned (t :: tokens) := by
  obtain ⟨body, line, rfl, hbody⟩ := h
  exact ⟨t :: body, line, rfl, List.forall_mem_cons.2 ⟨ht, hbody⟩⟩

/-- A piece that is allowed gives its token, if it leaves one, before those of the others. -/
theorem ofPieces_cons_of_ok {piece : Piece} {line : Int} {found : Option Token}
    (h : ofPiece piece line = .ok found) (pieces : List Piece) :
    ofPieces line (piece :: pieces) =
      (ofPieces (lineAfter piece line) pieces).map (found.toList ++ ·) := by
  rw [ofPieces_cons, h]
  cases found with
  | none => cases ofPieces (lineAfter piece line) pieces <;> rfl
  | some t => rfl

theorem ofPieces_cons_eq_ok {piece : Piece} {pieces : List Piece} {line : Int}
    {tokens : List Token} :
    ofPieces line (piece :: pieces) = .ok tokens ↔
      ∃ found rest, ofPiece piece line = .ok found ∧
        ofPieces (lineAfter piece line) pieces = .ok rest ∧ tokens = found.toList ++ rest := by
  cases hpiece : ofPiece piece line with
  | error e => simp [ofPieces_cons, hpiece]
  | ok found =>
      rw [ofPieces_cons_of_ok hpiece]
      cases ofPieces (lineAfter piece line) pieces with
      | error e => simp [Except.map]
      | ok rest => simp [Except.map, eq_comm]

theorem ofPieces_cons_eq_error {piece : Piece} {pieces : List Piece} {line : Int}
    {e : ScanError} :
    ofPieces line (piece :: pieces) = .error e ↔
      ofPiece piece line = .error e ∨
        ∃ found, ofPiece piece line = .ok found ∧
          ofPieces (lineAfter piece line) pieces = .error e := by
  cases hpiece : ofPiece piece line with
  | error e' => simp [ofPieces_cons, hpiece]
  | ok found =>
      rw [ofPieces_cons_of_ok hpiece]
      cases ofPieces (lineAfter piece line) pieces with
      | error e' => simp [Except.map]
      | ok rest => simp [Except.map]

theorem scanned_of_ofPieces {pieces : List Piece} (hpieces : ∀ piece ∈ pieces, piece.Proper)
    {line : Int} {tokens : List Token} (h : ofPieces line pieces = .ok tokens) :
    Scanned tokens := by
  induction pieces generalizing line tokens with
  | nil =>
      cases h
      exact ⟨[], line, rfl, List.forall_mem_nil _⟩
  | cons piece pieces ih =>
      obtain ⟨hpiece, hothers⟩ := List.forall_mem_cons.1 hpieces
      obtain ⟨found, rest, hfound, hrest, rfl⟩ := ofPieces_cons_eq_ok.1 h
      cases found with
      | none => exact ih hothers hrest
      | some t => exact (ih hothers hrest).cons (scannable_of_ofPiece hpiece hfound)

/-- The tokens of a text are lexemes that program text can have, closed by one end-of-input
token. -/
theorem scanned_of_scan {text : String} {tokens : List Token} (h : scan text = .ok tokens) :
    Scanned tokens :=
  scanned_of_ofPieces (fun _ => Piece.proper_of_mem_cut) h

/-! ## The end of a scanned list -/

theorem not_isEnd_of_scannable {t : Token} (h : t.lexeme.Scannable) : t.isEnd = false := by
  obtain ⟨lexeme, line⟩ := t
  cases h <;> rfl

/-- A scanned list has no end-of-input token but the last. -/
theorem Scanned.not_isEnd {body : List Token} {last : Int}
    (h : Scanned (body ++ [endOfInput last])) : ∀ t ∈ body, t.isEnd = false := by
  obtain ⟨body', line, heq, hbody'⟩ := h
  obtain ⟨rfl, -⟩ := List.append_inj' heq rfl
  exact fun t ht => not_isEnd_of_scannable (hbody' t ht)

theorem Scanned.closed {tokens : List Token} (h : Scanned tokens) : Closed tokens := by
  obtain ⟨body, line, rfl, -⟩ := h
  exact ⟨endOfInput line, List.getLast?_concat, rfl⟩

/-- What is parsed of a scanned list is made of lexemes that program text can have. -/
theorem Scanned.scannable_of_mem_beforeEnd {tokens : List Token} (h : Scanned tokens) {t : Token}
    (ht : t ∈ beforeEnd tokens) : t.lexeme.Scannable := by
  obtain ⟨body, line, rfl, hbody⟩ := h
  rw [beforeEnd_append (fun t ht => not_isEnd_of_scannable (hbody t ht)) rfl] at ht
  exact hbody t ht

end Token

end RillLang
