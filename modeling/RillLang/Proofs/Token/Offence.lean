import RillLang.Proofs.Token.Munch
import RillLang.Token.Offence

/-!
# The first offence

A text scans exactly when no place in it offends, and otherwise the scanner stops with the
error of the leftmost place that does (`scan_stops_at_first_offence`).  Places offend by the
characters around them, whatever the scanner has done before; so it has to be shown that the
scanner never stands in the middle of something.

* `Token.Boundary` — what holds of each place the scanner stands at: no comment that began
  before it is still open, and a digit there starts a number.
* `Piece.Munches.boundary` — the place after a piece is such a place again.
* `Piece.Munches.inoffensive`, `Piece.Munches.offends` — a piece that is allowed covers no
  place that offends, and one that is not starts with its offence.
* `Token.ofPieces_firstOffence` — the whole text, piece by piece.
-/

namespace RillLang

/-! ## Characters -/

/-- Punctuation is what the marks of one character are written with. -/
theorem mem_punctuation_of_singleMark? {c : Char} {m : Mark} (h : singleMark? c = some m) :
    c ∈ punctuation := by
  unfold singleMark? at h
  split at h <;> first | decide | cases h

theorem not_mem_punctuation {c : Char} (h : singleMark? c = none) : c ∉ punctuation := by
  intro hmem
  simp only [punctuation, List.mem_cons, List.not_mem_nil, or_false] at hmem
  rcases hmem with rfl | rfl | rfl | rfl | rfl | rfl | rfl | rfl | rfl | rfl | rfl | rfl <;> cases h

/-- Both characters of a mark of two belong, the first because of the second. -/
theorem belongs_of_pairMark? {c d : Char} {m : Mark} (h : pairMark? c d = some m) :
    Belongs c (some d) ∧ d = '=' := by
  unfold pairMark? at h
  split at h
  · exact ⟨.inr (.inr (.inl (by decide))), rfl⟩
  · exact ⟨.inr (.inr (.inr ⟨rfl, rfl⟩)), rfl⟩
  · exact ⟨.inr (.inr (.inl (by decide))), rfl⟩
  · exact ⟨.inr (.inr (.inl (by decide))), rfl⟩
  · cases h

/-- A character that no piece starts with belongs nowhere. -/
theorem not_belongs_of_stray {c : Char} {next : Option Char} (hblank : isBlank c = false)
    (hword : isWordChar c = false) (hsingle : singleMark? c = none)
    (hpair : ∀ d, next = some d → pairMark? c d = none) : ¬ Belongs c next := by
  rintro (h | h | h | ⟨rfl, h⟩)
  · rw [hblank] at h
    cases h
  · rw [hword] at h
    cases h
  · exact not_mem_punctuation hsingle h
  · cases hpair '=' h

/-! ## Offences of one place -/

section Place

variable {text : List Char} {i : Nat} {e e' : ScanError}

theorem Offends.lt_length (h : Offends text i e) : i < text.length := by
  have hsome {c : Char} (hc : text[i]? = some c) : i < text.length :=
    (List.getElem?_eq_some_iff.1 hc).1
  cases h with
  | stray _ hc _ => exact hsome hc
  | tooManyDigits _ hstarts _ =>
      obtain ⟨⟨c, hc, -⟩, -⟩ := hstarts
      exact hsome hc
  | outOfRange _ hstarts _ _ =>
      obtain ⟨⟨c, hc, -⟩, -⟩ := hstarts
      exact hsome hc

theorem StartsNumber.belongs {c : Char} {next : Option Char} (h : StartsNumber text i)
    (hc : text[i]? = some c) : Belongs c next := by
  obtain ⟨⟨d, hd, hdigit⟩, -⟩ := h
  rw [hc] at hd
  cases hd
  exact .inr (.inl (isWordChar_of_isDigit hdigit))

/-- A place has at most one error. -/
theorem Offends.unique (h : Offends text i e) (h' : Offends text i e') : e = e' := by
  cases h with
  | stray _ hc hbelongs =>
      cases h' with
      | stray _ hc' _ =>
          rw [hc] at hc'
          cases hc'
          rfl
      | tooManyDigits _ hstarts _ => exact absurd (hstarts.belongs hc) hbelongs
      | outOfRange _ hstarts _ _ => exact absurd (hstarts.belongs hc) hbelongs
  | tooManyDigits _ hstarts hmany =>
      cases h' with
      | stray _ hc hbelongs => exact absurd (hstarts.belongs hc) hbelongs
      | tooManyDigits => rfl
      | outOfRange _ _ hfew _ => exact absurd hmany (Nat.not_lt.2 hfew)
  | outOfRange _ hstarts hfew _ =>
      cases h' with
      | stray _ hc hbelongs => exact absurd (hstarts.belongs hc) hbelongs
      | tooManyDigits _ _ hmany => exact absurd hmany (Nat.not_lt.2 hfew)
      | outOfRange => rfl

theorem not_offends_of_inComment (h : InComment text i) : ¬ Offends text i e := by
  intro hoffends
  cases hoffends with
  | stray hcomment => exact hcomment h
  | tooManyDigits hcomment => exact hcomment h
  | outOfRange hcomment => exact hcomment h

/-- A character that belongs offends only where it starts a number. -/
theorem not_offends_of_belongs {c : Char} (hc : text[i]? = some c)
    (hbelongs : Belongs c text[i + 1]?) (hstarts : ¬ StartsNumber text i) :
    ¬ Offends text i e := by
  intro hoffends
  cases hoffends with
  | stray _ hc' hstray =>
      rw [hc] at hc'
      cases hc'
      exact hstray hbelongs
  | tooManyDigits _ h => exact hstarts h
  | outOfRange _ h => exact hstarts h

theorem not_startsNumber_of_not_isDigit {c : Char} (hc : text[i]? = some c)
    (hdigit : isDigit c = false) : ¬ StartsNumber text i := by
  rintro ⟨⟨d, hd, h⟩, -⟩
  rw [hc] at hd
  cases hd
  rw [hdigit] at h
  cases h

theorem not_startsNumber_of_isWordChar {c : Char} (hi : 0 < i) (hc : text[i - 1]? = some c)
    (hword : isWordChar c = true) : ¬ StartsNumber text i := by
  rintro ⟨-, hbefore⟩
  rw [hbefore c hi hc] at hword
  cases hword

end Place

/-! ## Places the scanner stands at -/

namespace Token

/-- No place before this one offends, no comment that began before it goes on, and a digit
there starts a number.  At the end of the text a comment may have gone on. -/
structure Boundary (text : List Char) (n : Nat) : Prop where
  /-- Nothing has offended. -/
  clean : ∀ j < n, ∀ e, ¬ Offends text j e
  /-- The line of two slashes has ended. -/
  comment : n < text.length → ∀ j < n, text[j]? = some '/' → text[j + 1]? = some '/' →
    ∃ k, j ≤ k ∧ k ≤ n ∧ text[k]? = some '\n'
  /-- Neither a word nor a run of digits goes on. -/
  number : ∀ c, text[n]? = some c → isDigit c = true → StartsNumber text n

theorem boundary_zero (text : List Char) : Boundary text 0 where
  clean := by
    intro j hj
    omega
  comment := by
    intro _ j hj
    omega
  number := by
    intro c hc hdigit
    exact ⟨⟨c, hc, hdigit⟩, fun d hpos => absurd hpos (Nat.lt_irrefl 0)⟩

/-- Where no comment begins, none is open. -/
theorem Boundary.not_inComment {text : List Char} {n : Nat} (h : Boundary text n) {c : Char}
    (hc : text[n]? = some c) (hslash : c ≠ '/') : ¬ InComment text n := by
  rintro ⟨j, hj, hslash₁, hslash₂, hline⟩
  obtain hlt | rfl := Nat.lt_or_eq_of_le hj
  · have hn : n < text.length := (List.getElem?_eq_some_iff.1 hc).1
    obtain ⟨k, hjk, hkn, hk⟩ := h.comment hn j hlt hslash₁ hslash₂
    exact hline k hjk hkn hk
  · rw [hc] at hslash₁
    cases hslash₁
    exact hslash rfl

end Token

/-! ## One piece -/

section Drop

variable {text word rest : List Char} {n i : Nat}

/-- The characters of a word that stands at a place. -/
theorem getElem?_of_drop (h : text.drop n = word ++ rest) (hn : n ≤ i) (hi : i < n + word.length) :
    text[i]? = word[i - n]? := by
  have hdrop : (text.drop n)[i - n]? = text[i]? := by
    rw [List.getElem?_drop, Nat.add_sub_cancel' hn]
  rw [← hdrop, h, List.getElem?_append_left (by omega)]

theorem exists_mem_of_drop (h : text.drop n = word ++ rest) (hn : n ≤ i)
    (hi : i < n + word.length) : ∃ c ∈ word, text[i]? = some c := by
  have hlt : i - n < word.length := by omega
  refine ⟨word[i - n], List.getElem_mem hlt, ?_⟩
  rw [getElem?_of_drop h hn hi, List.getElem?_eq_getElem hlt]

theorem getElem?_at_drop {c : Char} (h : text.drop n = c :: word ++ rest) :
    text[n]? = some c := by
  rw [getElem?_of_drop h (Nat.le_refl n) (by simp), Nat.sub_self]
  rfl

/-- The character after a word that stands at a place. -/
theorem getElem?_after_drop (h : text.drop n = word ++ rest) :
    text[n + word.length]? = rest.head? := by
  rw [← List.getElem?_drop, h, List.getElem?_append_right (Nat.le_refl _), Nat.sub_self,
    List.head?_eq_getElem?]

end Drop

theorem not_of_mem_head?_dropWhile {p : Char → Bool} {cs : List Char} {d : Char}
    (h : d ∈ (cs.dropWhile p).head?) : p d = false := by
  have hstop := List.head?_dropWhile_not p cs
  rw [h] at hstop
  exact hstop

namespace Piece

open Token

section Munches

variable {text cs rest : List Char} {n i : Nat} {c : Char} {piece : Piece} {e : ScanError}

/-- A run of word characters offends nowhere but perhaps at its start. -/
theorem not_offends_inside {word : List Char} (hdrop : text.drop n = word ++ rest)
    (hword : ∀ d ∈ word, isWordChar d = true) (hn : n < i) (hi : i < n + word.length) :
    ¬ Offends text i e := by
  obtain ⟨d, hd, hat⟩ := exists_mem_of_drop hdrop (Nat.le_of_lt hn) hi
  obtain ⟨d', hd', hbefore⟩ := exists_mem_of_drop (i := i - 1) hdrop (by omega) (by omega)
  exact not_offends_of_belongs hat (.inr (.inl (hword d hd)))
    (not_startsNumber_of_isWordChar (by omega) hbefore (hword d' hd'))

/-- A sign or a blank is no digit, and no word goes on after it. -/
theorem not_offends_of_not_isWordChar {d : Char} (hat : text[i]? = some d)
    (hbelongs : Belongs d text[i + 1]?) (hword : isWordChar d = false) : ¬ Offends text i e := by
  have hdigit := not_isDigit_of_not_isWordChar hword
  exact not_offends_of_belongs hat hbelongs (not_startsNumber_of_not_isDigit hat hdigit)

/-- The place where a run of digits starts does not offend when the run is allowed. -/
theorem not_offends_of_ofDigits {digits : List Char} {line : Int} {t : Token}
    (hok : ofDigits digits line = .ok t) (hat : text[n]? = some c) (hc : isDigit c = true)
    (hdigits : digitsAt text n = digits) : ¬ Offends text n e := by
  obtain ⟨hlength, hgreatest, -⟩ := ofDigits_eq_ok.1 hok
  intro hoffends
  cases hoffends with
  | stray _ hat' hstray =>
      rw [hat] at hat'
      cases hat'
      exact hstray (.inr (.inl (isWordChar_of_isDigit hc)))
  | tooManyDigits _ _ hmany =>
      rw [hdigits] at hmany
      omega
  | outOfRange _ _ _ hgreat =>
      rw [hdigits] at hgreat
      omega

/-- The run of digits at a place where one is cut off. -/
theorem digitsAt_of_drop (hc : isDigit c = true)
    (hdrop : text.drop n = c :: cs.takeWhile isDigit ++ cs.dropWhile isDigit) :
    digitsAt text n = c :: cs.takeWhile isDigit := by
  rw [digitsAt, hdrop, List.cons_append, List.takeWhile_append_dropWhile,
    List.takeWhile_cons_of_pos hc]

/-- Every place of a comment is inside the comment. -/
theorem not_offends_comment {run : List Char} (hdrop : text.drop n = '/' :: '/' :: run ++ rest)
    (hline : '\n' ∉ '/' :: '/' :: run) (hn : n ≤ i) (hi : i < n + ('/' :: '/' :: run).length) :
    ¬ Offends text i e := by
  refine not_offends_of_inComment ⟨n, hn, ?_, ?_, fun k hnk hki hk => ?_⟩
  · rw [getElem?_of_drop hdrop (Nat.le_refl n) (by simp), Nat.sub_self]
    rfl
  · rw [getElem?_of_drop hdrop (Nat.le_add_right n 1) (by simp), Nat.add_sub_cancel_left]
    rfl
  · obtain ⟨d, hd, hat⟩ := exists_mem_of_drop hdrop hnk (Nat.lt_of_le_of_lt hki hi)
    rw [hk] at hat
    cases hat
    exact hline hd

theorem not_offends_pair {d : Char} {m : Mark} (hpair : pairMark? c d = some m)
    (hdrop : text.drop n = [c, d] ++ rest) (hn : n ≤ i) (hi : i < n + 2) : ¬ Offends text i e := by
  obtain ⟨hbelongs, rfl⟩ := belongs_of_pairMark? hpair
  have hsecond : text[n + 1]? = some '=' := by
    rw [getElem?_of_drop hdrop (Nat.le_add_right n 1) (Nat.lt_succ_self _), Nat.add_sub_cancel_left]
    rfl
  obtain rfl | rfl : i = n ∨ i = n + 1 := by omega
  · have hfirst : text[i]? = some c := by
      rw [getElem?_of_drop hdrop hn hi, Nat.sub_self]
      rfl
    have hsign := class_of_isSign (isSign_of_pairMark? hpair)
    rw [← hsecond] at hbelongs
    exact not_offends_of_not_isWordChar hfirst hbelongs (by simp [isWordChar, hsign])
  · exact not_offends_of_not_isWordChar hsecond (.inr (.inr (.inl (by decide)))) (by decide)

/-- A piece that is allowed covers no place that offends. -/
theorem Munches.inoffensive (hm : Munches c cs piece rest)
    (hdrop : text.drop n = piece.text ++ rest) {line : Int} {found : Option Token}
    (hok : ofPiece piece line = .ok found) (hn : n ≤ i) (hi : i < n + piece.text.length) :
    ¬ Offends text i e := by
  have hnewline := hm.newline
  cases hm with
  | blank hc =>
      obtain ⟨d, hd, hat⟩ := exists_mem_of_drop hdrop hn hi
      rw [List.mem_singleton.1 hd] at hat
      exact not_offends_of_not_isWordChar hat (.inl hc) (not_isWordChar_of_isBlank hc)
  | digits hc =>
      obtain ⟨t, -, hdigits⟩ := ofPiece_digits_eq_ok hok
      obtain hlt | rfl := Nat.lt_or_eq_of_le hn
      · refine not_offends_inside hdrop (fun d hd => isWordChar_of_isDigit ?_) hlt hi
        exact (matches_digits hc cs).2 d hd
      · exact not_offends_of_ofDigits hdigits (getElem?_at_drop hdrop) hc (digitsAt_of_drop hc hdrop)
  | word hc =>
      obtain hlt | rfl := Nat.lt_or_eq_of_le hn
      · refine not_offends_inside hdrop (List.forall_mem_cons.2 ?_) hlt hi
        exact ⟨isWordChar_of_isWordStart hc, List.all_eq_true.1 List.all_takeWhile⟩
      · have hat : text[n]? = some c := getElem?_at_drop hdrop
        exact not_offends_of_belongs hat (.inr (.inl (isWordChar_of_isWordStart hc)))
          (not_startsNumber_of_not_isDigit hat (not_isDigit_of_isWordStart hc))
  | comment =>
      obtain hblank | hline := hnewline
      · cases hblank
      · exact not_offends_comment hdrop hline hn hi
  | @pair d _ m hcs hpair =>
      rw [Piece.text, spelling_of_pairMark? hpair] at hdrop hi
      exact not_offends_pair hpair hdrop hn hi
  | @single m hsingle =>
      rw [Piece.text, spelling_of_singleMark? hsingle] at hdrop hi
      obtain ⟨d, hd, hat⟩ := exists_mem_of_drop hdrop hn hi
      rw [List.mem_singleton.1 hd] at hat
      have hsign := class_of_isSign (isSign_of_singleMark? hsingle)
      exact not_offends_of_not_isWordChar hat
        (.inr (.inr (.inl (mem_punctuation_of_singleMark? hsingle)))) (by simp [isWordChar, hsign])
  | stray => cases hok

/-- A piece that is not allowed starts with its offence. -/
theorem Munches.offends (hm : Munches c cs piece rest) (hdrop : text.drop n = piece.text ++ rest)
    (hboundary : Boundary text n) (herror : ofPiece piece (lineAt text n) = .error e) :
    Offends text n e := by
  cases hm with
  | blank => cases herror
  | digits hc =>
      have hat : text[n]? = some c := getElem?_at_drop hdrop
      have hcomment : ¬ InComment text n := hboundary.not_inComment hat (by rintro rfl; cases hc)
      have hstarts := hboundary.number c hat hc
      have hdigits : digitsAt text n = c :: cs.takeWhile isDigit := digitsAt_of_drop hc hdrop
      rw [ofPiece, ← hdigits, ofDigits] at herror
      split at herror
      case isTrue hmany =>
        cases herror
        exact .tooManyDigits hcomment hstarts hmany
      case isFalse hfew =>
        split at herror
        case isTrue hgreat =>
          cases herror
          exact .outOfRange hcomment hstarts (Nat.not_lt.1 hfew) hgreat
        case isFalse => cases herror
  | word => cases herror
  | comment => cases herror
  | pair => cases herror
  | single => cases herror
  | stray hblank hword hsingle hpair =>
      cases herror
      have hat : text[n]? = some c := getElem?_at_drop hdrop
      have hnext : text[n + 1]? = cs.head? := getElem?_after_drop hdrop
      refine .stray (hboundary.not_inComment hat (by rintro rfl; cases hsingle)) hat ?_
      rw [hnext]
      exact not_belongs_of_stray hblank hword hsingle hpair

/-- After a piece neither a word nor a run of digits goes on. -/
theorem Munches.apart (hm : Munches c cs piece rest) :
    (∀ d ∈ rest.head?, isDigit d = false) ∨ ∀ d ∈ piece.text, isWordChar d = false := by
  cases hm with
  | blank hc => exact .inr (List.forall_mem_singleton.2 (not_isWordChar_of_isBlank hc))
  | digits => exact .inl fun d hd => not_of_mem_head?_dropWhile hd
  | word =>
      exact .inl fun d hd => not_isDigit_of_not_isWordChar (not_of_mem_head?_dropWhile hd)
  | comment =>
      refine .inl fun d hd => ?_
      have hnewline : isCommentChar d = false := not_of_mem_head?_dropWhile hd
      obtain rfl : d = '\n' := by simpa [isCommentChar] using hnewline
      exact not_isDigit_newline
  | @pair d _ m hcs hpair =>
      obtain ⟨-, rfl⟩ := belongs_of_pairMark? hpair
      rw [Piece.text, spelling_of_pairMark? hpair]
      have hsign := class_of_isSign (isSign_of_pairMark? hpair)
      have hequals : isWordChar '=' = false := rfl
      exact .inr (List.forall_mem_cons.2
        ⟨by simp [isWordChar, hsign], List.forall_mem_singleton.2 hequals⟩)
  | @single m hsingle =>
      rw [Piece.text, spelling_of_singleMark? hsingle]
      have hsign := class_of_isSign (isSign_of_singleMark? hsingle)
      exact .inr (List.forall_mem_singleton.2 (by simp [isWordChar, hsign]))
  | stray _ hword => exact .inr (List.forall_mem_singleton.2 hword)

/-- Two slashes that begin in a piece are in a comment, which ends before a line feed. -/
theorem Munches.slashes (hm : Munches c cs piece rest) (hdrop : text.drop n = piece.text ++ rest)
    (hn : n ≤ i) (hi : i < n + piece.text.length) (hfirst : text[i]? = some '/')
    (hsecond : text[i + 1]? = some '/') : ∀ d ∈ rest.head?, d = '\n' := by
  obtain ⟨d, hd, hat⟩ := exists_mem_of_drop hdrop hn hi
  rw [hfirst] at hat
  cases hat
  cases hm with
  | blank hc =>
      rw [← List.mem_singleton.1 hd] at hc
      cases hc
  | digits hc => cases (matches_digits hc cs).2 _ hd
  | word hc =>
      rcases List.mem_cons.1 hd with rfl | hd
      · cases hc
      · cases List.all_eq_true.1 List.all_takeWhile _ hd
  | comment =>
      intro d hd
      have hnewline : isCommentChar d = false := not_of_mem_head?_dropWhile hd
      simpa [isCommentChar] using hnewline
  | @pair d _ m hcs hpair =>
      obtain ⟨-, rfl⟩ := belongs_of_pairMark? hpair
      rw [Piece.text, spelling_of_pairMark? hpair] at hd
      rcases List.mem_cons.1 hd with rfl | hd
      · rw [pairMark?_slash] at hpair
        cases hpair
      · cases List.mem_singleton.1 hd
  | @single m hsingle hcomment =>
      -- a slash on its own is not followed by another
      rw [Piece.text, spelling_of_singleMark? hsingle] at hd hdrop hi
      obtain rfl : i = n := by simp at hi; omega
      rw [show i + 1 = i + [c].length from rfl, getElem?_after_drop hdrop] at hsecond
      exact absurd hsecond (hcomment (List.mem_singleton.1 hd).symm)
  | stray _ _ hsingle =>
      rw [← List.mem_singleton.1 hd] at hsingle
      cases hsingle

/-- The place after a piece that is allowed is a boundary again. -/
theorem Munches.boundary (hm : Munches c cs piece rest) (hdrop : text.drop n = piece.text ++ rest)
    (hpos : 0 < piece.text.length) {line : Int} {found : Option Token}
    (hok : ofPiece piece line = .ok found) (hboundary : Boundary text n) :
    Boundary text (n + piece.text.length) where
  clean := by
    intro j hj e
    by_cases hjn : j < n
    · exact hboundary.clean j hjn e
    · exact hm.inoffensive hdrop hok (Nat.not_lt.1 hjn) hj
  comment := by
    intro hlength j hj hfirst hsecond
    by_cases hjn : j < n
    · obtain ⟨k, hjk, hkn, hk⟩ := hboundary.comment (by omega) j hjn hfirst hsecond
      exact ⟨k, hjk, by omega, hk⟩
    · have hend := hm.slashes hdrop (Nat.not_lt.1 hjn) hj hfirst hsecond
      have hafter := getElem?_after_drop hdrop
      rw [List.getElem?_eq_getElem hlength] at hafter
      refine ⟨n + piece.text.length, Nat.le_of_lt hj, Nat.le_refl _, ?_⟩
      rw [List.getElem?_eq_getElem hlength, hend _ hafter.symm]
  number := by
    intro d hd hdigit
    refine ⟨⟨d, hd, hdigit⟩, fun d' _ hbefore => ?_⟩
    rcases hm.apart with hstop | hsigns
    · rw [getElem?_after_drop hdrop] at hd
      rw [hstop d hd] at hdigit
      cases hdigit
    · obtain ⟨d'', hmem, hat⟩ :=
        exists_mem_of_drop (i := n + piece.text.length - 1) hdrop (by omega) (by omega)
      rw [hbefore] at hat
      cases hat
      exact hsigns _ hmem

end Munches

end Piece

/-! ## The whole text -/

namespace Token

theorem lineAt_add {text word rest : List Char} {n : Nat} (h : text.drop n = word ++ rest) :
    lineAt text (n + word.length) = lineAt text n + word.count '\n' := by
  rw [lineAt, lineAt, List.take_add, h, List.take_left, List.count_append]
  omega

theorem Boundary.not_offends {text : List Char} {n : Nat} (h : Boundary text n)
    (hend : text.length ≤ n) (i : Nat) (e : ScanError) : ¬ Offends text i e := by
  intro hoffends
  exact h.clean i (Nat.lt_of_lt_of_le hoffends.lt_length hend) e hoffends

/-- From a boundary on, the scanner finds all tokens when nothing offends, and otherwise stops
with the first offence.  The induction is on the cutting: a piece that is allowed leads to
the next boundary, and one that is not is the first offence. -/
theorem ofPieces_firstOffence {text rest : List Char} {n : Nat} (hdrop : text.drop n = rest)
    (hboundary : Boundary text n) :
    (∀ tokens, ofPieces (lineAt text n) (Piece.cut rest) = .ok tokens →
        ∀ i e, ¬ Offends text i e) ∧
      ∀ e, ofPieces (lineAt text n) (Piece.cut rest) = .error e → ∃ i, FirstOffence text i e := by
  fun_induction Piece.cutOnto [] rest generalizing n with
  | case1 =>
      rw [Piece.cut_nil, ofPieces_nil]
      refine ⟨fun _ _ => hboundary.not_offends (List.drop_eq_nil_iff.1 hdrop), ?_⟩
      rintro e ⟨⟩
  | case2 done c cs ih =>
      have hm := Piece.munches_munch c cs
      have hmunch := Piece.text_munch c cs
      have hle := Piece.length_munch_le c cs
      rw [Piece.cut_cons]
      generalize (Piece.munch c cs).1 = piece, (Piece.munch c cs).2 = rest at *
      have hpos : 0 < piece.text.length := by
        have hlength := congrArg List.length hmunch
        simp only [List.length_append, List.length_cons] at hlength
        omega
      rw [← hmunch] at hdrop
      cases hpiece : ofPiece piece (lineAt text n) with
      | error e =>
          rw [ofPieces_cons, hpiece]
          refine ⟨by rintro tokens ⟨⟩, ?_⟩
          rintro e' ⟨⟩
          exact ⟨n, hm.offends hdrop hboundary hpiece, hboundary.clean⟩
      | ok found =>
          have hrest : text.drop (n + piece.text.length) = rest := by
            rw [← List.drop_drop, hdrop, List.drop_left]
          obtain ⟨hok, herror⟩ := ih hrest (hm.boundary hdrop hpos hpiece hboundary)
          rw [ofPieces_cons_of_ok hpiece, hm.lineAfter_eq, ← lineAt_add hdrop]
          cases hothers : ofPieces (lineAt text (n + piece.text.length)) (Piece.cut rest) with
          | ok tokens => exact ⟨fun _ _ => hok tokens hothers, by rintro e ⟨⟩⟩
          | error e =>
              refine ⟨by rintro tokens ⟨⟩, ?_⟩
              rintro e' ⟨⟩
              exact herror e hothers

end Token

theorem FirstOffence.unique {text : List Char} {i j : Nat} {e e' : ScanError}
    (h : FirstOffence text i e) (h' : FirstOffence text j e') : e = e' := by
  rcases Nat.lt_trichotomy i j with hlt | rfl | hgt
  · exact absurd h.1 (h'.2 i hlt e)
  · exact h.1.unique h'.1
  · exact absurd h'.1 (h.2 j hgt e')

/-- A scan that fails, fails with the first offence. -/
theorem Token.firstOffence_of_scan {text : String} {e : ScanError} (h : scan text = .error e) :
    ∃ i, FirstOffence text.toList i e :=
  (ofPieces_firstOffence List.drop_zero (boundary_zero text.toList)).2 e h

theorem Token.not_offends_of_scan {text : String} {tokens : List Token}
    (h : scan text = .ok tokens) (i : Nat) (e : ScanError) : ¬ Offends text.toList i e :=
  (ofPieces_firstOffence List.drop_zero (boundary_zero text.toList)).1 tokens h i e

/-- The first offence is what a scan fails with. -/
theorem Token.scan_of_firstOffence {text : String} {i : Nat} {e : ScanError}
    (h : FirstOffence text.toList i e) : scan text = .error e := by
  cases hscan : scan text with
  | ok tokens => exact absurd h.1 (not_offends_of_scan hscan i e)
  | error e' =>
      obtain ⟨j, hj⟩ := firstOffence_of_scan hscan
      rw [h.unique hj]

/-- **Scanning stops at the first offence.**  A text has tokens exactly when no place in it
offends, and it fails to have them with an error exactly when the leftmost place that offends
does so with that error: a stray character, or a number that is too long or too great. -/
theorem scan_stops_at_first_offence (text : String) :
    ((∃ tokens, Token.scan text = .ok tokens) ↔ ∀ i e, ¬ Offends text.toList i e) ∧
      ∀ e, Token.scan text = .error e ↔ ∃ i, FirstOffence text.toList i e := by
  refine ⟨⟨?_, fun hclean => ?_⟩, fun e => ⟨Token.firstOffence_of_scan, ?_⟩⟩
  · rintro ⟨tokens, hscan⟩
    exact Token.not_offends_of_scan hscan
  · cases hscan : Token.scan text with
    | ok tokens => exact ⟨tokens, rfl⟩
    | error e =>
        obtain ⟨i, hi⟩ := Token.firstOffence_of_scan hscan
        exact absurd hi.1 (hclean i e)
  · rintro ⟨i, hi⟩
    exact Token.scan_of_firstOffence hi

end RillLang
