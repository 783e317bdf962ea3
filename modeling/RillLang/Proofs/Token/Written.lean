import RillLang.Proofs.Token.Munch

/-!
# Scanning tokens written with any blanks

Tokens can be written with as many blanks as one likes, and with none at all but where two of
them would run together.  Scanning such a text gives the tokens back, each on its line
(`scan_written`).

* `Lexeme.Starts` — what a first character tells of a lexeme.
* `Lexeme.Starts.needsBlank` — the first character of a lexeme goes on the lexeme before it
  only where the two need a blank.
* `Token.ofPieces_written` — so each lexeme ends where the text goes on, and is scanned as
  itself.
* `Lexeme.needsBlank_iff_scan_ne` — no gap that may not be empty could be: the two lexemes on
  either side would be scanned as something else.
-/

namespace RillLang

namespace Lexeme

/-! ## First characters -/

/-- The lexeme may start with the character, as far as the class of the character tells. -/
structure Starts (a : Lexeme) (c : Char) : Prop where
  /-- Only words and numbers start with a character of a word. -/
  word : isWordChar c = true → (a.isWordLike || a.isNumber) = true
  /-- Only numbers start with a digit. -/
  digit : isDigit c = true → a.isNumber = true
  /-- Only two marks start with an equals sign. -/
  equals : c = '=' → a.startsWithEquals = true
  /-- Only the slash starts with a slash. -/
  slash : c = '/' → a.isSlash = true

/-- The first character of a lexeme goes on the lexeme before it only where the two need a
blank. -/
theorem Starts.needsBlank {a b : Lexeme} {c : Char} (h : b.Starts c)
    (hextended : a.extendedBy c = true) : a.needsBlank b = true := by
  simp only [extendedBy, Bool.or_eq_true, Bool.and_eq_true, beq_iff_eq] at hextended
  rcases hextended with ((⟨ha, hc⟩ | ⟨ha, hc⟩) | ⟨ha, hc⟩) | ⟨ha, hc⟩
  · simp [Lexeme.needsBlank, ha, h.word hc]
  · simp [Lexeme.needsBlank, ha, h.digit hc]
  · simp [Lexeme.needsBlank, ha, h.equals hc]
  · simp [Lexeme.needsBlank, ha, h.slash hc]

theorem starts_number (v : Int) {c : Char} (hc : isDigit c = true) : (number v).Starts c where
  word _ := rfl
  digit _ := rfl
  equals := by rintro rfl; cases hc
  slash := by rintro rfl; cases hc

theorem starts_identifier (name : Option String) {c : Char} (hc : isWordStart c = true) :
    (identifier name).Starts c where
  word _ := rfl
  digit hdigit := by rw [not_isDigit_of_isWordStart hc] at hdigit; cases hdigit
  equals := by rintro rfl; cases hc
  slash := by rintro rfl; cases hc

theorem exists_starts_mark (m : Mark) :
    ∃ c cs, m.spelling.toList = c :: cs ∧ (mark m none).Starts c := by
  cases m <;> exact ⟨_, _, rfl, by decide, by decide, by decide, by decide⟩

/-- Every lexeme is written with a first character. -/
theorem Scannable.exists_starts {a : Lexeme} (ha : a.Scannable) :
    ∃ c cs, a.spelling = c :: cs ∧ a.Starts c := by
  cases ha with
  | @number v hnonneg _ =>
      obtain ⟨n, rfl⟩ := Int.eq_ofNat_of_zero_le hnonneg
      obtain ⟨c, cs, htext, hdigits⟩ := Token.digits_natCast n
      refine ⟨c, cs, htext, starts_number n (Token.isDigit_of_mem_toDigits (n := n) ?_)⟩
      rw [← hdigits]
      exact List.mem_cons_self ..
  | name hx =>
      obtain ⟨c, cs, htext, hc, -⟩ := exists_of_isName hx
      exact ⟨c, cs, htext, starts_identifier _ hc⟩
  | mark m => exact exists_starts_mark m

/-! ## Where a lexeme ends -/

/-- A blank goes on no lexeme. -/
theorem not_extendedBy_of_isBlank (a : Lexeme) {c : Char} (hc : isBlank c = true) :
    a.extendedBy c = false := by
  have hword := not_isWordChar_of_isBlank hc
  have hdigit := not_isDigit_of_not_isWordChar hword
  have hequals : c ≠ '=' := by rintro rfl; cases hc
  have hslash : c ≠ '/' := by rintro rfl; cases hc
  simp [extendedBy, hword, hdigit, hequals, hslash]

theorem endsBefore_blanks (a : Lexeme) {gap : List Char} (hgap : ∀ c ∈ gap, isBlank c = true) :
    a.EndsBefore gap := by
  intro c hc
  exact a.not_extendedBy_of_isBlank (hgap c (List.mem_of_mem_head? hc))

/-- A lexeme ends before a gap and a lexeme after it, when the gap is not empty or need not be
there. -/
theorem endsBefore_gap {a b : Lexeme} (hb : b.Scannable) {gap : List Char}
    (hgap : ∀ c ∈ gap, isBlank c = true) (hneeds : a.needsBlank b = true → gap ≠ [])
    (rest : List Char) : a.EndsBefore (gap ++ b.spelling ++ rest) := by
  cases gap with
  | nil =>
      obtain ⟨c, cs, hspelling, hstarts⟩ := hb.exists_starts
      rw [List.nil_append, hspelling]
      rintro d ⟨⟩
      exact Bool.eq_false_iff.2 fun hextended => hneeds (hstarts.needsBlank hextended) rfl
  | cons d gap =>
      rintro d' ⟨⟩
      exact a.not_extendedBy_of_isBlank (hgap d (List.mem_cons_self ..))

end Lexeme

/-! ## Separated lexemes -/

open Lexeme

variable {a : Lexeme} {gap : List Char} {items : List (Lexeme × List Char)}

theorem Separated.blanks (h : Separated ((a, gap) :: items)) : ∀ c ∈ gap, isBlank c = true := by
  cases items with
  | nil => exact h
  | cons item items => exact h.1

theorem Separated.tail (h : Separated ((a, gap) :: items)) : Separated items := by
  cases items with
  | nil => trivial
  | cons item items => exact h.2.2

namespace Token

/-- A lexeme ends where the separated text goes on. -/
theorem endsBefore_written (h : Separated ((a, gap) :: items))
    (hitems : ∀ item ∈ items, item.1.Scannable) : a.EndsBefore (written gap items) := by
  cases items with
  | nil => exact a.endsBefore_blanks h
  | cons item items =>
      obtain ⟨b, gap'⟩ := item
      obtain ⟨hblanks, hneeds, -⟩ := h
      exact endsBefore_gap (hitems (b, gap') (List.mem_cons_self ..)) hblanks hneeds _

/-- Separated lexemes are scanned as themselves, from any line on. -/
theorem ofPieces_written {lead : List Char} (hlead : ∀ c ∈ lead, isBlank c = true)
    (hitems : ∀ item ∈ items, item.1.Scannable) (h : Separated items) (line : Int) :
    ofPieces line (Piece.cut (written lead items)) = .ok (writtenTokens line lead items) := by
  induction items generalizing lead line with
  | nil =>
      have hrun := ofPieces_run hlead line []
      rwa [List.append_nil, Piece.cut_nil, ofPieces_nil] at hrun
  | cons item items ih =>
      obtain ⟨a, gap⟩ := item
      obtain ⟨ha, hothers⟩ := List.forall_mem_cons.1 hitems
      have hends := endsBefore_written h hothers
      rw [written, List.append_assoc, ofPieces_run hlead, ofPieces_spelling ha _ hends,
        ih h.blanks hothers h.tail]
      rfl

end Token

/-! ## Lexemes that run together -/

namespace Token

/-- A text that is a single piece has one token at the most before its end. -/
theorem ofPieces_singleton_ne {piece : Piece} {line : Int} (t t' t'' : Token) :
    ofPieces line [piece] ≠ .ok [t, t', t''] := by
  intro h
  obtain ⟨found, rest, -, hrest, htokens⟩ := ofPieces_cons_eq_ok.1 h
  cases hrest
  have hlength := congrArg List.length htokens
  cases found <;> simp at hlength

theorem scan_ne_of_munch {c : Char} {cs : List Char} {piece : Piece}
    (h : Piece.munch c cs = (piece, [])) (t t' t'' : Token) :
    scan (String.ofList (c :: cs)) ≠ .ok [t, t', t''] := by
  rw [scan, String.toList_ofList, scanChars, Piece.cut_cons, h, Piece.cut_nil]
  exact ofPieces_singleton_ne t t' t''

end Token

namespace Lexeme

/-- A lexeme that is written as a word. -/
theorem Scannable.matches_identifier {a : Lexeme} (ha : a.Scannable)
    (hword : a.isWordLike = true) : Terminal.identifier.Matches a.spelling := by
  cases ha with
  | number => cases hword
  | name hx =>
      obtain ⟨c, cs, htext, hc, hcs, -⟩ := exists_of_isName hx
      exact ⟨c, cs, htext, hc, hcs⟩
  | mark m => exact Terminal.matches_identifier_of_keyword (by simpa [isWordLike] using hword)

theorem Scannable.matches_number {a : Lexeme} (ha : a.Scannable) (hnumber : a.isNumber = true) :
    Terminal.number.Matches a.spelling := by
  cases ha with
  | @number v hnonneg _ =>
      obtain ⟨n, rfl⟩ := Int.eq_ofNat_of_zero_le hnonneg
      obtain ⟨c, cs, htext, hdigits⟩ := Token.digits_natCast n
      rw [spelling, htext]
      refine ⟨List.cons_ne_nil _ _, fun d hd => Token.isDigit_of_mem_toDigits (n := n) ?_⟩
      rwa [← hdigits]
  | name => cases hnumber
  | mark => cases hnumber

theorem forall_isWordChar_of_matches {word : List Char}
    (h : Terminal.identifier.Matches word ∨ Terminal.number.Matches word) :
    ∀ c ∈ word, isWordChar c = true := by
  rcases h with ⟨c, cs, rfl, hc, hcs⟩ | ⟨-, hdigits⟩
  · exact List.forall_mem_cons.2 ⟨isWordChar_of_isWordStart hc, hcs⟩
  · exact fun c hc => isWordChar_of_isDigit (hdigits c hc)

/-- With an equals sign after it the lexeme is another mark. -/
theorem exists_pairMark?_of_takesEquals {a : Lexeme} (h : a.takesEquals = true) :
    ∃ c m, a.spelling = [c] ∧ pairMark? c '=' = some m ∧ a ≠ .mark m none := by
  unfold takesEquals at h
  split at h
  · exact ⟨'=', .equalEqual, rfl, rfl, nofun⟩
  · exact ⟨'<', .lessEqual, rfl, rfl, nofun⟩
  · exact ⟨'>', .greaterEqual, rfl, rfl, nofun⟩
  · cases h

theorem exists_spelling_of_startsWithEquals {a : Lexeme} (h : a.startsWithEquals = true) :
    ∃ cs, a.spelling = '=' :: cs := by
  unfold startsWithEquals at h
  split at h
  · exact ⟨_, rfl⟩
  · exact ⟨_, rfl⟩
  · cases h

theorem spelling_of_isSlash {a : Lexeme} (h : a.isSlash = true) : a.spelling = ['/'] := by
  unfold isSlash at h
  split at h
  · rfl
  · cases h

/-- Two lexemes that need a blank are scanned as something else without one: as a single word or
number, as another mark, or as a comment. -/
theorem scan_ne_of_needsBlank {a b : Lexeme} (ha : a.Scannable) (hb : b.Scannable)
    (h : a.needsBlank b = true) :
    Token.scan (String.ofList (a.spelling ++ b.spelling)) ≠
      .ok [⟨a, 1⟩, ⟨b, 1⟩, .endOfInput 1] := by
  simp only [needsBlank, Bool.or_eq_true, Bool.and_eq_true] at h
  rcases h with ((⟨hword, hrest⟩ | ⟨hnumber, hnumber'⟩) | ⟨htakes, hstarts⟩) | ⟨hslash, hslash'⟩
  · obtain ⟨c, cs, hspelling, hc, hcs⟩ := ha.matches_identifier hword
    have hrun := forall_isWordChar_of_matches (hrest.imp hb.matches_identifier hb.matches_number)
    have hend : ∀ d ∈ ([] : List Char).head?, isWordChar d = false := nofun
    have hmunch := Piece.munch_word hc (List.forall_mem_append.2 ⟨hcs, hrun⟩) hend
    rw [List.append_nil] at hmunch
    rw [hspelling, List.cons_append]
    exact Token.scan_ne_of_munch hmunch _ _ _
  · obtain ⟨hne, hdigits⟩ := ha.matches_number hnumber
    obtain ⟨c, cs, hspelling⟩ := List.exists_cons_of_ne_nil hne
    have hrun := List.forall_mem_append.2 ⟨hdigits, (hb.matches_number hnumber').2⟩
    rw [hspelling, List.cons_append] at hrun ⊢
    have hend : ∀ d ∈ ([] : List Char).head?, isDigit d = false := nofun
    have hmunch := Piece.munch_digits hrun hend
    rw [List.append_nil] at hmunch
    exact Token.scan_ne_of_munch hmunch _ _ _
  · obtain ⟨c, m, hspelling, hpair, hne⟩ := exists_pairMark?_of_takesEquals htakes
    obtain ⟨cs, hspelling'⟩ := exists_spelling_of_startsWithEquals hstarts
    rw [hspelling, hspelling', Token.scan, String.toList_ofList, Token.scanChars]
    intro hscan
    rw [List.singleton_append, Token.ofPieces_munch (Piece.munch_pair hpair cs) rfl rfl] at hscan
    cases hcut : Token.ofPieces 1 (Piece.cut cs) with
    | error e =>
        rw [hcut] at hscan
        cases hscan
    | ok tokens =>
        rw [hcut] at hscan
        injection hscan with hscan
        injection hscan with hfirst
        exact hne (congrArg Token.lexeme hfirst).symm
  · rw [spelling_of_isSlash hslash, spelling_of_isSlash hslash']
    exact Token.scan_ne_of_munch rfl _ _ _

/-- **A blank that is needed cannot be left out.**  Two lexemes are scanned as themselves when
they are written without a blank, but for the pairs that need one. -/
theorem needsBlank_iff_scan_ne {a b : Lexeme} (ha : a.Scannable) (hb : b.Scannable) :
    a.needsBlank b = true ↔
      Token.scan (String.ofList (a.spelling ++ b.spelling)) ≠
        .ok [⟨a, 1⟩, ⟨b, 1⟩, .endOfInput 1] := by
  refine ⟨scan_ne_of_needsBlank ha hb, fun hne => Bool.not_eq_false _ ▸ fun hneeds => hne ?_⟩
  have hitems : ∀ item ∈ [(a, ([] : List Char)), (b, [])], item.1.Scannable :=
    List.forall_mem_cons.2 ⟨ha, List.forall_mem_singleton.2 hb⟩
  have hlead : ∀ c ∈ ([] : List Char), isBlank c = true := List.forall_mem_nil _
  have hscan := Token.ofPieces_written hlead hitems
    ⟨List.forall_mem_nil _, by simp [hneeds], List.forall_mem_nil _⟩ 1
  rw [Token.scan, String.toList_ofList, Token.scanChars]
  simpa [written, writtenTokens, Token.endOfInput] using hscan

end Lexeme

/-- **Written tokens are scanned as themselves.**  Lexemes that program text can have, written
with blanks before, between and after them, where the blanks may be left out wherever two
lexemes do not run together, are scanned as exactly these lexemes, each on the line after the
line feeds written before it, and then the end of the input. -/
theorem scan_written {lead : List Char} {items : List (Lexeme × List Char)}
    (hlead : ∀ c ∈ lead, isBlank c = true) (hitems : ∀ item ∈ items, item.1.Scannable)
    (h : Separated items) :
    Token.scan (String.ofList (written lead items)) = .ok (writtenTokens 1 lead items) := by
  rw [Token.scan, String.toList_ofList]
  exact Token.ofPieces_written hlead hitems h 1

/-- A number runs into a name, three equals signs are two marks, and so are an exclamation mark
and two equals signs; blanks stand between two equals signs, two slashes, and a keyword and a
number. -/
theorem scan_written_unspaced :
    Token.scan "\t12abc===\r\n=!==<=7/ /let\n9223372036854775807" =
      .ok [.number 12 1, .identifier "abc" 1, .mark .equalEqual 1, .mark .equal 1,
        .mark .equal 2, .mark .bangEqual 2, .mark .equal 2, .mark .lessEqual 2, .number 7 2,
        .mark .slash 2, .mark .slash 2, .mark .letWord 2, .number 9223372036854775807 3,
        .endOfInput 3] := by
  let items : List (Lexeme × List Char) :=
    [(.number 12, []), (.identifier (some "abc"), []), (.mark .equalEqual none, []),
      (.mark .equal none, ['\r', '\n']), (.mark .equal none, []), (.mark .bangEqual none, []),
      (.mark .equal none, []), (.mark .lessEqual none, []), (.number 7, []),
      (.mark .slash none, [' ']), (.mark .slash none, []), (.mark .letWord none, ['\n']),
      (.number 9223372036854775807, [])]
  have hitems : ∀ item ∈ items, item.1.Scannable := by
    simp only [items, List.forall_mem_cons]
    exact ⟨.number (by decide) (by decide), .name (by decide), .mark _, .mark _, .mark _, .mark _,
      .mark _, .mark _, .number (by decide) (by decide), .mark _, .mark _, .mark _,
      .number (by decide) (by decide), List.forall_mem_nil _⟩
  have hseparated : Separated items := by
    simp [items, Separated, needsBlank, isWordLike, isNumber, takesEquals, startsWithEquals,
      isSlash, isBlank, Mark.keywords]
  have hlead : ∀ c ∈ ['\t'], isBlank c = true := List.forall_mem_singleton.2 rfl
  have hscan := scan_written hlead hitems hseparated
  exact hscan

end RillLang
