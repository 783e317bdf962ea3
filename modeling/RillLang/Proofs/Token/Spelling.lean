import RillLang.Token.Spelling
import RillLang.Tree.WellFormed

/-!
# Scanning what was written

A lexeme that is written down and followed by a character that cannot extend it is
scanned as that lexeme again, and scanning goes on with what follows.

* `Lexeme.Scannable` — the lexemes that program text can have.
* `Lexeme.EndsBefore` — the texts that may follow a lexeme without a blank.
* `ofPieces_spelling` — scanning one written lexeme.
* `scanChars_spaced` — lexemes written with a space between them are scanned as
  themselves, all on the first line.
-/

namespace RillLang

namespace Lexeme

/-- The lexemes that program text can have. -/
inductive Scannable : Lexeme → Prop
  | number {v : Int} : 0 ≤ v → v ≤ Word.greatest → Scannable (.number v)
  | name {x : String} : isName x = true → Scannable (.identifier (some x))
  | mark (m : Mark) : Scannable (.mark m none)

/-- Lexemes that program text can have. -/
def AllScannable (lexemes : List Lexeme) : Prop := ∀ a ∈ lexemes, a.Scannable

@[simp] theorem allScannable_nil : AllScannable [] := List.forall_mem_nil _

@[simp] theorem allScannable_cons {a : Lexeme} {as : List Lexeme} :
    AllScannable (a :: as) ↔ a.Scannable ∧ AllScannable as := List.forall_mem_cons

@[simp] theorem allScannable_append {as bs : List Lexeme} :
    AllScannable (as ++ bs) ↔ AllScannable as ∧ AllScannable bs := List.forall_mem_append

/-- The character would become part of the lexeme if it came right after it. -/
def extendedBy (a : Lexeme) (c : Char) : Bool :=
  (a.isWordLike && isWordChar c) || (a.isNumber && isDigit c) ||
    (a.takesEquals && c == '=') || (a.isSlash && c == '/')

theorem extendedBy_number (v : Int) (c : Char) : (number v).extendedBy c = isDigit c := by
  simp [extendedBy, isWordLike, isNumber, takesEquals, isSlash]

theorem extendedBy_identifier (name : Option String) (c : Char) :
    (identifier name).extendedBy c = isWordChar c := by
  simp [extendedBy, isWordLike, isNumber, takesEquals, isSlash]

/-- The text does not begin with a character that would extend the lexeme. -/
def EndsBefore (a : Lexeme) (rest : List Char) : Prop :=
  ∀ c ∈ rest.head?, a.extendedBy c = false

theorem endsBefore_nil (a : Lexeme) : a.EndsBefore [] := by
  intro c hc
  cases hc

theorem endsBefore_space (a : Lexeme) (rest : List Char) : a.EndsBefore (' ' :: rest) := by
  intro c hc
  cases hc
  simp [extendedBy, isWordChar, isWordStart, isDigit]

end Lexeme

/-! ## Runs of characters -/

/-- A blank starts neither a number nor a word. -/
theorem not_isWordChar_of_isBlank {c : Char} (h : isBlank c = true) : isWordChar c = false := by
  simp only [isBlank, Bool.or_eq_true, beq_iff_eq] at h
  rcases h with (((rfl | rfl) | rfl) | rfl) | rfl <;> decide

theorem not_isBlank_of_isWordChar {c : Char} (h : isWordChar c = true) : isBlank c = false := by
  refine Bool.eq_false_iff.2 fun hblank => ?_
  rw [not_isWordChar_of_isBlank hblank] at h
  cases h

theorem isWordChar_of_isDigit {c : Char} (h : isDigit c = true) : isWordChar c = true := by
  simp [isWordChar, h]

theorem not_isDigit_of_not_isWordChar {c : Char} (h : isWordChar c = false) :
    isDigit c = false := by
  rw [isWordChar, Bool.or_eq_false_iff] at h
  exact h.2

theorem isWordChar_of_isWordStart {c : Char} (h : isWordStart c = true) : isWordChar c = true := by
  simp [isWordChar, h]

theorem not_isDigit_of_isWordStart {c : Char} (h : isWordStart c = true) : isDigit c = false := by
  simp only [isWordStart, isDigit, Bool.or_eq_true, Bool.and_eq_true, decide_eq_true_eq,
    beq_iff_eq, Bool.and_eq_false_iff, decide_eq_false_iff_not, Char.le_def,
    UInt32.le_iff_toNat_le] at h ⊢
  have h9 : '9'.val.toNat = 57 := rfl
  have hA : 'A'.val.toNat = 65 := rfl
  have ha : 'a'.val.toNat = 97 := rfl
  rcases h with (h | h) | rfl
  · omega
  · omega
  · decide

/-- A run of characters of a class ends where a character of another class begins. -/
theorem takeWhile_run {p : Char → Bool} {run rest : List Char} (hrun : ∀ c ∈ run, p c = true)
    (hrest : ∀ c ∈ rest.head?, p c = false) :
    (run ++ rest).takeWhile p = run ∧ (run ++ rest).dropWhile p = rest := by
  rw [List.takeWhile_append_of_pos hrun, List.dropWhile_append_of_pos hrun]
  cases rest with
  | nil => simp
  | cons c cs =>
      have hc : p c = false := hrest c rfl
      simp [hc]

/-- A name starts like a word, goes on like one, and spells no keyword. -/
theorem exists_of_isName {x : String} (h : isName x = true) :
    ∃ c cs, x.toList = c :: cs ∧ isWordStart c = true ∧ (∀ d ∈ cs, isWordChar d = true) ∧
      Token.keyword? (c :: cs) = none := by
  unfold isName at h
  split at h
  case h_1 => cases h
  case h_2 c cs hchars =>
    simp only [Bool.and_eq_true, List.all_eq_true, Option.isNone_iff_eq_none] at h
    obtain ⟨⟨hstart, hrun⟩, hkeyword⟩ := h
    exact ⟨c, cs, hchars, hstart, hrun, hkeyword⟩

namespace Piece

theorem munch_blank {c : Char} (hc : isBlank c = true) (rest : List Char) :
    munch c rest = (blank c, rest) := by
  rw [munch.eq_def, if_pos hc]

theorem munch_digits {c : Char} {cs rest : List Char} (hrun : ∀ d ∈ c :: cs, isDigit d = true)
    (hrest : ∀ d ∈ rest.head?, isDigit d = false) :
    munch c (cs ++ rest) = (digits (c :: cs), rest) := by
  have hc : isDigit c = true := hrun c (List.mem_cons_self ..)
  obtain ⟨htake, hdrop⟩ := takeWhile_run (fun d hd => hrun d (List.mem_cons_of_mem c hd)) hrest
  rw [munch.eq_def, not_isBlank_of_isWordChar (isWordChar_of_isDigit hc), hc, htake, hdrop]
  rfl

theorem munch_word {c : Char} {cs rest : List Char} (hc : isWordStart c = true)
    (hrun : ∀ d ∈ cs, isWordChar d = true) (hrest : ∀ d ∈ rest.head?, isWordChar d = false) :
    munch c (cs ++ rest) = (word (c :: cs), rest) := by
  obtain ⟨htake, hdrop⟩ := takeWhile_run hrun hrest
  rw [munch.eq_def, not_isBlank_of_isWordChar (isWordChar_of_isWordStart hc),
    not_isDigit_of_isWordStart hc, hc, htake, hdrop]
  rfl

/-- A mark of two characters is taken whatever follows it. -/
theorem munch_pair {c d : Char} {m : Mark} (h : pairMark? c d = some m) (rest : List Char) :
    munch c (d :: rest) = (mark m, rest) := by
  unfold pairMark? at h
  split at h <;> cases h <;> rfl

/-- A mark of one character is taken unless a mark of two or a comment begins there. -/
theorem munch_single {c : Char} {m : Mark} (h : singleMark? c = some m) {rest : List Char}
    (hrest : (Lexeme.mark m none).EndsBefore rest) : munch c rest = (mark m, rest) := by
  cases rest with
  | nil =>
      unfold singleMark? at h
      split at h <;> cases h <;> rfl
  | cons d ds =>
      have hd : (Lexeme.mark m none).extendedBy d = false := hrest d rfl
      unfold singleMark? at h
      split at h <;> cases h <;>
        simp_all [Lexeme.extendedBy, Lexeme.isWordLike, Lexeme.isNumber, Lexeme.takesEquals,
          Lexeme.isSlash, Mark.keywords, munch, pairMark?, singleMark?, isBlank, isDigit,
          isWordStart]

end Piece

/-! ## One lexeme -/

namespace Token

/-- A piece that is cut off the front of a text gives the first token. -/
theorem ofPieces_munch {c : Char} {cs rest : List Char} {piece : Piece} {line : Int} {token : Token}
    (hmunch : Piece.munch c cs = (piece, rest)) (htoken : ofPiece piece line = .ok (some token))
    (hline : lineAfter piece line = line) :
    ofPieces line (Piece.cut (c :: cs)) = (ofPieces line (Piece.cut rest)).map (token :: ·) := by
  rw [Piece.cut_cons, hmunch, ofPieces_cons, htoken, hline]

theorem ofPieces_blank {c : Char} (hc : isBlank c = true) (line : Int) (rest : List Char) :
    ofPieces line (Piece.cut (c :: rest)) =
      ofPieces (lineAfter (.blank c) line) (Piece.cut rest) := by
  rw [Piece.cut_cons, Piece.munch_blank hc, ofPieces_cons]
  rfl

theorem ofPieces_word {c : Char} {cs rest : List Char} (hc : isWordStart c = true)
    (hrun : ∀ d ∈ cs, isWordChar d = true) (hrest : ∀ d ∈ rest.head?, isWordChar d = false)
    (line : Int) :
    ofPieces line (Piece.cut (c :: cs ++ rest)) =
      (ofPieces line (Piece.cut rest)).map (ofWord (c :: cs) line :: ·) :=
  ofPieces_munch (Piece.munch_word hc hrun hrest) rfl rfl

/-- The decimal digits of a number. -/
theorem digits_natCast (n : Nat) :
    ∃ c cs, (toString (n : Int)).toList = c :: cs ∧ c :: cs = Nat.toDigits 10 n := by
  have htext : (toString (n : Int)).toList = Nat.toDigits 10 n := by
    rw [← Nat.toList_repr]
    rfl
  cases hdigits : Nat.toDigits 10 n with
  | nil => exact absurd hdigits Nat.toDigits_ne_nil
  | cons c cs => exact ⟨c, cs, by rw [htext, hdigits], rfl⟩

/-- The decimal digits of a word are read back as the word. -/
theorem ofDigits_toDigits {n : Nat} (h : (n : Int) ≤ Word.greatest) (line : Int) :
    ofDigits (Nat.toDigits 10 n) line = .ok (number n line) := by
  have hlength : ¬ digitLimit < (Nat.toDigits 10 n).length := by
    have hle : (Nat.toDigits 10 n).length ≤ 19 := by
      rw [Nat.length_toDigits_le_iff (by decide) (by decide)]
      unfold Word.greatest at h
      omega
    unfold digitLimit
    omega
  have hvalue : valueOfDigits (Nat.toDigits 10 n) = n := Nat.ofDigitChars_ten_toDigits
  rw [ofDigits, if_neg hlength, hvalue, if_neg (by omega)]

theorem isDigit_of_mem_toDigits {n : Nat} {c : Char} (h : c ∈ Nat.toDigits 10 n) :
    isDigit c = true :=
  Nat.isDigit_of_mem_toDigits (by decide) (by decide) h

theorem ofPieces_number {v : Int} (hnonneg : 0 ≤ v) (hle : v ≤ Word.greatest) (line : Int)
    {rest : List Char} (hrest : (Lexeme.number v).EndsBefore rest) :
    ofPieces line (Piece.cut ((Lexeme.number v).spelling ++ rest)) =
      (ofPieces line (Piece.cut rest)).map (number v line :: ·) := by
  obtain ⟨n, rfl⟩ := Int.eq_ofNat_of_zero_le hnonneg
  obtain ⟨c, cs, htext, hdigits⟩ := digits_natCast n
  have hrun : ∀ d ∈ c :: cs, isDigit d = true := by
    rw [hdigits]
    exact fun d hd => isDigit_of_mem_toDigits hd
  have hend : ∀ d ∈ rest.head?, isDigit d = false := by
    intro d hd
    rw [← Lexeme.extendedBy_number n]
    exact hrest d hd
  have htoken : ofPiece (.digits (c :: cs)) line = .ok (some (number n line)) := by
    rw [ofPiece, hdigits, ofDigits_toDigits hle line]
    rfl
  rw [Lexeme.spelling, htext]
  exact ofPieces_munch (Piece.munch_digits hrun hend) htoken rfl

theorem not_isWordChar_of_endsBefore {a : Lexeme} (ha : a.isWordLike = true) {rest : List Char}
    (hrest : a.EndsBefore rest) : ∀ d ∈ rest.head?, isWordChar d = false := by
  intro d hd
  have hextend := hrest d hd
  simp only [Lexeme.extendedBy, ha, Bool.true_and, Bool.or_eq_false_iff] at hextend
  exact hextend.1.1.1

theorem ofPieces_name {x : String} (hx : isName x = true) (line : Int) {rest : List Char}
    (hrest : (Lexeme.identifier (some x)).EndsBefore rest) :
    ofPieces line (Piece.cut ((Lexeme.identifier (some x)).spelling ++ rest)) =
      (ofPieces line (Piece.cut rest)).map (identifier x line :: ·) := by
  have hend := not_isWordChar_of_endsBefore rfl hrest
  obtain ⟨c, cs, hchars, hstart, hrun, hkeyword⟩ := exists_of_isName hx
  show ofPieces line (Piece.cut (x.toList ++ rest)) = _
  rw [hchars, ofPieces_word hstart hrun hend, ofWord, hkeyword, ← hchars, String.ofList_toList]

/-- A keyword is a word that spells itself. -/
theorem ofPieces_keyword {m : Mark} (hm : m ∈ Mark.keywords) (line : Int) {rest : List Char}
    (hrest : (Lexeme.mark m none).EndsBefore rest) :
    ofPieces line (Piece.cut (m.spelling.toList ++ rest)) =
      (ofPieces line (Piece.cut rest)).map (mark m line :: ·) := by
  have hword : (Lexeme.mark m none).isWordLike = true := by simpa [Lexeme.isWordLike] using hm
  have hend := not_isWordChar_of_endsBefore hword hrest
  simp only [Mark.keywords, List.mem_cons, List.not_mem_nil, or_false] at hm
  rcases hm with rfl | rfl | rfl | rfl | rfl <;>
    exact ofPieces_word (by decide) (List.all_eq_true.1 (by decide)) hend line

/-- The marks that are no keywords have one or two characters. -/
theorem exists_pair_or_single {m : Mark} (hm : m ∉ Mark.keywords) :
    (∃ c d, m.spelling.toList = [c, d] ∧ pairMark? c d = some m) ∨
      ∃ c, m.spelling.toList = [c] ∧ singleMark? c = some m := by
  cases m with
  | letWord | printWord | ifWord | elseWord | whileWord => exact absurd (by decide) hm
  | equalEqual | bangEqual | lessEqual | greaterEqual => exact .inl ⟨_, _, rfl, rfl⟩
  | _ => exact .inr ⟨_, rfl, rfl⟩

theorem ofPieces_mark (m : Mark) (line : Int) {rest : List Char}
    (hrest : (Lexeme.mark m none).EndsBefore rest) :
    ofPieces line (Piece.cut (m.spelling.toList ++ rest)) =
      (ofPieces line (Piece.cut rest)).map (mark m line :: ·) := by
  by_cases hm : m ∈ Mark.keywords
  · exact ofPieces_keyword hm line hrest
  · rcases exists_pair_or_single hm with ⟨c, d, hspelling, hpair⟩ | ⟨c, hspelling, hsingle⟩
    · rw [hspelling]
      exact ofPieces_munch (Piece.munch_pair hpair rest) rfl rfl
    · rw [hspelling]
      exact ofPieces_munch (Piece.munch_single hsingle hrest) rfl rfl

/-- A lexeme that is followed by nothing that extends it is scanned as itself. -/
theorem ofPieces_spelling {a : Lexeme} (ha : a.Scannable) (line : Int) {rest : List Char}
    (hrest : a.EndsBefore rest) :
    ofPieces line (Piece.cut (a.spelling ++ rest)) =
      (ofPieces line (Piece.cut rest)).map (⟨a, line⟩ :: ·) := by
  cases ha with
  | number hnonneg hle => exact ofPieces_number hnonneg hle line hrest
  | name hx => exact ofPieces_name hx line hrest
  | mark m => exact ofPieces_mark m line hrest

/-! ## Many lexemes -/

/-- Lexemes written with a space between them are scanned as themselves. -/
theorem scanChars_spaced {lexemes : List Lexeme} (h : Lexeme.AllScannable lexemes) :
    scanChars (spaced lexemes) = .ok (lexemes.map (⟨·, 1⟩) ++ [endOfInput 1]) := by
  unfold scanChars
  fun_induction spaced lexemes with
  | case1 => rw [Piece.cut_nil, ofPieces_nil, List.map_nil, List.nil_append]
  | case2 a =>
      obtain ⟨ha, -⟩ := Lexeme.allScannable_cons.1 h
      rw [← List.append_nil a.spelling, ofPieces_spelling ha 1 a.endsBefore_nil, Piece.cut_nil]
      rfl
  | case3 a rest hrest ih =>
      obtain ⟨ha, hothers⟩ := Lexeme.allScannable_cons.1 h
      rw [ofPieces_spelling ha 1 (a.endsBefore_space _), ofPieces_blank rfl]
      rw [show lineAfter (.blank ' ') 1 = 1 from rfl, ih hothers]
      rfl

end Token

end RillLang
