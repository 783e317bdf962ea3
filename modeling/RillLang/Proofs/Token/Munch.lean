import RillLang.Proofs.Token.Joined

/-!
# The longest match

What the tokens of a text are, said without a scanner.  A text is made of words with gaps
before, between and after them.  Each word is the longest one at its place that any
terminal of the language matches, and its token has the line it stands on.

* `Terminal.Matches` — the terminals: blanks, comments, numbers, identifiers and marks.
* `Longest` — the longest match at the front of a text.
* `Gap` — what may stand between words.
* `Token.Munched` — a text and its tokens.
* `scan_eq_ok_iff_munched` — scanning gives those tokens, and no others.

Nothing in this is about how a word is found.  That the scanner finds the longest one
rests on the first character: it tells of every word that could stand there what its other
characters are like (`Terminal.Shape`), and the scanner takes all characters like that.
-/

namespace RillLang

/-! ## Terminals -/

/-- What a stretch of text can be. -/
inductive Terminal where
  | blanks
  | comment
  | number
  | identifier
  | mark (mark : Mark)

namespace Terminal

/-- The word is one of the terminal. -/
def Matches : Terminal → List Char → Prop
  | blanks, word => word ≠ [] ∧ ∀ c ∈ word, isBlank c = true
  | comment, word => ∃ cs, word = '/' :: '/' :: cs ∧ ∀ c ∈ cs, c ≠ '\n'
  | number, word => word ≠ [] ∧ ∀ c ∈ word, isDigit c = true
  | identifier, word =>
    ∃ c cs, word = c :: cs ∧ isWordStart c = true ∧ ∀ d ∈ cs, isWordChar d = true
  | mark m, word => word = m.spelling.toList

/-- A keyword matches as an identifier, too. -/
theorem matches_identifier_of_keyword {m : Mark} (hm : m ∈ Mark.keywords) :
    identifier.Matches m.spelling.toList := by
  simp only [Mark.keywords, List.mem_cons, List.not_mem_nil, or_false] at hm
  rcases hm with rfl | rfl | rfl | rfl | rfl <;>
    exact ⟨_, _, rfl, by decide, List.all_eq_true.1 (by decide)⟩

/-- What the words that start with a character are like. -/
inductive Shape : List Char → Prop
  | blanks {c : Char} {cs : List Char} : isBlank c = true → Shape (c :: cs)
  | digits {c : Char} {cs : List Char} :
      isDigit c = true → (∀ d ∈ cs, isDigit d = true) → Shape (c :: cs)
  | word {c : Char} {cs : List Char} :
      isWordStart c = true → (∀ d ∈ cs, isWordChar d = true) → Shape (c :: cs)
  | comment {cs : List Char} : (∀ d ∈ cs, isCommentChar d = true) → Shape ('/' :: '/' :: cs)
  | pair {c d : Char} {m : Mark} : pairMark? c d = some m → Shape [c, d]
  | single {c : Char} {m : Mark} : singleMark? c = some m → Shape [c]

theorem Matches.shape {t : Terminal} {word : List Char} (h : t.Matches word) : Shape word := by
  cases t with
  | blanks =>
      obtain ⟨hne, hall⟩ := h
      obtain ⟨c, cs, rfl⟩ := List.exists_cons_of_ne_nil hne
      exact .blanks (hall c (List.mem_cons_self ..))
  | comment =>
      obtain ⟨cs, rfl, hcs⟩ := h
      exact .comment (by simpa [isCommentChar] using hcs)
  | number =>
      obtain ⟨hne, hall⟩ := h
      obtain ⟨c, cs, rfl⟩ := List.exists_cons_of_ne_nil hne
      obtain ⟨hc, hcs⟩ := List.forall_mem_cons.1 hall
      exact .digits hc hcs
  | identifier =>
      obtain ⟨c, cs, rfl, hc, hcs⟩ := h
      exact .word hc hcs
  | mark m =>
      obtain rfl : word = m.spelling.toList := h
      by_cases hm : m ∈ Mark.keywords
      · obtain ⟨c, cs, hspelling, hc, hcs⟩ := matches_identifier_of_keyword hm
        rw [hspelling]
        exact .word hc hcs
      · rcases Token.exists_pair_or_single hm with ⟨c, d, hspelling, hpair⟩ |
          ⟨c, hspelling, hsingle⟩
        · rw [hspelling]
          exact .pair hpair
        · rw [hspelling]
          exact .single hsingle

end Terminal

/-! ## Classes of first characters -/

/-- Neither a blank nor a character of a word. -/
def isSign (c : Char) : Bool := !isBlank c && !isWordChar c

theorem isSign_of_pairMark? {c d : Char} {m : Mark} (h : pairMark? c d = some m) :
    isSign c = true := by
  unfold pairMark? at h
  split at h <;> cases h <;> decide

theorem isSign_of_singleMark? {c : Char} {m : Mark} (h : singleMark? c = some m) :
    isSign c = true := by
  unfold singleMark? at h
  split at h <;> cases h <;> decide

theorem class_of_isDigit {c : Char} (hc : isDigit c = true) :
    isBlank c = false ∧ isWordStart c = false ∧ isSign c = false := by
  have hword := isWordChar_of_isDigit hc
  refine ⟨not_isBlank_of_isWordChar hword, Bool.eq_false_iff.2 fun hstart => ?_, ?_⟩
  · rw [not_isDigit_of_isWordStart hstart] at hc
    cases hc
  · simp [isSign, hword]

theorem class_of_isWordStart {c : Char} (hc : isWordStart c = true) :
    isBlank c = false ∧ isDigit c = false ∧ isSign c = false := by
  have hword := isWordChar_of_isWordStart hc
  exact ⟨not_isBlank_of_isWordChar hword, not_isDigit_of_isWordStart hc, by simp [isSign, hword]⟩

theorem class_of_isSign {c : Char} (hc : isSign c = true) :
    isBlank c = false ∧ isDigit c = false ∧ isWordStart c = false := by
  simp only [isSign, isWordChar, Bool.and_eq_true, Bool.not_eq_true', Bool.or_eq_false_iff] at hc
  exact ⟨hc.1, hc.2.2, hc.2.1⟩

namespace Terminal

theorem Shape.isDigit_of_mem {c : Char} {cs : List Char} (h : Shape (c :: cs))
    (hc : isDigit c = true) : ∀ d ∈ cs, isDigit d = true := by
  obtain ⟨hblank, hstart, hsign⟩ := class_of_isDigit hc
  cases h with
  | blanks h => simp [hblank] at h
  | digits _ hcs => exact hcs
  | word h _ => simp [hstart] at h
  | comment _ => exact absurd hsign (by decide)
  | pair h => simp [isSign_of_pairMark? h] at hsign
  | single h => simp [isSign_of_singleMark? h] at hsign

theorem Shape.isWordChar_of_mem {c : Char} {cs : List Char} (h : Shape (c :: cs))
    (hc : isWordStart c = true) : ∀ d ∈ cs, isWordChar d = true := by
  obtain ⟨hblank, hdigit, hsign⟩ := class_of_isWordStart hc
  cases h with
  | blanks h => simp [hblank] at h
  | digits h _ => simp [hdigit] at h
  | word _ hcs => exact hcs
  | comment _ => exact absurd hsign (by decide)
  | pair h => simp [isSign_of_pairMark? h] at hsign
  | single h => simp [isSign_of_singleMark? h] at hsign

/-- A word that starts with a sign is a comment, or a mark of one or two characters. -/
theorem Shape.of_isSign {c : Char} {cs : List Char} (h : Shape (c :: cs))
    (hc : isSign c = true) :
    (c = '/' ∧ cs.head? = some '/') ∨ (∃ d m, cs = [d] ∧ pairMark? c d = some m) ∨
      ∃ m, cs = [] ∧ singleMark? c = some m := by
  obtain ⟨hblank, hdigit, hstart⟩ := class_of_isSign hc
  cases h with
  | blanks h => simp [hblank] at h
  | digits h _ => simp [hdigit] at h
  | word h _ => simp [hstart] at h
  | comment _ => exact .inl ⟨rfl, rfl⟩
  | pair h => exact .inr (.inl ⟨_, _, rfl, h⟩)
  | single h => exact .inr (.inr ⟨_, rfl, h⟩)

end Terminal

/-! ## The longest match -/

/-- The word is the longest at the front of the text that a terminal matches. -/
structure Longest (word text : List Char) : Prop where
  /-- The word stands at the front. -/
  front : word <+: text
  /-- Some terminal matches the word. -/
  found : ∃ t : Terminal, t.Matches word
  /-- Nothing longer is matched there. -/
  longest : ∀ (t : Terminal) (other : List Char), other <+: text → t.Matches other →
    other.length ≤ word.length

/-- It is enough to look at the words that start with the first character. -/
theorem Longest.of_cons {t : Terminal} {c : Char} {cs text : List Char}
    (hfront : cs <+: text) (hmatches : t.Matches (c :: cs))
    (hlongest : ∀ other, other <+: text → Terminal.Shape (c :: other) →
      other.length ≤ cs.length) : Longest (c :: cs) (c :: text) where
  front := List.cons_prefix_cons.2 ⟨rfl, hfront⟩
  found := ⟨t, hmatches⟩
  longest t' other hother hmatches' := by
    have hshape := hmatches'.shape
    cases other with
    | nil => exact Nat.zero_le _
    | cons d ds =>
        obtain ⟨rfl, hds⟩ := List.cons_prefix_cons.1 hother
        exact Nat.succ_le_succ (hlongest ds hds hshape)

/-- A run of characters of a class goes no further than the characters of the class do. -/
theorem length_le_takeWhile {p : Char → Bool} {run text : List Char}
    (hrun : ∀ c ∈ run, p c = true) (h : run <+: text) :
    run.length ≤ (text.takeWhile p).length := by
  obtain ⟨rest, rfl⟩ := h
  rw [List.takeWhile_append_of_pos hrun, List.length_append]
  exact Nat.le_add_right _ _

theorem matches_digits {c : Char} (hc : isDigit c = true) (cs : List Char) :
    Terminal.number.Matches (c :: cs.takeWhile isDigit) :=
  ⟨List.cons_ne_nil _ _, List.forall_mem_cons.2 ⟨hc, List.all_eq_true.1 List.all_takeWhile⟩⟩

theorem longest_digits {c : Char} (hc : isDigit c = true) (cs : List Char) :
    Longest (c :: cs.takeWhile isDigit) (c :: cs) := by
  refine .of_cons (List.takeWhile_prefix _) (matches_digits hc cs) fun other hother hshape => ?_
  exact length_le_takeWhile (hshape.isDigit_of_mem hc) hother

theorem matches_word {c : Char} (hc : isWordStart c = true) (cs : List Char) :
    Terminal.identifier.Matches (c :: cs.takeWhile isWordChar) :=
  ⟨c, _, rfl, hc, List.all_eq_true.1 List.all_takeWhile⟩

theorem longest_word {c : Char} (hc : isWordStart c = true) (cs : List Char) :
    Longest (c :: cs.takeWhile isWordChar) (c :: cs) := by
  refine .of_cons (List.takeWhile_prefix _) (matches_word hc cs) fun other hother hshape => ?_
  exact length_le_takeWhile (hshape.isWordChar_of_mem hc) hother

theorem pairMark?_slash (d : Char) : pairMark? '/' d = none := by
  simp [pairMark?]

theorem longest_pair {c d : Char} {m : Mark} (h : pairMark? c d = some m) (rest : List Char) :
    Longest [c, d] (c :: d :: rest) := by
  refine .of_cons (t := .mark m) (List.prefix_append [d] rest)
    (Piece.spelling_of_pairMark? h).symm fun other hother hshape => ?_
  rcases hshape.of_isSign (isSign_of_pairMark? h) with ⟨rfl, -⟩ | ⟨d', m', rfl, -⟩ | ⟨m', rfl, -⟩
  · rw [pairMark?_slash] at h
    cases h
  · exact Nat.le_refl 1
  · exact Nat.zero_le 1

/-- A mark of one character is the longest match where no comment and no longer mark begins. -/
theorem longest_single {c : Char} {m : Mark} (h : singleMark? c = some m) {rest : List Char}
    (hcomment : c = '/' → rest.head? ≠ some '/')
    (hpair : ∀ d, rest.head? = some d → pairMark? c d = none) : Longest [c] (c :: rest) := by
  refine .of_cons (t := .mark m) List.nil_prefix (Piece.spelling_of_singleMark? h).symm
    fun other hother hshape => ?_
  have hhead {d : Char} (hd : other.head? = some d) : rest.head? = some d := by
    obtain ⟨after, rfl⟩ := hother
    rw [List.head?_append, hd, Option.some_or]
  rcases hshape.of_isSign (isSign_of_singleMark? h) with ⟨hc, hslash⟩ | ⟨d, m', rfl, hpair'⟩ |
    ⟨m', rfl, -⟩
  · exact absurd (hhead hslash) (hcomment hc)
  · rw [hpair d (hhead rfl)] at hpair'
    cases hpair'
  · exact Nat.le_refl 0

/-! ## The lexeme of a word -/

/-- The lexeme is written as the word.  A number is written in decimal, an identifier is not
written like a keyword, and every mark has its spelling. -/
inductive Lexeme.WrittenAs : Lexeme → List Char → Prop
  | number {word : List Char} :
      Terminal.number.Matches word → word.length ≤ digitLimit →
      Token.valueOfDigits word ≤ Word.greatest →
      WrittenAs (.number (Token.valueOfDigits word)) word
  | identifier {word : List Char} :
      Terminal.identifier.Matches word → (∀ m ∈ Mark.keywords, word ≠ m.spelling.toList) →
      WrittenAs (.identifier (some (String.ofList word))) word
  | mark (m : Mark) : WrittenAs (.mark m none) m.spelling.toList

/-- The characters may stand between tokens, where the text after them is `rest`.  A comment
goes up to a line feed or to the end of the text. -/
inductive Gap (rest : List Char) : List Char → Prop
  | nil : Gap rest []
  | blanks {run gap : List Char} :
      Terminal.blanks.Matches run → Gap rest gap → Gap rest (run ++ gap)
  | comment {text gap : List Char} :
      Terminal.comment.Matches text → (∀ c ∈ (gap ++ rest).head?, c = '\n') → Gap rest gap →
      Gap rest (text ++ gap)

/-- The line that goes on after a text. -/
def endLine (text : List Char) : Int := text.count '\n' + 1

namespace Token

/-- The tokens of a text that comes after the text `before`. -/
inductive Munched : List Char → List Char → List Token → Prop
  | done {before gap : List Char} :
      Gap [] gap → Munched before gap [endOfInput (endLine (before ++ gap))]
  | token {before gap word rest : List Char} {lexeme : Lexeme} {tokens : List Token} :
      Gap (word ++ rest) gap → Longest word (word ++ rest) → lexeme.WrittenAs word →
      Munched (before ++ gap ++ word) rest tokens →
      Munched before (gap ++ word ++ rest) (⟨lexeme, endLine (before ++ gap)⟩ :: tokens)

end Token

/-! ## Pieces are words and gaps -/

namespace Token

theorem ofDigits_eq_ok {digits : List Char} {line : Int} {t : Token} :
    ofDigits digits line = .ok t ↔
      digits.length ≤ digitLimit ∧ valueOfDigits digits ≤ Word.greatest ∧
        t = number (valueOfDigits digits) line := by
  unfold ofDigits
  split
  case isTrue hlength => simp [Nat.not_le.2 hlength]
  case isFalse hlength =>
    split
    case isTrue hgreatest => simp [Int.not_le.2 hgreatest]
    case isFalse hgreatest =>
      simp [Nat.not_lt.1 hlength, Int.not_lt.1 hgreatest, eq_comm]

/-- A run of digits that is allowed leaves its token. -/
theorem ofPiece_digits_eq_ok {digits : List Char} {line : Int} {found : Option Token}
    (h : ofPiece (.digits digits) line = .ok found) :
    ∃ t, found = some t ∧ ofDigits digits line = .ok t := by
  rw [ofPiece] at h
  cases hdigits : ofDigits digits line with
  | error e =>
      rw [hdigits] at h
      cases h
  | ok t =>
      rw [hdigits] at h
      cases h
      exact ⟨t, rfl, rfl⟩

theorem writtenAs_ofWord {word : List Char} (h : Terminal.identifier.Matches word) (line : Int) :
    (ofWord word line).lexeme.WrittenAs word := by
  unfold ofWord
  cases hkeyword : keyword? word with
  | some m =>
      have hspelling : m.spelling.toList = word := by
        rw [keyword?] at hkeyword
        simpa using List.find?_some hkeyword
      rw [← hspelling]
      exact .mark m
  | none =>
      refine .identifier h fun m hm hspelling => ?_
      exact absurd (beq_iff_eq.2 hspelling.symm) (List.find?_eq_none.1 hkeyword m hm)

end Token

namespace Piece

open Token

/-- The piece at the front of the text `c :: cs`, told by the first characters, and what is
left after it. -/
inductive Munches (c : Char) (cs : List Char) : Piece → List Char → Prop
  | blank : isBlank c = true → Munches c cs (.blank c) cs
  | digits : isDigit c = true →
      Munches c cs (.digits (c :: cs.takeWhile isDigit)) (cs.dropWhile isDigit)
  | word : isWordStart c = true →
      Munches c cs (.word (c :: cs.takeWhile isWordChar)) (cs.dropWhile isWordChar)
  | comment {ds : List Char} : c = '/' → cs = '/' :: ds →
      Munches c cs (.comment ('/' :: '/' :: ds.takeWhile isCommentChar))
        (ds.dropWhile isCommentChar)
  | pair {d : Char} {rest : List Char} {m : Mark} : cs = d :: rest → pairMark? c d = some m →
      Munches c cs (.mark m) rest
  | single {m : Mark} : singleMark? c = some m → (c = '/' → cs.head? ≠ some '/') →
      (∀ d, cs.head? = some d → pairMark? c d = none) → Munches c cs (.mark m) cs
  | stray : isBlank c = false → isWordChar c = false → singleMark? c = none →
      (∀ d, cs.head? = some d → pairMark? c d = none) → Munches c cs (.stray c) cs

theorem munches_munch (c : Char) (cs : List Char) :
    Munches c cs (munch c cs).1 (munch c cs).2 := by
  by_cases hblank : isBlank c = true
  · rw [munch_blank hblank]
    exact .blank hblank
  by_cases hdigit : isDigit c = true
  · rw [munch.eq_def, if_neg hblank, if_pos hdigit]
    exact .digits hdigit
  by_cases hword : isWordStart c = true
  · rw [munch.eq_def, if_neg hblank, if_neg hdigit, if_pos hword]
    exact .word hword
  by_cases hcomment : c = '/' ∧ cs.head? = some '/'
  · obtain ⟨rfl, hslash⟩ := hcomment
    obtain ⟨ds, rfl⟩ := List.head?_eq_some_iff.1 hslash
    exact .comment rfl rfl
  by_cases hpair : ∃ d m, cs.head? = some d ∧ pairMark? c d = some m
  · obtain ⟨d, m, hd, hm⟩ := hpair
    obtain ⟨ds, rfl⟩ := List.head?_eq_some_iff.1 hd
    rw [munch_pair hm]
    exact .pair rfl hm
  -- what is left is told by the first character alone
  have hnone (d : Char) (hd : cs.head? = some d) : pairMark? c d = none :=
    Option.eq_none_iff_forall_ne_some.2 fun m hm => hpair ⟨d, m, hd, hm⟩
  have hother : munch c cs = ((singleMark? c).elim (.stray c) .mark, cs) := by
    cases cs with
    | nil => simp [munch, hblank, hdigit, hword]
    | cons d ds => simp_all [munch]
  rw [hother]
  cases hsingle : singleMark? c with
  | some m => exact .single hsingle (fun hc hslash => hcomment ⟨hc, hslash⟩) hnone
  | none =>
      have hchar : isWordChar c = false := by simp [isWordChar, hdigit, hword]
      exact .stray (Bool.eq_false_iff.2 hblank) hchar hsingle hnone

section Munches

variable {c : Char} {cs rest : List Char} {piece : Piece} {line : Int}

/-- A piece that leaves a token is the longest match, and the token is the one written like
that. -/
theorem Munches.longest (hm : Munches c cs piece rest) {t : Token}
    (h : ofPiece piece line = .ok (some t)) :
    Longest piece.text (c :: cs) ∧ t.lexeme.WrittenAs piece.text ∧ t.line = line := by
  cases hm with
  | blank => cases h
  | digits hc =>
      obtain ⟨t', ht', hdigits⟩ := ofPiece_digits_eq_ok h
      obtain ⟨hlength, hgreatest, rfl⟩ := ofDigits_eq_ok.1 hdigits
      cases ht'
      exact ⟨longest_digits hc cs, .number (matches_digits hc cs) hlength hgreatest, rfl⟩
  | word hc =>
      cases h
      refine ⟨longest_word hc cs, writtenAs_ofWord (matches_word hc cs) line, ?_⟩
      unfold ofWord
      split <;> rfl
  | comment => cases h
  | @pair d _ m hcs hpair =>
      cases h
      refine ⟨?_, .mark m, rfl⟩
      rw [text, hcs, spelling_of_pairMark? hpair]
      exact longest_pair hpair rest
  | @single m hsingle hcomment hpair =>
      cases h
      refine ⟨?_, .mark m, rfl⟩
      rw [text, spelling_of_singleMark? hsingle]
      exact longest_single hsingle hcomment hpair
  | stray => cases h

/-- A piece that leaves no token may stand before any gap. -/
theorem Munches.gap (hm : Munches c cs piece rest) (h : ofPiece piece line = .ok none)
    {gap after : List Char} (hrest : rest = gap ++ after) (hgap : Gap after gap) :
    Gap after (piece.text ++ gap) := by
  cases hm with
  | blank hc => exact .blanks ⟨List.cons_ne_nil _ _, List.forall_mem_singleton.2 hc⟩ hgap
  | digits =>
      obtain ⟨t, ht, -⟩ := ofPiece_digits_eq_ok h
      cases ht
  | @comment ds =>
      refine .comment ⟨_, rfl, fun d hd => ?_⟩ (fun d hd => ?_) hgap
      · simpa [isCommentChar] using List.all_eq_true.1 List.all_takeWhile d hd
      · rw [← hrest] at hd
        have hstop := List.head?_dropWhile_not isCommentChar ds
        rw [hd] at hstop
        simpa [isCommentChar] using hstop
  | word => cases h
  | pair => cases h
  | single => cases h
  | stray => cases h

/-- A word of a class that the line feed is not in has no line feed. -/
theorem not_mem_newline_of_class {p : Char → Bool} (hp : p '\n' = false) {word : List Char}
    (hword : ∀ c ∈ word, p c = true) : '\n' ∉ word := by
  intro hmem
  rw [hword _ hmem] at hp
  cases hp

/-- A line feed is a piece of its own. -/
theorem Munches.newline (hm : Munches c cs piece rest) :
    piece = .blank '\n' ∨ '\n' ∉ piece.text := by
  cases hm with
  | blank =>
      by_cases hc : c = '\n'
      · exact .inl (by rw [hc])
      · exact .inr fun hmem => hc (List.mem_singleton.1 hmem).symm
  | digits hc => exact .inr (not_mem_newline_of_class not_isDigit_newline (matches_digits hc cs).2)
  | word hc =>
      have hall : ∀ d ∈ c :: cs.takeWhile isWordChar, isWordChar d = true :=
        List.forall_mem_cons.2 ⟨isWordChar_of_isWordStart hc, List.all_eq_true.1 List.all_takeWhile⟩
      exact .inr (not_mem_newline_of_class not_isWordChar_newline hall)
  | @comment ds =>
      have hrun : '\n' ∉ ds.takeWhile isCommentChar :=
        not_mem_newline_of_class not_isCommentChar_newline (List.all_eq_true.1 List.all_takeWhile)
      exact .inr (by simpa [text] using hrun)
  | @pair _ _ m => exact .inr (by cases m <;> decide)
  | @single m => exact .inr (by cases m <;> decide)
  | stray hc =>
      refine .inr fun hmem => ?_
      rw [← List.mem_singleton.1 hmem] at hc
      cases hc

/-- The line after a piece is further down by the line feeds in it. -/
theorem Munches.lineAfter_eq (hm : Munches c cs piece rest) (line : Int) :
    lineAfter piece line = line + piece.text.count '\n' := by
  rcases hm.newline with rfl | hnone
  · rfl
  · rw [List.count_eq_zero.2 hnone, lineAfter]
    · exact (Int.add_zero line).symm
    · rintro rfl
      exact hnone (List.mem_singleton_self _)

end Munches

end Piece

/-! ## Scanned texts are munched -/

namespace Token

theorem endLine_append (before text : List Char) :
    endLine (before ++ text) = endLine before + text.count '\n' := by
  simp only [endLine, List.count_append]
  omega

/-- What stands in front of some tokens goes with the gap before the first of them. -/
theorem Munched.skip {before skipped text : List Char} {tokens : List Token}
    (h : Munched (before ++ skipped) text tokens)
    (hskip : ∀ gap after, text = gap ++ after → Gap after gap → Gap after (skipped ++ gap)) :
    Munched before (skipped ++ text) tokens := by
  cases h with
  | done hgap =>
      rw [List.append_assoc]
      exact .done (hskip _ [] (List.append_nil _).symm hgap)
  | @token _ gap word rest lexeme tokens hgap hlongest hwritten hrest =>
      have hgap' := hskip gap (word ++ rest) (List.append_assoc ..) hgap
      simp only [List.append_assoc] at hrest ⊢
      simpa using Munched.token hgap' hlongest hwritten (by simpa using hrest)

/-- The tokens of the pieces of a text, by induction on the cutting: a piece is a word, or goes
with the gap before the next one. -/
theorem munched_of_ofPieces {text before : List Char} {tokens : List Token}
    (h : ofPieces (endLine before) (Piece.cut text) = .ok tokens) :
    Munched before text tokens := by
  fun_induction Piece.cutOnto [] text generalizing before tokens with
  | case1 =>
      rw [Piece.cut_nil, ofPieces_nil] at h
      cases h
      have hdone := @Munched.done before [] .nil
      rwa [List.append_nil] at hdone
  | case2 done c cs ih =>
      have hm := Piece.munches_munch c cs
      rw [Piece.cut_cons] at h
      obtain ⟨found, rest, hfound, hrest, rfl⟩ := ofPieces_cons_eq_ok.1 h
      rw [hm.lineAfter_eq, ← endLine_append] at hrest
      have hothers := ih hrest
      rw [← Piece.text_munch c cs]
      cases found with
      | none => exact hothers.skip fun gap after => hm.gap hfound
      | some t =>
          obtain ⟨hlongest, hwritten, hline⟩ := hm.longest hfound
          obtain ⟨lexeme, line⟩ := t
          obtain rfl : line = endLine before := hline
          rw [← Piece.text_munch c cs] at hlongest
          rw [← List.append_nil before] at hothers
          have htoken := Munched.token .nil hlongest hwritten hothers
          rwa [List.append_nil] at htoken

/-! ## Munched texts are scanned -/

theorem matches_identifier_concat {word : List Char} (h : Terminal.identifier.Matches word)
    {c : Char} (hc : isWordChar c = true) : Terminal.identifier.Matches (word ++ [c]) := by
  obtain ⟨d, ds, rfl, hd, hds⟩ := h
  exact ⟨d, ds ++ [c], rfl, hd, List.forall_mem_append.2 ⟨hds, List.forall_mem_singleton.2 hc⟩⟩

/-- A character that extends a mark makes a word that some terminal matches: the name of an
identifier, a mark of two characters, or the start of a comment. -/
theorem exists_matches_mark_concat {m : Mark} {c : Char}
    (hc : (Lexeme.mark m none).extendedBy c = true) :
    ∃ t : Terminal, t.Matches (m.spelling.toList ++ [c]) := by
  cases m <;> simp [Lexeme.extendedBy, Lexeme.isWordLike, Lexeme.isNumber, Lexeme.takesEquals,
    Lexeme.isSlash, Mark.keywords] at hc
  case equal => exact ⟨.mark .equalEqual, by rw [hc]; rfl⟩
  case less => exact ⟨.mark .lessEqual, by rw [hc]; rfl⟩
  case greater => exact ⟨.mark .greaterEqual, by rw [hc]; rfl⟩
  case slash => exact ⟨.comment, [], by rw [hc]; rfl, List.forall_mem_nil _⟩
  -- only keywords are left, which go on as names do
  all_goals
    exact ⟨.identifier, matches_identifier_concat
      (Terminal.matches_identifier_of_keyword (by decide)) hc⟩

/-- A character that extends a lexeme makes a longer word that some terminal matches. -/
theorem exists_matches_of_extendedBy {a : Lexeme} {word : List Char} (h : a.WrittenAs word)
    {c : Char} (hc : a.extendedBy c = true) : ∃ t : Terminal, t.Matches (word ++ [c]) := by
  cases h with
  | number hword =>
      rw [Lexeme.extendedBy_number] at hc
      exact ⟨.number, by simp, List.forall_mem_append.2 ⟨hword.2, List.forall_mem_singleton.2 hc⟩⟩
  | identifier hword =>
      rw [Lexeme.extendedBy_identifier] at hc
      exact ⟨.identifier, matches_identifier_concat hword hc⟩
  | mark m => exact exists_matches_mark_concat hc

/-- After the longest match comes nothing that would extend it. -/
theorem endsBefore_of_longest {a : Lexeme} {word rest : List Char} (h : a.WrittenAs word)
    (hlongest : Longest word (word ++ rest)) : a.EndsBefore rest := by
  intro c hc
  refine Bool.eq_false_iff.2 fun hextended => ?_
  obtain ⟨after, rfl⟩ := List.head?_eq_some_iff.1 hc
  obtain ⟨t, ht⟩ := exists_matches_of_extendedBy h hextended
  have hle := hlongest.longest t (word ++ [c]) ⟨after, by simp⟩ ht
  rw [List.length_append] at hle
  exact Nat.not_succ_le_self _ hle

theorem keyword?_eq_none {word : List Char} (h : ∀ m ∈ Mark.keywords, word ≠ m.spelling.toList) :
    keyword? word = none := by
  refine List.find?_eq_none.2 fun m hm hspelling => ?_
  exact h m hm (eq_of_beq hspelling).symm

/-- A written lexeme that is the longest match is scanned as itself. -/
theorem ofPieces_longest {a : Lexeme} {word rest : List Char} (h : a.WrittenAs word)
    (hlongest : Longest word (word ++ rest)) (line : Int) :
    ofPieces line (Piece.cut (word ++ rest)) =
      (ofPieces line (Piece.cut rest)).map (⟨a, line⟩ :: ·) := by
  have hends := endsBefore_of_longest h hlongest
  cases h with
  | number hword hlength hgreatest =>
      obtain ⟨c, cs, rfl⟩ := List.exists_cons_of_ne_nil hword.1
      have htoken : ofPiece (.digits (c :: cs)) line =
          .ok (some (number (valueOfDigits (c :: cs)) line)) := by
        rw [ofPiece, ofDigits_eq_ok.2 ⟨hlength, hgreatest, rfl⟩]
        rfl
      refine ofPieces_munch (Piece.munch_digits hword.2 fun d hd => ?_) htoken rfl
      rw [← Lexeme.extendedBy_number (valueOfDigits (c :: cs))]
      exact hends d hd
  | identifier hword hkeyword =>
      obtain ⟨c, cs, rfl, hc, hcs⟩ := hword
      rw [ofPieces_word hc hcs (not_isWordChar_of_endsBefore rfl hends), ofWord,
        keyword?_eq_none hkeyword]
      rfl
  | mark m => exact ofPieces_mark m line hends

/-- Blanks leave nothing but their lines. -/
theorem ofPieces_run {run : List Char} (hrun : ∀ c ∈ run, isBlank c = true) (line : Int)
    (rest : List Char) :
    ofPieces line (Piece.cut (run ++ rest)) =
      ofPieces (line + run.count '\n') (Piece.cut rest) := by
  induction run generalizing line with
  | nil => rw [List.nil_append, List.count_nil, Int.natCast_zero, Int.add_zero]
  | cons c run ih =>
      obtain ⟨hc, hothers⟩ := List.forall_mem_cons.1 hrun
      have hm : Piece.Munches c (run ++ rest) (.blank c) (run ++ rest) := .blank hc
      have hcount : (c :: run).count '\n' = [c].count '\n' + run.count '\n' := by
        rw [← List.count_append, List.singleton_append]
      rw [List.cons_append, ofPieces_blank hc, hm.lineAfter_eq, ih hothers, hcount,
        Int.natCast_add, Int.add_assoc]
      rfl

theorem ofPieces_blanks {run : List Char} (hrun : ∀ c ∈ run, isBlank c = true)
    (before rest : List Char) :
    ofPieces (endLine before) (Piece.cut (run ++ rest)) =
      ofPieces (endLine (before ++ run)) (Piece.cut rest) := by
  rw [ofPieces_run hrun, ← endLine_append]

/-- A comment ends where a line feed comes after it, or nothing at all. -/
theorem ofPieces_comment {text rest : List Char} (htext : Terminal.comment.Matches text)
    (hrest : ∀ c ∈ rest.head?, c = '\n') (before : List Char) :
    ofPieces (endLine before) (Piece.cut (text ++ rest)) =
      ofPieces (endLine (before ++ text)) (Piece.cut rest) := by
  obtain ⟨cs, rfl, hcs⟩ := htext
  have hrun : ∀ c ∈ cs, isCommentChar c = true := by simpa [isCommentChar] using hcs
  obtain ⟨htake, hdrop⟩ := takeWhile_run hrun fun c hc => by
    rw [hrest c hc]
    exact not_isCommentChar_newline
  have hmunch := Piece.munch_comment (cs ++ rest)
  rw [htake, hdrop] at hmunch
  have hm := Piece.munches_munch '/' ('/' :: (cs ++ rest))
  rw [hmunch] at hm
  rw [List.cons_append, List.cons_append, Piece.cut_cons, hmunch, ofPieces_cons]
  show ofPieces (lineAfter (.comment ('/' :: '/' :: cs)) (endLine before)) (Piece.cut rest) = _
  rw [hm.lineAfter_eq, ← endLine_append]
  rfl

/-- A gap leaves nothing but its lines. -/
theorem ofPieces_gap {gap rest : List Char} (h : Gap rest gap) (before : List Char) :
    ofPieces (endLine before) (Piece.cut (gap ++ rest)) =
      ofPieces (endLine (before ++ gap)) (Piece.cut rest) := by
  induction h generalizing before with
  | nil => rw [List.nil_append, List.append_nil]
  | blanks hrun _ ih => rw [List.append_assoc, ofPieces_blanks hrun.2, ih, List.append_assoc]
  | comment htext hstop _ ih =>
      rw [List.append_assoc, ofPieces_comment htext hstop, ih, List.append_assoc]

theorem not_mem_newline_of_writtenAs {a : Lexeme} {word : List Char} (h : a.WrittenAs word) :
    '\n' ∉ word := by
  cases h with
  | number hword => exact Piece.not_mem_newline_of_class not_isDigit_newline hword.2
  | identifier hword =>
      obtain ⟨c, cs, rfl, hc, hcs⟩ := hword
      exact Piece.not_mem_newline_of_class not_isWordChar_newline
        (List.forall_mem_cons.2 ⟨isWordChar_of_isWordStart hc, hcs⟩)
  | mark m => cases m <;> decide

theorem ofPieces_of_munched {text before : List Char} {tokens : List Token}
    (h : Munched before text tokens) :
    ofPieces (endLine before) (Piece.cut text) = .ok tokens := by
  induction h with
  | @done before gap hgap =>
      have hskip := ofPieces_gap hgap before
      rwa [List.append_nil, Piece.cut_nil] at hskip
  | @token before gap word rest lexeme tokens hgap hlongest hwritten _ ih =>
      -- a word has no line feed, so that the scanner goes on in the line of the token
      have hline : endLine (before ++ gap ++ word) = endLine (before ++ gap) := by
        rw [endLine_append _ word, List.count_eq_zero.2 (not_mem_newline_of_writtenAs hwritten)]
        exact Int.add_zero _
      rw [hline] at ih
      rw [List.append_assoc, ofPieces_gap hgap, ofPieces_longest hwritten hlongest, ih]
      rfl

end Token

/-- **Scanning is the longest match.**  A text scans to some tokens exactly when it is made of
their words, with gaps of blanks and comments before, between and after them, where
each word is the longest at its place that a terminal matches, and each token is the one
written as its word, on the line it stands on; one end-of-input token closes the list, on the
last line of the text. -/
theorem scan_eq_ok_iff_munched (text : String) (tokens : List Token) :
    Token.scan text = .ok tokens ↔ Token.Munched [] text.toList tokens := by
  have hline : (1 : Int) = endLine [] := rfl
  rw [Token.scan, Token.scanChars, hline]
  exact ⟨Token.munched_of_ofPieces, Token.ofPieces_of_munched⟩

end RillLang
