import RillLang.Proofs.Streams

/-!
# What a run does not report

A run without flags ends with status zero or one, whatever the text is, but for one kind of
text: a run of digits that is longer than `digitLimit` ends it without a report
(`run_ends_or_escapes`).  The digits count, leading zeros included, and not the number they
stand for; within the limit a number is accepted exactly when it is a word.
-/

namespace RillLang

/-! ## Numbers of a text -/

/-- A number that is not too long offends exactly when it is greater than the greatest word,
and then it is out of range. -/
theorem offends_number_iff {text : List Char} {i : Nat} {e : ScanError}
    (hcomment : ¬ InComment text i) (hstarts : StartsNumber text i)
    (hfew : (digitsAt text i).length ≤ digitLimit) :
    Offends text i e ↔ Word.greatest < Token.valueOfDigits (digitsAt text i) ∧
      e = .outOfRange (String.ofList (digitsAt text i)) (lineAt text i) := by
  constructor
  · intro h
    cases h with
    | stray _ hc hbelongs => exact absurd (hstarts.belongs hc) hbelongs
    | tooManyDigits _ _ hmany => exact absurd hmany (Nat.not_lt.2 hfew)
    | outOfRange _ _ _ hgreat => exact ⟨hgreat, rfl⟩
  · rintro ⟨hgreat, rfl⟩
    exact .outOfRange hcomment hstarts hfew hgreat

/-- A text that starts with too many digits does not scan, whatever number they stand for. -/
theorem Token.scan_of_many_digits {digits rest : List Char}
    (hrun : ∀ d ∈ digits, isDigit d = true) (hrest : ∀ d ∈ rest.head?, isDigit d = false)
    (hmany : digitLimit < digits.length) :
    scan (String.ofList (digits ++ rest)) = .error (.tooManyDigits digits.length) := by
  cases digits with
  | nil => cases hmany
  | cons c cs =>
      rw [scan, scanChars, String.toList_ofList, List.cons_append, Piece.cut_cons,
        Piece.munch_digits hrun hrest, ofPieces_cons, ofPiece, ofDigits, if_pos hmany]
      rfl

/-! ## Runs without flags -/

/-- **Every failure is reported, but for a number that is too long.**  Take a run without
flags whose loops are not cut short.  If the first offence of the text is a run of too many
digits, the run ends with that failure, which it does not report.  Otherwise it ends with
status zero when no stage fails, and when one does it ends with status one after the report of
the first failure.  A number that is not too long offends exactly when it is greater than the
greatest word, however many zeros it starts with, and its offence is the report that it is out
of range. -/
theorem run_ends_or_escapes [Closing] {limits : Limits} {source : String}
    (hrounds : (run limits {} source).ending ≠ .error (.fault .outOfRounds)) :
    (∀ i n, FirstOffence source.toList i (.tooManyDigits n) →
        run limits {} source = ⟨"", "", .error (.scan (.tooManyDigits n))⟩) ∧
      ((∀ i n, ¬ FirstOffence source.toList i (.tooManyDigits n)) →
        (run limits {} source).ending = .ok 0 ∧
            (∀ stage failure, ¬ FirstFailure limits source stage failure) ∨
          (run limits {} source).ending = .ok 1 ∧
            ∃ stage failure, FirstFailure limits source stage failure ∧
              (run limits {} source).err = stage.heading ++ failure.message ++ "\n") ∧
      ∀ i, ¬ InComment source.toList i → StartsNumber source.toList i →
        (digitsAt source.toList i).length ≤ digitLimit →
        ∀ e, Offends source.toList i e ↔
          Word.greatest < Token.valueOfDigits (digitsAt source.toList i) ∧
            e = .outOfRange (String.ofList (digitsAt source.toList i))
              (lineAt source.toList i) := by
  refine ⟨fun i n hfirst => ?_, fun hnone => ?_, fun i hcomment hstarts hfew e =>
    offends_number_iff hcomment hstarts hfew⟩
  · exact run_of_scan_error (Token.scan_of_firstOffence hfirst)
  · rcases run_plain limits source with
      ⟨out, hrun, -, hclean⟩ | ⟨stage, failure, out, hfails, hrun, -⟩
    · rw [hrun]
      exact .inl ⟨rfl, hclean⟩
    · have hdigits : ∀ n, failure ≠ .scan (.tooManyDigits n) := by
        rintro n rfl
        cases hfails with
        | scanning hscan =>
            obtain ⟨i, hfirst⟩ := Token.firstOffence_of_scan hscan
            exact hnone i n hfirst
      have hloops : failure ≠ .fault .outOfRounds := by
        rintro rfl
        rw [hrun] at hrounds
        exact hrounds rfl
      rw [hrun, Transcript.ofFailure, hfails.stage?_eq hdigits hloops]
      exact .inr ⟨rfl, stage, failure, hfails, rfl⟩

/-- The first number that is too great, written without zeros, is reported. -/
theorem run_reports_great_number :
    let limits : Limits := ⟨20, 1⟩
    let source := "print(9223372036854775808);"
    (run limits {} source).ending ≠ .error (.fault .outOfRounds) ∧
      (run limits {} source).ending = .ok 1 ∧
      ∃ stage failure, FirstFailure limits source stage failure ∧
        (run limits {} source).err = stage.heading ++ failure.message ++ "\n" := by
  intro limits source
  have hscan : Token.scan source = .error (.outOfRange "9223372036854775808" 1) := by
    decide +kernel
  have hrun : run limits {} source =
      .ofFailure "" (.scan (.outOfRange "9223372036854775808" 1)) := run_of_scan_error hscan
  have hrounds : (run limits {} source).ending ≠ .error (.fault .outOfRounds) := by
    rw [hrun]
    rintro ⟨⟩
  have hnone : ∀ i n, ¬ FirstOffence source.toList i (.tooManyDigits n) := by
    intro i n hfirst
    rw [Token.scan_of_firstOffence hfirst] at hscan
    cases hscan
  rcases (run_ends_or_escapes hrounds).2.1 hnone with ⟨hending, -⟩ | hreport
  · rw [hrun] at hending
    cases hending
  · exact ⟨hrounds, hreport⟩

/-- The number one after as many zeros as a number may have digits: a run does not end with a
status, although the number is a word. -/
theorem run_leading_zeros_escape :
    let digits := List.replicate digitLimit '0' ++ ['1']
    Token.valueOfDigits digits = 1 ∧
      (run {} {} (String.ofList (digits ++ [';']))).ending =
        .error (.scan (.tooManyDigits digits.length)) := by
  intro digits
  have hdigits : ∀ d ∈ digits, isDigit d = true := by
    intro d hd
    rcases List.mem_append.1 hd with hd | hd
    · rw [List.eq_of_mem_replicate hd]
      rfl
    · rw [List.mem_singleton.1 hd]
      rfl
  have hmany : digitLimit < digits.length := by simp [digits]
  have hvalue : Token.valueOfDigits digits = 1 := by
    rw [Token.valueOfDigits, Nat.ofDigitChars_append, Nat.ofDigitChars_replicate_zero,
      Nat.mul_zero]
    rfl
  have hsemicolon : ∀ d ∈ [';'].head?, isDigit d = false := by
    rintro d ⟨⟩
    rfl
  have hscan := Token.scan_of_many_digits hdigits hsemicolon hmany
  rw [run_of_scan_error hscan]
  exact ⟨hvalue, rfl⟩

end RillLang
