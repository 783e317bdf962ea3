import RillLang.Proofs.Message
import RillLang.Run.Report

/-!
# The two outputs of a run

What a run writes and how it ends fit together, and showing tokens or the tree changes
nothing else (`run_streams`).

* `run_eq_after` — a run that ends with a status is the run without flags, with the sections
  that were asked for before its error output.
* `run_plain` — a run without flags has no failure and writes no error, or it is the
  transcript of its first failure.
* `FirstFailure.oneLine` — the report of a first failure is one line.
-/

namespace RillLang

/-! ## Transcripts -/

namespace Transcript

@[simp] theorem after_empty (t : Transcript) : after "" t = t := by
  simp [after]

theorem after_after (before before' : String) (t : Transcript) :
    after before (after before' t) = after (before ++ before') t := by
  simp [after, String.append_assoc]

/-- A failure ends a run with a status exactly when it is reported. -/
theorem ofFailure_ending {out : String} {failure : Failure} {status : Nat} :
    (ofFailure out failure).ending = .ok status ↔
      status = 1 ∧ ∃ stage, failure.stage? = some stage := by
  unfold ofFailure
  cases failure.stage? with
  | some stage => simp [eq_comm]
  | none => simp

end Transcript

/-! ## Sections -/

theorem sectionHeader_append (terminal : Bool) (label body : String) :
    sectionHeader terminal label ++ body ++ "\n" = Section.text terminal ⟨label, body⟩ := by
  have hwidth : (80 : Int) - label.length - 4 = 76 - label.length := by omega
  have hcolour : "\n\x1b[1;97m" = "\n" ++ "\x1b[1;97m" := by decide
  cases terminal <;>
    simp only [sectionHeader, header, Section.text, painted, Section.rule, hwidth, hcolour,
      String.append_assoc, if_true, Bool.false_eq_true, if_false] <;> rfl

theorem tokenSection_eq {flags : Flags} {source : String} {tokens : List Token}
    (hscan : Token.scan source = .ok tokens) :
    tokenSection flags tokens = shown flags.terminal (tokenSection? flags source) := by
  unfold tokenSection tokenSection?
  cases flags.tokens with
  | false => rfl
  | true => simp [hscan, shown, Except.toOption, sectionHeader_append]

section Stages

variable {limits : Limits} {flags : Flags} {source : String} {tokens : List Token} {p : Program}

theorem parse?_of_ok (hscan : Token.scan source = .ok tokens)
    (hparse : Program.ofTokens limits.nesting tokens = .ok p) : parse? limits source = some p := by
  simp [parse?, hscan, hparse, Except.toOption]

theorem parse?_of_error {e : ParseError} (hscan : Token.scan source = .ok tokens)
    (hparse : Program.ofTokens limits.nesting tokens = .error e) :
    parse? limits source = none := by
  simp [parse?, hscan, hparse, Except.toOption]

/-! ## Runs by the first stage that fails -/

variable [Closing]

theorem run_of_scan_error {e : ScanError} (hscan : Token.scan source = .error e) :
    run limits flags source = .ofFailure "" (.scan e) := by
  rw [run, hscan]

theorem run_of_parse_error {e : ParseError} (hscan : Token.scan source = .ok tokens)
    (hparse : Program.ofTokens limits.nesting tokens = .error e) :
    run limits flags source =
      .after (tokenSection flags tokens) (.ofFailure "" (.parse e)) := by
  rw [run, hscan]
  simp only [hparse]

theorem run_of_ok (hscan : Token.scan source = .ok tokens)
    (hparse : Program.ofTokens limits.nesting tokens = .ok p) :
    run limits flags source =
      .after (tokenSection flags tokens) (showAndInterpret limits flags p) := by
  rw [run, hscan]
  simp only [hparse]

/-- Showing the tree puts its section before the error output, if the tree can be shown. -/
theorem showAndInterpret_eq_after {status : Nat} (hscan : Token.scan source = .ok tokens)
    (hparse : Program.ofTokens limits.nesting tokens = .ok p)
    (hending : (showAndInterpret limits flags p).ending = .ok status) :
    showAndInterpret limits flags p =
      .after (shown flags.terminal (treeSection? limits flags source)) (interpretFresh limits p) := by
  unfold showAndInterpret treeSection? at *
  cases hast : flags.ast with
  | false => simp [shown]
  | true =>
      rw [if_pos hast] at hending
      cases hdump : p.node.dump? limits.nesting dumpLayout with
      | none =>
          rw [hdump] at hending
          obtain ⟨-, stage, hstage⟩ := Transcript.ofFailure_ending.1 hending
          cases hstage
      | some text =>
          obtain ⟨-, rfl⟩ : p.node.fits limits.nesting = true ∧
              p.node.toJson.render dumpLayout = text := by
            simpa [Node.dump?] using hdump
          simp [parse?_of_ok hscan hparse, shown, Transcript.after_after, ← sectionHeader_append,
            String.append_assoc]

/-- **A run with flags is the run without**, with sections before its error output. -/
theorem run_eq_after {status : Nat} (hending : (run limits flags source).ending = .ok status) :
    run limits flags source =
      .after (shown flags.terminal (tokenSection? flags source) ++
        shown flags.terminal (treeSection? limits flags source)) (run limits {} source) := by
  cases hscan : Token.scan source with
  | error e =>
      have htoken : tokenSection? flags source = none := by
        simp [tokenSection?, hscan, Except.toOption]
      have htree : treeSection? limits flags source = none := by
        simp [treeSection?, parse?, hscan, Except.toOption]
      rw [run_of_scan_error hscan, run_of_scan_error hscan, htoken, htree]
      simp [shown]
  | ok tokens =>
      cases hparse : Program.ofTokens limits.nesting tokens with
      | error e =>
          have htree : treeSection? limits flags source = none := by
            simp [treeSection?, parse?_of_error hscan hparse]
          rw [run_of_parse_error hscan hparse, run_of_parse_error hscan hparse, htree,
            tokenSection_eq hscan]
          simp [shown, tokenSection]
      | ok p =>
          rw [run_of_ok hscan hparse] at hending ⊢
          rw [run_of_ok hscan hparse, showAndInterpret_eq_after hscan hparse hending,
            Transcript.after_after, tokenSection_eq hscan]
          simp [tokenSection, showAndInterpret]

end Stages

/-! ## Runs without flags -/

section Plain

variable [Closing] {limits : Limits} {source : String}

/-- A text whose program runs to its end has no first failure. -/
theorem not_firstFailure {tokens : List Token} {p : Program} {u : Unit} {m : Machine}
    (hscan : Token.scan source = .ok tokens)
    (hparse : Program.ofTokens limits.nesting tokens = .ok p)
    (hinterpret : p.interpret limits.nesting limits.rounds .fresh = .ok u m) (stage : Stage)
    (failure : Failure) : ¬ FirstFailure limits source stage failure := by
  intro h
  cases h with
  | scanning hscan' =>
      rw [hscan] at hscan'
      cases hscan'
  | parsing hscan' hparse' =>
      rw [hscan] at hscan'
      cases hscan'
      rw [hparse] at hparse'
      cases hparse'
  | running hscan' hparse' hinterpret' =>
      rw [hscan] at hscan'
      cases hscan'
      rw [hparse] at hparse'
      cases hparse'
      rw [hinterpret] at hinterpret'
      cases hinterpret'

/-- A run without flags succeeds, or it is the transcript of its first failure; the failure
comes after some output only if the program was interpreted. -/
theorem run_plain (limits : Limits) (source : String) :
    (∃ out, run limits {} source = ⟨out, "", .ok 0⟩ ∧ (parse? limits source).isSome ∧
        ∀ stage failure, ¬ FirstFailure limits source stage failure) ∨
      ∃ stage failure out, FirstFailure limits source stage failure ∧
        run limits {} source = .ofFailure out failure ∧
        (parse? limits source = none → out = "") := by
  cases hscan : Token.scan source with
  | error e => exact .inr ⟨_, _, "", .scanning hscan, run_of_scan_error hscan, fun _ => rfl⟩
  | ok tokens =>
      cases hparse : Program.ofTokens limits.nesting tokens with
      | error e =>
          refine .inr ⟨_, _, "", .parsing hscan hparse, ?_, fun _ => rfl⟩
          rw [run_of_parse_error hscan hparse]
          simp [tokenSection]
      | ok p =>
          have hsome := parse?_of_ok hscan hparse
          have hrun : run limits {} source = interpretFresh limits p := by
            rw [run_of_ok hscan hparse]
            simp [tokenSection, showAndInterpret]
          rw [hrun, interpretFresh, hsome]
          cases hinterpret : p.interpret limits.nesting limits.rounds .fresh with
          | ok u m =>
              exact .inl ⟨m.output, rfl, rfl, not_firstFailure hscan hparse hinterpret⟩
          | error fault m =>
              exact .inr ⟨_, _, m.output, .running hscan hparse hinterpret, rfl, nofun⟩

/-- The faults of a program of a text. -/
theorem Fault.from_of_interpret {tokens : List Token} {p : Program} {fault : Fault} {m : Machine}
    (hscan : Token.scan source = .ok tokens)
    (hparse : Program.ofTokens limits.nesting tokens = .ok p)
    (hinterpret : p.interpret limits.nesting limits.rounds .fresh = .error fault m) :
    fault.From tokens := by
  have hwords := Exec.interpret_words (Program.listFrom_of_scan hscan hparse)
    Env.allWords_empty.machine limits.nesting limits.rounds
  exact (hwords.of_error hinterpret).1

/-- A first failure is reported under the heading of its stage, but for two: a run of too many
digits, and a loop that is cut short. -/
theorem FirstFailure.stage?_eq {stage : Stage} {failure : Failure}
    (h : FirstFailure limits source stage failure)
    (hdigits : ∀ n, failure ≠ .scan (.tooManyDigits n)) (hrounds : failure ≠ .fault .outOfRounds) :
    failure.stage? = some stage.heading := by
  cases h with
  | @scanning e _ =>
      cases e with
      | unexpected => rfl
      | outOfRange => rfl
      | tooManyDigits n => exact absurd rfl (hdigits n)
  | parsing hscan hparse =>
      obtain ⟨reject, found, -, rfl, hreject⟩ :=
        Program.exists_reject_of_scanned (Token.scanned_of_scan hscan) hparse
      rcases hreject with rfl | hreject
      · rfl
      · cases hreject <;> rfl
  | running hscan hparse hinterpret =>
      cases Fault.from_of_interpret hscan hparse hinterpret with
      | undefinedVariable => rfl
      | divisionByZero => rfl
      | nestingTooDeep => rfl
      | outOfRounds => exact absurd rfl hrounds

/-- The report of a failure starts with the stage that failed. -/
theorem FirstFailure.heading_eq {stage : Stage} {failure : Failure} {text : String}
    (h : FirstFailure limits source stage failure) (htext : failure.stage? = some text) :
    text = stage.heading := by
  have hdigits : ∀ n, failure ≠ .scan (.tooManyDigits n) := by
    rintro n rfl
    cases htext
  have hrounds : failure ≠ .fault .outOfRounds := by
    rintro rfl
    cases htext
  rw [h.stage?_eq hdigits hrounds] at htext
  exact (Option.some.inj htext).symm

/-- The report of a first failure is one line. -/
theorem FirstFailure.oneLine {stage : Stage} {failure : Failure}
    (h : FirstFailure limits source stage failure) :
    OneLine (stage.heading ++ failure.message) := by
  rw [oneLine_append]
  cases h with
  | scanning hscan =>
      obtain ⟨i, hoffends, -⟩ := Token.firstOffence_of_scan hscan
      exact ⟨by decide, hoffends.oneLine_message⟩
  | parsing hscan hparse =>
      exact ⟨by decide, Program.oneLine_message (Token.scanned_of_scan hscan) hparse⟩
  | running hscan hparse hinterpret =>
      have hfault := Fault.from_of_interpret hscan hparse hinterpret
      exact ⟨by decide,
        hfault.oneLine_message fun x => (Token.scanned_of_scan hscan).oneLine_of_namedIn⟩

/-- A run without flags that ends with a status has no failure and writes no error, or it
writes the report of its first failure; and it has no output unless the program was
interpreted. -/
theorem run_plain_of_ending {status : Nat} (hending : (run limits {} source).ending = .ok status) :
    (status = 0 ∧ (run limits {} source).err = "" ∧
        (∀ stage failure, ¬ FirstFailure limits source stage failure) ∨
      status = 1 ∧ ∃ stage failure, FirstFailure limits source stage failure ∧
        (run limits {} source).err = stage.heading ++ failure.message ++ "\n") ∧
      ((run limits {} source).out ≠ "" → ∃ p, parse? limits source = some p) := by
  rcases run_plain limits source with
    ⟨out, hrun, hsome, hclean⟩ | ⟨stage, failure, out, hfails, hrun, hout⟩
  · rw [hrun] at hending ⊢
    cases hending
    exact ⟨.inl ⟨rfl, rfl, hclean⟩, fun _ => Option.isSome_iff_exists.1 hsome⟩
  · rw [hrun] at hending ⊢
    obtain ⟨hstatus, text, htext⟩ := Transcript.ofFailure_ending.1 hending
    have hheading := hfails.heading_eq htext
    simp only [Transcript.ofFailure, htext]
    refine ⟨.inr ⟨hstatus, stage, failure, hfails, by rw [hheading]⟩, fun hne => ?_⟩
    cases hparse : parse? limits source with
    | none => exact absurd (hout hparse) hne
    | some p => exact ⟨p, rfl⟩

end Plain

/-- **The outputs and the status of a run fit together.**  Take a run that ends with a status.
The run without flags ends with the same status.  Either the status is zero, no stage has
failed and its error output is empty; or the status is one and its error output is one line,
which starts with the heading of the first stage that failed and goes on with the message of
the failure.  Its output is empty unless the text scans and parses.  The run has the same
output, and before the same error output it has the section of the tokens and the section of
the tree, each if it was asked for and its stage has succeeded; only the rules above them
depend on the terminal. -/
theorem run_streams [Closing] {limits : Limits} {flags : Flags} {source : String} {status : Nat}
    (hending : (run limits flags source).ending = .ok status) :
    let plain := run limits {} source
    plain.ending = .ok status ∧
      (status = 0 ∧ plain.err = "" ∧
          (∀ stage failure, ¬ FirstFailure limits source stage failure) ∨
        status = 1 ∧ ∃ stage failure, FirstFailure limits source stage failure ∧
          plain.err = stage.heading ++ failure.message ++ "\n" ∧
          OneLine (stage.heading ++ failure.message)) ∧
      (plain.out ≠ "" → ∃ p, parse? limits source = some p) ∧
      (run limits flags source).out = plain.out ∧
      (run limits flags source).err = shown flags.terminal (tokenSection? flags source) ++
        shown flags.terminal (treeSection? limits flags source) ++ plain.err := by
  intro plain
  have hafter := run_eq_after hending
  have hplain : plain.ending = .ok status := by
    rw [hafter] at hending
    exact hending
  obtain ⟨hreport, hout⟩ := run_plain_of_ending hplain
  refine ⟨hplain, hreport.imp_right ?_, hout, by rw [hafter]; rfl, by rw [hafter]; rfl⟩
  rintro ⟨hstatus, stage, failure, hfails, herr⟩
  exact ⟨hstatus, stage, failure, hfails, herr, hfails.oneLine⟩

/-- A program that prints a number and then stops at a name that is bound nowhere, with
everything shown on a terminal. -/
theorem run_streams_undefined_variable :
    let limits : Limits := ⟨20, 1⟩
    let flags : Flags := ⟨true, true, true⟩
    let source := "print(1);\nx;"
    (run limits flags source).ending = .ok 1 ∧ (run limits flags source).out = "1\n" ∧
      (run limits flags source).err = shown true (tokenSection? flags source) ++
        shown true (treeSection? limits flags source) ++
          "Runtime error: Undefined variable 'x'\n" := by
  intro limits flags source
  let tokens := [Token.mark .printWord 1, .mark .leftParen 1, .number 1 1, .mark .rightParen 1,
    .mark .semicolon 1, .identifier "x" 2, .mark .semicolon 2, .endOfInput 2]
  let p : Program := ⟨[.printStmt 1 (.literal 1 1), .exprStmt 2 (.reference 2 "x")]⟩
  have hscan : Token.scan source = .ok tokens := by decide +kernel
  have hparse : Program.ofTokens limits.nesting tokens = .ok p := rfl
  have hinterpret : p.interpret limits.nesting limits.rounds .fresh =
      .error (.undefinedVariable "x") ⟨.empty, #[1]⟩ := rfl
  have hfresh : interpretFresh limits p =
      ⟨"1\n", "Runtime error: Undefined variable 'x'\n", .ok 1⟩ := by
    rw [interpretFresh, hinterpret]
    rfl
  have hplain : run limits {} source = interpretFresh limits p := by
    rw [run_of_ok hscan hparse]
    exact Transcript.after_empty _
  have hending : (run limits flags source).ending = .ok 1 := by
    have hdump : p.node.dump? limits.nesting dumpLayout =
        some (p.node.toJson.render dumpLayout) := if_pos rfl
    rw [run_of_ok hscan hparse, showAndInterpret, if_pos rfl, hdump, hfresh]
    rfl
  obtain ⟨-, -, -, hout, herr⟩ := run_streams hending
  rw [hplain, hfresh] at hout herr
  exact ⟨hending, hout, herr⟩

end RillLang
