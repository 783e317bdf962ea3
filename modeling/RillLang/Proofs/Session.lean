import RillLang.Proofs.Machine.Printed
import RillLang.Session

/-!
# Sessions compute with words

Whatever texts a session runs, and however its runs end, every variable is a word after
every step, and all that is printed is the numerals of words, one on each line
(`session_words`).  The values that steps write directly have to be words, and nothing
else is asked of them.

A step keeps an environment of words (`Step.perform_words`), by recursion on the step,
since a scope holds steps again; a session is then followed along its steps.
-/

namespace RillLang

mutual

/-- The values a step writes directly are words. -/
def Step.GivesWords : Step → Prop
  | .run _ | .push | .pop | .get _ => True
  | .define _ v => Word.InRange v
  | .assign _ v => Word.InRange v
  | .scope steps => Step.AllGiveWords steps

/-- The values that steps write directly are words. -/
def Step.AllGiveWords : List Step → Prop
  | [] => True
  | step :: steps => step.GivesWords ∧ Step.AllGiveWords steps

end

/-- After the step every variable is a word, what it printed is the numerals of words, and
the same holds of every step inside it. -/
inductive Report.Words : Report → Prop
  | mk {report : Report} : report.env.AllWords →
      Printout (Machine.textOf report.printed).toList →
      (∀ reports, report.inner = some reports → ∀ r ∈ reports, Words r) → Words report

namespace Report

theorem Words.env {report : Report} (h : report.Words) : report.env.AllWords := by
  cases h with
  | mk henv _ _ => exact henv

theorem Words.printout {report : Report} (h : report.Words) :
    Printout (Machine.textOf report.printed).toList := by
  cases h with
  | mk _ hprintout _ => exact hprintout

/-! ## What single steps report -/

theorem words_done {env : Env} (h : env.AllWords) : (done env).Words :=
  .mk h .nil (by rintro reports ⟨⟩)

theorem words_failed {env : Env} (h : env.AllWords) (failure : Failure) :
    (failed env failure).Words :=
  .mk h .nil (by rintro reports ⟨⟩)

theorem words_ofOption {env : Env} (h : env.AllWords) (fault : Fault) {result : Option Env}
    (hresult : ∀ env', result = some env' → env'.AllWords) : (ofOption env fault result).Words := by
  cases result with
  | none => exact words_failed h _
  | some env' => exact words_done (hresult env' rfl)

/-- What reports printed one after the other. -/
theorem printout_flatMap {reports : List Report} (h : ∀ r ∈ reports, r.Words) :
    Printout (Machine.textOf (reports.flatMap Report.printed)).toList := by
  induction reports with
  | nil => exact .nil
  | cons r rest ih =>
      obtain ⟨hr, hrest⟩ := List.forall_mem_cons.1 h
      have htext : (Machine.textOf ((r :: rest).flatMap Report.printed)).toList =
          (Machine.textOf r.printed).toList ++
            (Machine.textOf (rest.flatMap Report.printed)).toList := by
        simp [Machine.textOf]
      rw [htext]
      exact hr.printout.append (ih hrest)

theorem allWords_envAfter {env : Env} (h : env.AllWords) {reports : List Report}
    (hreports : ∀ r ∈ reports, r.Words) : (envAfter env reports).AllWords := by
  unfold envAfter
  cases hlast : reports.getLast? with
  | none => exact h
  | some r => exact (hreports r (List.mem_of_getLast? hlast)).env

/-- A scope reports what its steps printed, on the environment they left. -/
theorem words_ofScope {env : Env} (h : env.AllWords) {reports : List Report}
    (hreports : ∀ r ∈ reports, r.Words) : (ofScope env reports).Words := by
  have hafter := allWords_envAfter h.push hreports
  have hprintout := printout_flatMap hreports
  unfold ofScope
  cases hpop : (envAfter env.push reports).pop? with
  | none =>
      simp only [hpop]
      exact .mk hafter hprintout (by rintro inner ⟨⟩; exact hreports)
  | some env' =>
      simp only [hpop]
      exact .mk (hafter.pop? hpop) hprintout (by rintro inner ⟨⟩; exact hreports)

end Report

/-- A text that is run, whether it scans and parses or not and however it ends. -/
theorem runOn_words [Closing] (limits : Limits) (source : String) {env : Env} (h : env.AllWords) :
    (runOn limits source env).Words := by
  unfold runOn
  cases hscan : Token.scan source with
  | error e => exact Report.words_failed h _
  | ok tokens =>
      dsimp only
      cases hparse : Program.ofTokens limits.nesting tokens with
      | error e => exact Report.words_failed h _
      | ok p =>
          dsimp only
          have hlist := Program.listFrom_of_scan hscan hparse
          have hwords := Exec.interpret_words hlist h.machine limits.nesting limits.rounds
          cases hrun : p.interpret limits.nesting limits.rounds ⟨env, #[]⟩ with
          | ok u m =>
              have hm := hwords.of_ok hrun
              exact .mk hm.1 (printout_textOf hm.2) (by rintro reports ⟨⟩)
          | error fault m =>
              obtain ⟨-, hm⟩ := hwords.of_error hrun
              exact .mk hm.1 (printout_textOf hm.2) (by rintro reports ⟨⟩)

/-! ## Steps and sessions -/

mutual

/-- A step that writes words keeps to words. -/
theorem Step.perform_words [Closing] (limits : Limits) : ∀ (step : Step) {env : Env},
    step.GivesWords → env.AllWords → (step.perform limits env).Words
  | .run source, env, _, henv => runOn_words limits source henv
  | .push, env, _, henv => Report.words_done henv.push
  | .pop, env, _, henv => Report.words_ofOption henv _ fun _ => henv.pop?
  | .define x v, env, hv, henv => Report.words_done (henv.define x hv)
  | .assign x v, env, hv, henv => Report.words_ofOption henv _ fun _ => henv.assign? hv
  | .get x, env, _, henv => by
      rw [perform]
      split
      · exact .mk henv .nil (by rintro reports ⟨⟩)
      · exact Report.words_failed henv _
  | .scope steps, env, hsteps, henv =>
      Report.words_ofScope henv (Step.performUntilFailure_words limits steps hsteps henv.push)

theorem Step.performUntilFailure_words [Closing] (limits : Limits) :
    ∀ (steps : List Step) {env : Env}, Step.AllGiveWords steps → env.AllWords →
      ∀ r ∈ Step.performUntilFailure limits steps env, r.Words
  | [], env, _, _ => List.forall_mem_nil _
  | step :: steps, env, ⟨hstep, hsteps⟩, henv => by
      have hreport := Step.perform_words limits step hstep henv
      rw [performUntilFailure]
      split
      · exact List.forall_mem_singleton.2 hreport
      · exact List.forall_mem_cons.2
          ⟨hreport, Step.performUntilFailure_words limits steps hsteps hreport.env⟩

end

/-- Steps that write words keep to words, whether they fail or not. -/
theorem Step.performAll_words [Closing] (limits : Limits) {steps : List Step}
    (hsteps : Step.AllGiveWords steps) {env : Env} (henv : env.AllWords) :
    ∀ r ∈ Step.performAll limits steps env, r.Words := by
  induction steps generalizing env with
  | nil => exact List.forall_mem_nil _
  | cons step steps ih =>
      have hreport := Step.perform_words limits step hsteps.1 henv
      exact List.forall_mem_cons.2 ⟨hreport, ih hsteps.2 hreport.env⟩

/-- **Every value stays a word.**  In a session that starts with an empty global scope and
writes only words directly, after every step every variable of every scope is a word, and
each step, and the session as a whole, prints nothing but the decimal numerals of words,
each with a line feed after it. -/
theorem session_words [Closing] (limits : Limits) {steps : List Step}
    (h : Step.AllGiveWords steps) :
    (∀ report ∈ session limits steps, report.Words) ∧
      Printout (Machine.textOf ((session limits steps).flatMap Report.printed)).toList := by
  have hreports := Step.performAll_words limits h Env.allWords_empty
  exact ⟨hreports, Report.printout_flatMap hreports⟩

/-- A session that declares the greatest word, steps beyond it in a text, closes a scope
that cannot be closed and runs a text that does not scan. -/
theorem session_words_beyond_greatest :
    let steps : List Step := [.define "x" Word.greatest, .run "x = x + 1; print(x);", .pop,
      .scope [.define "x" 7, .run "x = x / 0;"], .run "print(x) #"]
    Step.AllGiveWords steps ∧
      (session ⟨20, 2⟩ steps).map Report.printed = [[], [Word.least], [], [], []] ∧
      Printout "-9223372036854775808\n".toList ∧
      ∀ report ∈ session ⟨20, 2⟩ steps, report.env.AllWords := by
  intro steps
  have hsteps : Step.AllGiveWords steps := by
    simp [steps, Step.AllGiveWords, Step.GivesWords]
    decide
  have hprinted : (session ⟨20, 2⟩ steps).map Report.printed = [[], [Word.least], [], [], []] := by
    decide +kernel
  obtain ⟨hreports, hprintout⟩ := session_words ⟨20, 2⟩ hsteps
  refine ⟨hsteps, hprinted, ?_, fun report hreport => (hreports report hreport).env⟩
  rw [List.flatMap_def, hprinted] at hprintout
  exact hprintout

end RillLang
