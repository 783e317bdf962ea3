import RillLang.Proofs.Machine.Ample
import RillLang.Proofs.Machine.Rounds
import RillLang.Proofs.Tree.Ample

/-!
# The nesting limit only cuts off

Texts are parsed and run under different nesting limits, so what comes out may depend on the
limit only where it says so.  Two limits are compared for the parser and for a run.

* `Program.ofTokens_of_le` — what is not too deep is parsed the same under a larger limit.
* `Program.Finishes.of_le` — an ending that is not a cut is the ending under a larger limit.
* `Program.Finishes.log_prefix` — what was printed up to a cut is printed first under a larger
  limit.  The two runs may need different numbers of rounds for their loops; they are compared
  with as many as both of them need.
-/

namespace RillLang

open Ending

namespace Machine

/-- The machine that an ending leaves. -/
def left : EStateM.Result Fault Machine Unit → Machine
  | .ok _ m => m
  | .error _ m => m

theorem textOf_append (printed later : List Int) :
    textOf (printed ++ later) = textOf printed ++ textOf later :=
  String.toList_inj.1 (by simp [textOf])

/-- A machine that has printed more has added lines to the output. -/
theorem exists_output_eq {m m' : Machine} (h : m.log <+: m'.log) :
    ∃ later, m'.output = m.output ++ textOf later := by
  obtain ⟨later, hlater⟩ := h
  refine ⟨later, ?_⟩
  calc m'.output = textOf (m.log ++ later) := congrArg textOf hlater.symm
    _ = m.output ++ textOf later := textOf_append m.log later

end Machine

namespace Program

/-- A list that is not too deep under one limit is parsed the same under any larger one,
whether it is closed or not. -/
theorem ofTokens_of_le {limit limit' : Nat} (hle : limit ≤ limit') {tokens : List Token}
    (hroom : ∀ found, ofTokens limit tokens ≠ .error (.tooDeep found)) :
    ofTokens limit' tokens = ofTokens limit tokens := by
  by_cases hclosed : Token.Closed tokens
  · exact ofTokens_within hle hclosed hroom
  · rw [ofTokens_of_not_closed limit hclosed, ofTokens_of_not_closed limit' hclosed]

/-- A program under a limit is the program under any larger one, cut short. -/
theorem interpret_cutShort [Closing] {limit limit' : Nat} (hle : limit ≤ limit') (p : Program)
    (rounds : Nat) :
    CutShort .nestingTooDeep Machine.log (p.interpret limit rounds)
      (p.interpret limit' rounds) := by
  obtain ⟨more, rfl⟩ := Nat.exists_eq_add_of_le hle
  exact Exec.sequence_cutShort rounds limit more p.statements

namespace Finishes

variable [Closing] {limit limit' : Nat} {p : Program} {m : Machine}
  {ending ending' : EStateM.Result Fault Machine Unit}

/-- An ending that is not a cut is the ending under any larger limit. -/
theorem of_le (hle : limit ≤ limit') (h : p.Finishes limit m ending)
    (hroom : ∀ cut, ending ≠ .error .nestingTooDeep cut) : p.Finishes limit' m ending := by
  obtain ⟨rounds, hrun, hrounds⟩ := h
  exact ⟨rounds, (interpret_cutShort hle p rounds).agrees.eq_of_ne hrun hroom, hrounds⟩

/-- What was printed up to a cut is printed first under any larger limit. -/
theorem log_prefix {cut : Machine} (hle : limit ≤ limit')
    (h : p.Finishes limit m (.error .nestingTooDeep cut)) (h' : p.Finishes limit' m ending') :
    cut.log <+: (Machine.left ending').log := by
  obtain ⟨enough, hcut⟩ := h.eventually
  obtain ⟨enough', hends⟩ := h'.eventually
  have hlog := (interpret_cutShort hle p (enough + enough')).leaves
    (hcut (enough + enough') (Nat.le_add_right ..))
  unfold Leaves Ends at hlog
  rw [hends (enough + enough') (Nat.le_add_left ..)] at hlog
  cases ending' with
  | ok u m' => exact hlog
  | error fault m' => exact hlog

end Finishes

end Program

/-- **The nesting limit cuts results off and changes none.**  Take a limit and one that is not
smaller.

A token list that is not too deep under the first is parsed the same under the second: to the
same program or with the same error.  Whatever the program and the machine it is run on, an
ending under the first limit that is not a cut is the one ending under the second: with the same
prints, the same scopes, and the same success or fault.  And what was printed up to a cut is, in
whole lines, the beginning of what is printed under the second limit, if that run ends.

There is always a result to be cut off.  No token list is too deep under a limit of twelve for
each token and thirteen more, and every program has a limit from which on it is never cut short,
whatever it is run on. -/
theorem nesting_limit_only_cuts_off [Closing] {limit limit' : Nat} (hle : limit ≤ limit') :
    (∀ tokens, (∀ found, Program.ofTokens limit tokens ≠ .error (.tooDeep found)) →
      Program.ofTokens limit' tokens = Program.ofTokens limit tokens) ∧
    (∀ (p : Program) m ending, p.Finishes limit m ending →
      (∀ cut, ending ≠ .error .nestingTooDeep cut) →
        ∀ ending', p.Finishes limit' m ending' ↔ ending' = ending) ∧
    (∀ (p : Program) m cut ending', p.Finishes limit m (.error .nestingTooDeep cut) →
      p.Finishes limit' m ending' →
        ∃ later, (Machine.left ending').output = cut.output ++ Machine.textOf later) ∧
    (∀ tokens most, 12 * (Token.beforeEnd tokens).length + 13 ≤ most →
      ∀ found, Program.ofTokens most tokens ≠ .error (.tooDeep found)) ∧
    ∀ p : Program, ∃ enough, ∀ most, enough ≤ most → ∀ m cut,
      ¬ p.Finishes most m (.error .nestingTooDeep cut) := by
  refine ⟨fun tokens hroom => Program.ofTokens_of_le hle hroom,
    fun p m ending h hroom ending' => ?_,
    fun p m cut ending' h h' => Machine.exists_output_eq (h.log_prefix hle h'),
    fun tokens most hmost => Program.ofTokens_ne_tooDeep hmost, fun p => ?_⟩
  · have hends : p.Finishes limit' m ending := h.of_le hle hroom
    constructor
    · intro h'
      exact h'.unique hends
    · rintro rfl
      exact hends
  · obtain ⟨enough, hample⟩ := p.exists_ample
    refine ⟨enough, fun most hmost m cut ⟨rounds, hcut, _⟩ => ?_⟩
    exact hample most hmost rounds m cut hcut

/-- Under a limit of fifteen: a declaration whose value is missing after two signs; a countdown
that stops at a name that is not bound; and the same with a negation of twelve signs in between,
which is too deep for the limit, but not for one of forty. -/
theorem nesting_limit_cuts_off_countdown :
    let tokens := [Token.mark .letWord 1, .identifier "x" 1, .mark .equal 1, .mark .minus 1,
      .mark .minus 1, .mark .semicolon 1, .endOfInput 1]
    let missing : Except ParseError Program :=
      .error (.unexpected (.phrase "expression") (.mark .semicolon 1) 1)
    let countdown : List Node := [.letStmt 1 "n" (.literal 1 2),
      .whileStmt 2 (.reference 2 "n") [.printStmt 2 (.reference 2 "n"), .exprStmt 2 (.assign 2 "n"
        (.binary 2 (some (.binary .subtract)) (.reference 2 "n") (.literal 2 1)))]]
    let deep : Node := .block 3 [.printStmt 3
      ((List.replicate 12 (some .negate)).foldr (.unary 3) (.reference 3 "n"))]
    let unbound : Node := .exprStmt 4 (.reference 4 "x")
    let cut : Machine := ⟨⟨[("n", 0)], []⟩, #[2, 1]⟩
    let after : Machine := ⟨⟨[("n", 0)], []⟩, #[2, 1, 0]⟩
    15 ≤ 40 ∧ Program.ofTokens 40 tokens = missing ∧
      (∀ found, Program.ofTokens 85 tokens ≠ .error (.tooDeep found)) ∧
      (∀ ending, Program.Finishes 40 ⟨countdown ++ [unbound]⟩ .fresh ending ↔
        ending = .error (.undefinedVariable "x") cut) ∧
      Program.Finishes 15 ⟨countdown ++ [deep, unbound]⟩ .fresh (.error .nestingTooDeep cut) ∧
      Program.Finishes 40 ⟨countdown ++ [deep, unbound]⟩ .fresh
        (.error (.undefinedVariable "x") after) ∧
      ∃ later, after.output = cut.output ++ Machine.textOf later := by
  intro tokens missing countdown deep unbound cut after
  have hle : 15 ≤ 40 := by decide
  obtain ⟨hparse, hends, hprefix, hample, -⟩ := nesting_limit_only_cuts_off hle
  have hmissing : Program.ofTokens 15 tokens = missing := rfl
  have hroom : ∀ found, Program.ofTokens 15 tokens ≠ .error (.tooDeep found) := by
    intro found
    rw [hmissing]
    simp [missing]
  have hshallow : Program.Finishes 15 ⟨countdown ++ [unbound]⟩ .fresh
      (.error (.undefinedVariable "x") cut) := ⟨3, rfl, by simp⟩
  have hcut : Program.Finishes 15 ⟨countdown ++ [deep, unbound]⟩ .fresh
      (.error .nestingTooDeep cut) := ⟨3, rfl, by simp⟩
  have hafter : Program.Finishes 40 ⟨countdown ++ [deep, unbound]⟩ .fresh
      (.error (.undefinedVariable "x") after) := ⟨3, rfl, by simp⟩
  exact ⟨hle, (hparse tokens hroom).trans hmissing, hample tokens 85 (by decide),
    hends _ _ _ hshallow (by simp), hcut, hafter, hprefix _ _ _ _ hcut hafter⟩

end RillLang
