import RillLang.Proofs.Machine.Rounds
import RillLang.Proofs.Machine.Transparent

/-!
# Loops unroll

A loop is the same as one round of it and then the loop again, if its condition holds
(`loop_unrolls`).

Written out, the first round and the rest of the loop stand in a block, so the rest of the rounds
run inside a scope that the loop by itself does not open.  The block declares nothing, so that
scope is not noticed.  What is left is the equation of the loop: its first round, and then a loop
with a round less (`Exec.whileLoop_turn`).  The conditional spends two units of room on its block;
the loop by itself has them for the condition and the body.
-/

namespace RillLang

open Ending

/-- One round of a loop and then the loop again, if its condition holds. -/
def Node.unrolled (line lineOfBlock lineOfLoop : Int) (c : Node) (body : List Node) : Node :=
  .ifStmt line c [.block lineOfBlock body, .whileStmt lineOfLoop c body] none

namespace Exec

variable [Closing] (line line' line'' : Int) (c : Node) (body : List Node) (rounds room : Nat)

/-- A round and the loop after it, as statements that stand one after the other. -/
theorem sequence_turn :
    sequence (execute rounds (room + 1)) [.block line body, .whileStmt line' c body] = (do
      block rounds room body
      whileLoop (Eval.evaluate room c) (block rounds room body) rounds) :=
  bind_congr fun _ => bind_pure _

/-- The equation of the loop. -/
theorem whileLoop_turn :
    whileLoop (Eval.evaluate room c) (block rounds room body) (rounds + 1) = (do
      let v ← eval (Eval.evaluate room c)
      if v ≠ 0 then
        sequence (execute rounds (room + 1)) [.block line body, .whileStmt line' c body]
      else return ()) := by
  rw [sequence_turn, whileLoop]

/-- A block that declares nothing runs as its statements do, unless the nesting limit cuts it
short. -/
theorem block_agrees {ss : List Node} (hss : ∀ s ∈ ss, s.declared = []) :
    AgreesUnless .nestingTooDeep (block rounds room ss)
      (sequence (execute rounds (room + 1)) ss) := by
  cases room with
  | zero => exact agreesUnless_throw _
  | succ room =>
      exact (inScope_agrees_sequence hss rounds room).trans (sequence_agrees rounds room 2 ss)

theorem unrolled_agrees :
    AgreesUnless .nestingTooDeep
      (execute rounds (room + 1) (.unrolled line line' line'' c body))
      (whileLoop (Eval.evaluate room c) (block rounds room body) (rounds + 1)) := by
  rw [whileLoop_turn line' line'']
  refine (agreesUnless_refl _).bind fun v => ?_
  by_cases hv : v ≠ 0
  · rw [if_pos hv, if_pos hv]
    exact block_agrees rounds room (by simp [Node.declared])
  · rw [if_neg hv, if_neg hv]
    exact agreesUnless_refl _

/-- With two units of room more for its block, and those that closing takes, the conditional is
never cut short before the loop by itself is. -/
theorem whileLoop_agrees_unrolled :
    AgreesUnless .nestingTooDeep
      (whileLoop (Eval.evaluate room c) (block rounds room body) (rounds + 1))
      (execute rounds (room + Closing.room + 3) (.unrolled line line' line'' c body)) := by
  rw [whileLoop_turn line' line'']
  have hevaluate := Eval.evaluate_agrees room (Closing.room + 2) c
  refine (eval_cutShort hevaluate).agrees.bind fun v => ?_
  by_cases hv : v ≠ 0
  · rw [if_pos hv, if_pos hv]
    have hdeclared : ∀ s ∈ [Node.block line' body, .whileStmt line'' c body], s.declared = [] := by
      simp [Node.declared]
    have hmore := sequence_agrees rounds (room + 1) Closing.room
      [.block line' body, .whileStmt line'' c body]
    rw [Nat.add_right_comm room 1] at hmore
    exact hmore.trans (sequence_agrees_inScope hdeclared rounds _ (by omega))
  · rw [if_neg hv, if_neg hv]
    exact agreesUnless_refl _

/-- A round more than the loop is given does no harm. -/
theorem loop_agrees_whileLoop :
    AgreesUnless .outOfRounds (execute rounds (room + 1) (.whileStmt line c body))
      (whileLoop (Eval.evaluate room c) (block rounds room body) (rounds + 1)) := by
  have hbody : Appends Machine.log (block rounds room body) :=
    (execute_and_block_append rounds room).2 body
  exact (whileLoop_cutShort 1 (agreesUnless_refl _) (cutShort_refl hbody)
    (cutShort_throw (whileLoop_appends hbody 1)) rounds).agrees

theorem whileLoop_agrees_loop :
    AgreesUnless .outOfRounds
      (whileLoop (Eval.evaluate room c) (block rounds room body) (rounds + 1))
      (execute (rounds + 1) (room + 1) (.whileStmt line c body)) :=
  (whileLoop_cutShort 0 (agreesUnless_refl _)
    ((execute_and_block_cutShort_rounds rounds 1 room).2 body) (cutShort_refl (appends_throw _))
    (rounds + 1)).agrees

end Exec

open Exec

/-- **Loops unroll.**  Whatever the condition and the body, and whatever the machine, a loop and
one round of it followed by the loop, if its condition holds, have the same endings short of the
nesting limit: the same prints, the same scopes, and the same success or fault.  An ending of the
loop is one of the unrolled loop given two units of room more, and those that closing a scope takes,
and also with the same room, unless the limit cuts the unrolled loop short; an ending of the
unrolled loop is one of the loop with the same room. -/
theorem loop_unrolls [Closing] (line line' line'' lineOfLoop : Int) (c : Node) (body : List Node)
    (limit : Nat) (m : Machine) {ending : EStateM.Result Fault Machine Unit}
    (hlimit : ∀ m', ending ≠ .error .nestingTooDeep m') :
    (Finishes limit (.whileStmt lineOfLoop c body) m ending →
      Finishes (limit + 2 + Closing.room) (.unrolled line line' line'' c body) m ending ∧
      (Finishes limit (.unrolled line line' line'' c body) m ending ∨
        ∃ m', Finishes limit (.unrolled line line' line'' c body) m
          (.error .nestingTooDeep m'))) ∧
    (Finishes limit (.unrolled line line' line'' c body) m ending →
      Finishes limit (.whileStmt lineOfLoop c body) m ending) := by
  refine ⟨fun ⟨rounds, hloop, hrounds⟩ => ?_, fun ⟨rounds, hunrolled, hrounds⟩ => ?_⟩
  · -- the first round is run outside the loop, which has its rounds left for the others
    have hdeeper : execute rounds (limit + 2 + Closing.room)
        (.unrolled line line' line'' c body) m = ending := by
      rw [Nat.add_right_comm limit 2]
      cases limit with
      | zero => exact absurd hloop.symm (hlimit m)
      | succ room =>
          have hturn := (loop_agrees_whileLoop lineOfLoop c body rounds room).eq_of_ne hloop hrounds
          have hunrolled := whileLoop_agrees_unrolled line line' line'' c body rounds room
          rw [Nat.add_right_comm room 1]
          exact hunrolled.eq_of_ne hturn hlimit
    refine ⟨⟨rounds, hdeeper, hrounds⟩, ?_⟩
    rw [Nat.add_assoc] at hdeeper
    rcases (execute_and_block_agree rounds limit (2 + Closing.room)).1
      (.unrolled line line' line'' c body) m with heq | ⟨m', hcut⟩
    · exact .inl ⟨rounds, heq.trans hdeeper, hrounds⟩
    · exact .inr ⟨m', rounds, hcut, by simp⟩
  · cases limit with
    | zero => exact absurd hunrolled.symm (hlimit m)
    | succ room =>
        have hturn := (unrolled_agrees line line' line'' c body rounds room).eq_of_ne hunrolled
          hlimit
        have hloop := (whileLoop_agrees_loop lineOfLoop c body rounds room).eq_of_ne hturn hrounds
        exact ⟨rounds + 1, hloop, hrounds⟩

/-- A loop whose condition counts down and divides by what is left: it prints in its first rounds,
and stops at a division by zero in a round that it does not begin. -/
theorem loop_unrolls_division :
    let c : Node := .binary 1 (some (.binary .divide)) (.literal 1 10)
      (.assign 1 "n" (.binary 1 (some (.binary .subtract)) (.reference 1 "n") (.literal 1 1)))
    let body : List Node := [.letStmt 2 "k" (.reference 2 "n"), .printStmt 3 (.reference 3 "k")]
    let m : Machine := ⟨⟨[("n", 3)], []⟩, #[]⟩
    let ending : EStateM.Result Fault Machine Unit :=
      .error .divisionByZero ⟨⟨[("n", 0)], []⟩, #[2, 1]⟩
    (∀ m', ending ≠ .error .nestingTooDeep m') ∧ Finishes 8 (.whileStmt 1 c body) m ending ∧
      Finishes 10 (.unrolled 1 2 3 c body) m ending := by
  intro c body m ending
  have hlimit : ∀ m', ending ≠ .error .nestingTooDeep m' := by simp [ending]
  have hloop : Finishes 8 (.whileStmt 1 c body) m ending := ⟨3, rfl, by simp [ending]⟩
  exact ⟨hlimit, hloop, ((loop_unrolls 1 2 3 1 c body 8 m hlimit).1 hloop).1⟩

end RillLang
