import RillLang.Proofs.Machine.Room

/-!
# More rounds change nothing that was run

The rounds that loops are given only decide whether a run is cut short.  A run that is not in want
of rounds ends the same way with any larger number of rounds (`Exec.execute_agrees_rounds`).

So it makes sense to speak of the ending of a run without saying how many rounds it is given
(`Exec.Finishes`, `Program.Finishes`): there is one ending at most (`Exec.Settles.unique`).  A run
without such an ending goes on forever.
-/

namespace RillLang

open Ending

namespace Exec

theorem execute_and_block_cutShort_rounds [Closing] (rounds more room : Nat) :
    (∀ s, CutShort .outOfRounds Machine.log (execute rounds room s)
        (execute (rounds + more) room s)) ∧
      ∀ ss, CutShort .outOfRounds Machine.log (block rounds room ss)
        (block (rounds + more) room ss) := by
  induction room with
  | zero =>
      exact ⟨fun s => cutShort_refl (appends_throw _), fun ss => cutShort_refl (appends_throw _)⟩
  | succ room ih =>
      obtain ⟨hexecute, hblock⟩ := ih
      refine ⟨execute_cutShort_of more (fun _ => agreesUnless_refl _) hblock
        fun _ _ h => cutShort_throw (whileLoop_appends h more), fun ss => ?_⟩
      exact inScope_cutShort (sequence_cutShort_of hexecute ss) (Nat.le_refl room)
        (.inr ⟨rfl, rfl⟩) (sequence_pop? (execute_and_block_names rounds room).1 ss)

/-- With more rounds a statement goes on where it was in want of rounds, and otherwise ends the
same. -/
theorem execute_agrees_rounds [Closing] (rounds more room : Nat) (s : Node) :
    AgreesUnless .outOfRounds (execute rounds room s) (execute (rounds + more) room s) :=
  ((execute_and_block_cutShort_rounds rounds more room).1 s).agrees

/-- Given rounds enough, the computation ends so. -/
def Settles (run : Nat → Exec Unit) (m : Machine)
    (ending : EStateM.Result Fault Machine Unit) : Prop :=
  ∃ rounds, run rounds m = ending ∧ ∀ m', ending ≠ .error .outOfRounds m'

namespace Settles

variable {run : Nat → Exec Unit} {m : Machine} {ending ending' : EStateM.Result Fault Machine Unit}

/-- A computation that ends given some rounds ends so given any more. -/
theorem eventually (hrun : ∀ rounds more, AgreesUnless .outOfRounds (run rounds)
    (run (rounds + more))) (h : Settles run m ending) :
    ∃ enough, ∀ rounds, enough ≤ rounds → run rounds m = ending := by
  obtain ⟨enough, hending, hrounds⟩ := h
  refine ⟨enough, fun rounds hle => ?_⟩
  obtain ⟨more, rfl⟩ := Nat.exists_eq_add_of_le hle
  exact (hrun enough more).eq_of_ne hending hrounds

/-- A computation has one ending at most. -/
theorem unique (hrun : ∀ rounds more, AgreesUnless .outOfRounds (run rounds)
    (run (rounds + more))) (h : Settles run m ending) (h' : Settles run m ending') :
    ending = ending' := by
  obtain ⟨enough, hends⟩ := h.eventually hrun
  obtain ⟨enough', hends'⟩ := h'.eventually hrun
  have hleft := hends (enough + enough') (Nat.le_add_right ..)
  have hright := hends' (enough + enough') (Nat.le_add_left ..)
  exact hleft.symm.trans hright

end Settles

/-- Given rounds enough, the statement ends so. -/
def Finishes [Closing] (room : Nat) (s : Node) (m : Machine)
    (ending : EStateM.Result Fault Machine Unit) : Prop :=
  ∃ rounds, execute rounds room s m = ending ∧ ∀ m', ending ≠ .error .outOfRounds m'

/-- A statement has one ending at most. -/
theorem Finishes.unique [Closing] {room : Nat} {s : Node} {m : Machine}
    {ending ending' : EStateM.Result Fault Machine Unit} (h : Finishes room s m ending)
    (h' : Finishes room s m ending') : ending = ending' :=
  Settles.unique (fun rounds more => execute_agrees_rounds rounds more room s) h h'

end Exec

namespace Program

open Exec

variable [Closing]

/-- Given rounds enough, the program ends so. -/
def Finishes (limit : Nat) (p : Program) (m : Machine)
    (ending : EStateM.Result Fault Machine Unit) : Prop :=
  ∃ rounds, p.interpret limit rounds m = ending ∧ ∀ m', ending ≠ .error .outOfRounds m'

theorem interpret_agrees_rounds (limit : Nat) (p : Program) (rounds more : Nat) :
    AgreesUnless .outOfRounds (p.interpret limit rounds) (p.interpret limit (rounds + more)) :=
  (sequence_cutShort_of (execute_and_block_cutShort_rounds rounds more limit).1 p.statements).agrees

/-- A program that ends given some rounds ends so given any more. -/
theorem Finishes.eventually {limit : Nat} {p : Program} {m : Machine}
    {ending : EStateM.Result Fault Machine Unit} (h : p.Finishes limit m ending) :
    ∃ enough, ∀ rounds, enough ≤ rounds → p.interpret limit rounds m = ending :=
  Settles.eventually (p.interpret_agrees_rounds limit) h

/-- A program has one ending at most. -/
theorem Finishes.unique {limit : Nat} {p : Program} {m : Machine}
    {ending ending' : EStateM.Result Fault Machine Unit} (h : p.Finishes limit m ending)
    (h' : p.Finishes limit m ending') : ending = ending' :=
  Settles.unique (p.interpret_agrees_rounds limit) h h'

end Program

end RillLang
