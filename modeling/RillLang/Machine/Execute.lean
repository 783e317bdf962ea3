import RillLang.Machine.Evaluate

/-!
# Executing statements

A `Machine` is an environment together with the integers printed so far.
Statements change both.  A block runs in a scope of its own, which is closed again
however the block ends; each round of a loop runs its body in a fresh scope.

Nesting is bounded by `room`, one unit for each nested statement and each nested
block.  To close a scope after a fault may itself take room (`Closing`), and where that
is missing the scope stays open.  A loop is given a number of `rounds`; a run in which
some loop would need more ends with the fault `outOfRounds`, and every other ending is the
same for any larger number of rounds.
-/

namespace RillLang

/-- An environment and the integers printed so far. -/
structure Machine where
  /-- The scopes. -/
  env : Env
  /-- The printed integers, in order. -/
  printed : Array Int

namespace Machine

/-- A machine with an empty global scope that has printed nothing. -/
def fresh : Machine := ⟨.empty, #[]⟩

/-- The line an integer is printed as. -/
def lineOf (v : Int) : String := toString v ++ "\n"

/-- The text of printed integers: each on a line of its own. -/
def textOf (printed : List Int) : String := String.join (printed.map lineOf)

/-- The text a machine has printed. -/
def output (m : Machine) : String := textOf m.printed.toList

end Machine

/-- The room that closing a scope takes after a fault.  It depends on the process that runs
the program: one that has closed scopes before needs none, and a fresh one needs some. -/
class Closing where
  /-- The units of room. -/
  room : Nat

/-- A process that has not closed any scope yet. -/
abbrev Closing.fresh : Closing := ⟨1⟩

/-- Where nothing else is said, the process has closed scopes before. -/
instance : Closing := ⟨0⟩

/-- A computation on a machine. -/
abbrev Exec (α : Type) : Type := EStateM Fault Machine α

namespace Exec

/-- Evaluates an expression on the environment of the machine. -/
def eval {α : Type} (e : Eval α) : Exec α := fun m =>
  match e m.env with
  | .ok a env => .ok a ⟨env, m.printed⟩
  | .error fault env => .error fault ⟨env, m.printed⟩

/-- Binds a name in the innermost scope. -/
def define (x : String) (v : Int) : Exec Unit := fun m =>
  .ok () ⟨m.env.define x v, m.printed⟩

/-- Prints an integer. -/
def print (v : Int) : Exec Unit := fun m => .ok () ⟨m.env, m.printed.push v⟩

/-- The scope of a body that stopped in this room, for this reason, is not closed.  To be out
of rounds is no reason: such a run has not ended. -/
def StaysOpen [Closing] (room : Nat) (fault : Fault) : Prop :=
  room < Closing.room ∧ fault ≠ .outOfRounds

instance [Closing] (room : Nat) (fault : Fault) : Decidable (StaysOpen room fault) :=
  inferInstanceAs (Decidable (room < Closing.room ∧ fault ≠ .outOfRounds))

/-- Runs a body in a scope of its own, which is closed however the body ends.  If
it cannot be closed, that is the fault; and if there is no room to close it after a fault,
the nesting limit is, and the scope stays open. -/
def inScope [Closing] (room : Nat) (body : Exec Unit) : Exec Unit := fun m =>
  match body ⟨m.env.push, m.printed⟩ with
  | .ok _ m =>
    match m.env.pop? with
    | some env => .ok () ⟨env, m.printed⟩
    | none => .error .globalScope m
  | .error fault m =>
    if StaysOpen room fault then .error .nestingTooDeep m
    else
      match m.env.pop? with
      | some env => .error fault ⟨env, m.printed⟩
      | none => .error .globalScope m

/-- Runs a body as long as a condition is not zero, for at most `rounds` rounds. -/
def whileLoop (condition : Eval Int) (body : Exec Unit) : Nat → Exec Unit
  | 0 => throw .outOfRounds
  | rounds + 1 => do
    let v ← eval condition
    if v ≠ 0 then
      body
      whileLoop condition body rounds
    else return ()

/-- Runs statements in order. -/
def sequence (statement : Node → Exec Unit) : List Node → Exec Unit
  | [] => return ()
  | s :: rest => do
    statement s
    sequence statement rest

mutual

/-- Executes a statement. -/
def execute [Closing] (rounds : Nat) : Nat → Node → Exec Unit
  | 0, _ => throw .nestingTooDeep
  | room + 1, s =>
    match s with
    | .letStmt _ x e => do
      let v ← eval (Eval.evaluate room e)
      define x v
    | .printStmt _ e => do
      let v ← eval (Eval.evaluate room e)
      print v
    | .ifStmt _ c thenBranch elseBranch => do
      let v ← eval (Eval.evaluate room c)
      if v ≠ 0 then block rounds room thenBranch
      else
        match elseBranch with
        | some body => block rounds room body
        | none => return ()
    | .whileStmt _ c body => whileLoop (Eval.evaluate room c) (block rounds room body) rounds
    | .block _ body => block rounds room body
    | .exprStmt _ e => do
      let _ ← eval (Eval.evaluate room e)
      return ()
    | s => throw (.unknownStatement s.label)

/-- Executes the statements of a block in a scope of their own. -/
def block [Closing] (rounds : Nat) : Nat → List Node → Exec Unit
  | 0, _ => throw .nestingTooDeep
  | room + 1, statements => inScope room (sequence (execute rounds room) statements)

end

end Exec

/-- The number of rounds a loop is given when a program is run. -/
def loopRounds : Nat := 4611686018427387904

namespace Program

/-- Executes the statements of a program in the innermost scope. -/
def interpret [Closing] (limit rounds : Nat) (p : Program) : Exec Unit :=
  Exec.sequence (Exec.execute rounds limit) p.statements

end Program

end RillLang
