import RillLang.Env.Shadow
import RillLang.Session

/-!
# Operations on scopes

The direct operations on an environment, performed as steps of a session or on shadow
stacks.  On shadow stacks an operation gives an answer, which is the value it read, if it
reads one, or a fault, and leaves the stacks after it.
-/

namespace RillLang

/-- A direct operation on an environment. -/
inductive Operation where
  /-- Open a scope. -/
  | push
  /-- Close the innermost scope. -/
  | pop
  /-- Bind a name in the innermost scope. -/
  | define (name : String) (value : Int)
  /-- Give a bound name a new value. -/
  | assign (name : String) (value : Int)
  /-- Read a name. -/
  | get (name : String)
  deriving DecidableEq, Repr

namespace Operation

/-- The operation as a step of a session. -/
def step : Operation → Step
  | push => .push
  | pop => .pop
  | define x v => .define x v
  | assign x v => .assign x v
  | get x => .get x

end Operation

namespace Shadow

/-- Goes on with the result of an operation that may fail; one that fails changes
nothing. -/
def settle (s : Shadow) (fault : Fault) : Option Shadow → Except Fault (Option Int) × Shadow
  | some s' => (.ok none, s')
  | none => (.error fault, s)

/-- Performs an operation. -/
def perform (s : Shadow) : Operation → Except Fault (Option Int) × Shadow
  | .push => (.ok none, s.push)
  | .pop => s.settle .globalScope s.pop?
  | .define x v => (.ok none, s.define x v)
  | .assign x v => s.settle (.undefinedVariable x) (s.assign? x v)
  | .get x =>
    match s.get? x with
    | some v => (.ok (some v), s)
    | none => (.error (.undefinedVariable x), s)

/-- The stacks after operations, whether they fail or not. -/
def performAll (s : Shadow) (ops : List Operation) : Shadow :=
  ops.foldl (fun s op => (s.perform op).2) s

/-- For every name the levels of its bindings grow towards the top of its stack, and are
levels of open scopes. -/
structure Stacked (s : Shadow) : Prop where
  /-- The levels of a name, from the top down, are strictly decreasing. -/
  decreasing : ∀ x, (s.bindings x).Pairwise fun above below => below.1 < above.1
  /-- Every binding was made in a scope that is open. -/
  open_scope : ∀ x, ∀ b ∈ s.bindings x, 1 ≤ b.1 ∧ b.1 ≤ s.depth

end Shadow

/-- The report of an operation shows an answer. -/
def Report.Shows (report : Report) : Except Fault (Option Int) → Prop
  | .ok value => report.failure = none ∧ report.value = value
  | .error fault => report.failure = some (.fault fault) ∧ report.value = none

end RillLang
