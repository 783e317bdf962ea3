import RillLang.Run

/-!
# Sessions

A session performs steps one after the other on one environment: running a text,
or opening, closing, reading and writing scopes directly.  Each step leaves a
report of what it printed, of the environment after it, and of what went wrong.

A `scope` step performs its inner steps in a scope of its own.  The first inner
failure ends it, and the scope is closed on every path; when it cannot be closed,
that is the failure of the step.
-/

namespace RillLang

/-- A step of a session. -/
inductive Step where
  /-- Scan, parse and interpret a text. -/
  | run (source : String)
  /-- Open a scope. -/
  | push
  /-- Close the innermost scope. -/
  | pop
  /-- Bind a name in the innermost scope. -/
  | define (name : String) (value : Int)
  /-- Give a bound name a new value. -/
  | assign (name : String) (value : Int)
  /-- Read a name. -/
  | get (name : String)
  /-- Perform steps in a scope of their own. -/
  | scope (steps : List Step)

/-- The report of a step. -/
structure Report where
  /-- The integers printed during the step. -/
  printed : List Int := []
  /-- The environment after the step. -/
  env : Env
  /-- What went wrong. -/
  failure : Option Failure := none
  /-- The value the step read. -/
  value : Option Int := none
  /-- The reports of the inner steps. -/
  inner : Option (List Report) := none

namespace Report

/-- A step that only changed the environment. -/
def done (env : Env) : Report := { env := env }

/-- A step that failed before it changed anything. -/
def failed (env : Env) (failure : Failure) : Report := { env := env, failure := some failure }

/-- The report of an operation on the environment that may fail. -/
def ofOption (env : Env) (fault : Fault) : Option Env → Report
  | some env => done env
  | none => failed env (.fault fault)

/-- The environment after some reports that began with `env`. -/
def envAfter (env : Env) (reports : List Report) : Env :=
  match reports.getLast? with
  | some report => report.env
  | none => env

/-- The failure of the last of some reports. -/
def failureOf (reports : List Report) : Option Failure := reports.getLast?.bind failure

/-- The report of a scope whose inner steps left `reports`. -/
def ofScope (env : Env) (reports : List Report) : Report :=
  let printed := reports.flatMap Report.printed
  let env := envAfter env.push reports
  match env.pop? with
  | some env =>
    { printed := printed, env := env, failure := failureOf reports, inner := some reports }
  | none =>
    { printed := printed, env := env, failure := some (.fault .globalScope),
      inner := some reports }

end Report

variable [Closing]

/-- Scans, parses and interprets a text on an environment. -/
def runOn (limits : Limits) (source : String) (env : Env) : Report :=
  match Token.scan source with
  | .error error => .failed env (.scan error)
  | .ok tokens =>
    match Program.ofTokens limits.nesting tokens with
    | .error error => .failed env (.parse error)
    | .ok program =>
      match program.interpret limits.nesting limits.rounds ⟨env, #[]⟩ with
      | .ok _ m => { printed := m.printed.toList, env := m.env }
      | .error fault m =>
        { printed := m.printed.toList, env := m.env, failure := some (.fault fault) }

mutual

/-- Performs a step. -/
def Step.perform (limits : Limits) : Step → Env → Report
  | .run source, env => runOn limits source env
  | .push, env => .done env.push
  | .pop, env => .ofOption env .globalScope env.pop?
  | .define x v, env => .done (env.define x v)
  | .assign x v, env => .ofOption env (.undefinedVariable x) (env.assign? x v)
  | .get x, env =>
    match env.get? x with
    | some v => { env := env, value := some v }
    | none => .failed env (.fault (.undefinedVariable x))
  | .scope steps, env => .ofScope env (Step.performUntilFailure limits steps env.push)

/-- Performs steps in order up to the first that fails. -/
def Step.performUntilFailure (limits : Limits) : List Step → Env → List Report
  | [], _ => []
  | step :: steps, env =>
    let report := Step.perform limits step env
    match report.failure with
    | some _ => [report]
    | none => report :: Step.performUntilFailure limits steps report.env

end

/-- Performs steps in order, whether they fail or not. -/
def Step.performAll (limits : Limits) : List Step → Env → List Report
  | [], _ => []
  | step :: steps, env =>
    let report := step.perform limits env
    report :: Step.performAll limits steps report.env

/-- The reports of a session that starts with an empty global scope. -/
def session (limits : Limits) (steps : List Step) : List Report :=
  Step.performAll limits steps .empty

/-- The bindings of a scope in the order of their names. -/
def Scope.sorted (scope : Scope) : List (String × Int) :=
  scope.mergeSort fun a b => a.1 ≤ b.1

end RillLang
