/-!
# Scopes and environments

A `Scope` binds names to values, in the order in which they were first bound.  An
`Env` is a stack of scopes that is never empty: the global scope is at the bottom
and cannot be popped.  A name means its binding in the innermost scope that binds
it.
-/

namespace RillLang

/-- Names and their values, in the order of first binding. -/
abbrev Scope : Type := List (String × Int)

namespace Scope

/-- The value of a name, if the scope binds it. -/
def get? : Scope → String → Option Int
  | [], _ => none
  | (y, w) :: rest, x => if y = x then some w else get? rest x

/-- Binds a name.  A name that is bound keeps its place. -/
def set : Scope → String → Int → Scope
  | [], x, v => [(x, v)]
  | (y, w) :: rest, x, v => if y = x then (y, v) :: rest else (y, w) :: set rest x v

/-- The names a scope binds. -/
def names (s : Scope) : List String := s.map Prod.fst

@[simp] theorem get?_nil (x : String) : get? [] x = none := rfl

@[simp] theorem get?_set_self (s : Scope) (x : String) (v : Int) :
    (s.set x v).get? x = some v := by
  induction s with
  | nil => simp [set, get?]
  | cons b rest ih =>
      obtain ⟨y, w⟩ := b
      by_cases h : y = x
      · simp [set, get?, h]
      · simp [set, get?, h, ih]

theorem get?_set_of_ne (s : Scope) {x y : String} (v : Int) (h : y ≠ x) :
    (s.set x v).get? y = s.get? y := by
  induction s with
  | nil => simp [set, get?, h.symm]
  | cons b rest ih =>
      obtain ⟨z, w⟩ := b
      by_cases hz : z = x
      · subst hz
        simp [set, get?, h.symm]
      · by_cases hy : z = y
        · subst hy
          simp [set, get?, hz]
        · simp [set, get?, hz, hy, ih]

/-- A name is bound when the scope lists it. -/
theorem isSome_get? (s : Scope) (x : String) : (s.get? x).isSome = true ↔ x ∈ s.names := by
  induction s with
  | nil => simp [get?, names]
  | cons b rest ih =>
      obtain ⟨y, w⟩ := b
      by_cases h : y = x
      · simp [get?, names, h]
      · simpa [get?, names, h, Ne.symm h] using ih

end Scope

/-- A stack of scopes. -/
structure Env where
  /-- The innermost scope. -/
  inner : Scope
  /-- The scopes around it, from the inside out. -/
  outer : List Scope
  deriving DecidableEq, Repr

namespace Env

/-- The environment with an empty global scope only. -/
def empty : Env := ⟨[], []⟩

/-- Every scope, from the inside out. -/
def scopes (env : Env) : List Scope := env.inner :: env.outer

/-- The number of scopes. -/
def depth (env : Env) : Nat := env.scopes.length

/-- Opens a new innermost scope. -/
def push (env : Env) : Env := ⟨[], env.scopes⟩

/-- Closes the innermost scope.  The global scope cannot be closed. -/
def pop? (env : Env) : Option Env :=
  match env.outer with
  | [] => none
  | scope :: rest => some ⟨scope, rest⟩

/-- Binds a name in the innermost scope. -/
def define (env : Env) (x : String) (v : Int) : Env := ⟨env.inner.set x v, env.outer⟩

/-- The value of a name in the first of some scopes that binds it. -/
def getIn? : List Scope → String → Option Int
  | [], _ => none
  | scope :: rest, x =>
    match scope.get? x with
    | some v => some v
    | none => getIn? rest x

/-- Gives a name a new value in the first of some scopes that binds it. -/
def assignIn? : List Scope → String → Int → Option (List Scope)
  | [], _, _ => none
  | scope :: rest, x, v =>
    match scope.get? x with
    | some _ => some (scope.set x v :: rest)
    | none => (assignIn? rest x v).map (scope :: ·)

/-- The value of a name. -/
def get? (env : Env) (x : String) : Option Int := getIn? env.scopes x

/-- Gives a bound name a new value where it is bound. -/
def assign? (env : Env) (x : String) (v : Int) : Option Env :=
  match assignIn? env.scopes x v with
  | some (inner :: outer) => some ⟨inner, outer⟩
  | _ => none

/-! ## What the operations do to the meaning of names -/

@[simp] theorem pop?_push (env : Env) : env.push.pop? = some env := rfl

@[simp] theorem depth_push (env : Env) : env.push.depth = env.depth + 1 := by
  simp [depth, scopes, push]

@[simp] theorem get?_push (env : Env) (x : String) : env.push.get? x = env.get? x := by
  simp [get?, scopes, push, getIn?]

@[simp] theorem get?_define_self (env : Env) (x : String) (v : Int) :
    (env.define x v).get? x = some v := by
  simp [get?, scopes, define, getIn?]

theorem get?_define_of_ne (env : Env) {x y : String} (v : Int) (h : y ≠ x) :
    (env.define x v).get? y = env.get? y := by
  simp [get?, scopes, define, getIn?, Scope.get?_set_of_ne _ v h]

/-- Assigning fails exactly where reading does. -/
theorem isSome_assignIn? (scopes : List Scope) (x : String) (v : Int) :
    (assignIn? scopes x v).isSome = (getIn? scopes x).isSome := by
  induction scopes with
  | nil => rfl
  | cons scope rest ih =>
      rw [assignIn?, getIn?]
      cases scope.get? x with
      | some w => rfl
      | none => simpa using ih

end Env

end RillLang
