import RillLang.Proofs.Machine.Bisimulation

/-!
# A run sees values, not scopes

Two environments may have different depths and keep a variable in different scopes, and
still give every name the same value.  No program can tell them apart
(`interpret_congr_lookup`).

A declaration may overwrite a variable on one side and shadow it on the other, and an
assignment may go to scopes of different depths.  Either way the name has the new value on
both sides, and that is all that is asked of environments at the level where the run
starts.  The scopes that the run itself opens are the same on both sides, and they go
away the same way: `Env.SharedView` is the relation that keeps them apart from the rest.
-/

namespace RillLang

open Ending

/-! ## Renaming nothing -/

theorem Fault.rename_id (fault : Fault) : fault.rename id = fault := by
  cases fault <;> rfl

namespace Node

mutual

theorem rename_id (n : Node) : n.rename id = n := by
  cases n with
  | program ss => rw [rename, renameList_id ss]
  | bare family line => rfl
  | literal line v => rfl
  | reference line x => rfl
  | assign line x e => rw [rename, rename_id e, id]
  | unary line op e => rw [rename, rename_id e]
  | binary line op l r => rw [rename, rename_id l, rename_id r]
  | letStmt line x e => rw [rename, rename_id e, id]
  | printStmt line e => rw [rename, rename_id e]
  | exprStmt line e => rw [rename, rename_id e]
  | ifStmt line c t o => rw [rename, rename_id c, renameList_id t, renameOption_id o]
  | whileStmt line c b => rw [rename, rename_id c, renameList_id b]
  | block line ss => rw [rename, renameList_id ss]

theorem renameList_id (ns : List Node) : renameList id ns = ns := by
  cases ns with
  | nil => rfl
  | cons n ns => rw [renameList, rename_id n, renameList_id ns]

theorem renameOption_id (ns : Option (List Node)) : renameOption id ns = ns := by
  cases ns with
  | none => rfl
  | some ns => rw [renameOption, renameList_id ns]

end

end Node

theorem Program.rename_id (p : Program) : p.rename id = p := by
  rw [Program.rename, Node.renameList_id]

/-! ## Values after an operation -/

namespace Env

theorem get?_define (env : Env) (x : String) (v : Int) (y : String) :
    (env.define x v).get? y = if y = x then some v else env.get? y := by
  split
  case isTrue h => rw [h, get?_define_self]
  case isFalse h => exact get?_define_of_ne env v h

theorem getIn?_of_assignIn? {scopes scopes' : List Scope} {x : String} {v : Int}
    (h : assignIn? scopes x v = some scopes') (y : String) :
    getIn? scopes' y = if y = x then some v else getIn? scopes y := by
  induction scopes generalizing scopes' with
  | nil => cases h
  | cons scope rest ih =>
      rw [assignIn?] at h
      split at h
      case h_1 w hw =>
        cases h
        by_cases hy : y = x
        · simp [getIn?, hy]
        · simp [getIn?, hy, Scope.get?_set_of_ne scope v hy]
      case h_2 hnone =>
        obtain ⟨rest', hrest, rfl⟩ := Option.map_eq_some_iff.1 h
        rw [getIn?, getIn?, ih hrest]
        by_cases hy : y = x
        · simp [hy, hnone]
        · simp [hy]

/-- After an assignment the variable has its new value, and every other name its old one,
wherever they are bound. -/
theorem get?_of_assign? {env after : Env} {x : String} {v : Int}
    (h : env.assign? x v = some after) (y : String) :
    after.get? y = if y = x then some v else env.get? y := by
  have hscopes := assignIn?_scopes env x v
  rw [h] at hscopes
  exact getIn?_of_assignIn? hscopes y

/-! ## A scope over an environment -/

/-- The environment with one more scope inside. -/
def cover (env : Env) (scope : Scope) : Env := ⟨scope, env.scopes⟩

theorem get?_cover (env : Env) (scope : Scope) (x : String) :
    (env.cover scope).get? x = (scope.get? x).or (env.get? x) := by
  simp only [get?, cover, scopes, getIn?]
  cases scope.get? x with
  | some v => rfl
  | none => rfl

/-- An assignment goes to the scope that was added if that binds the variable, and past it
if it does not. -/
theorem assign?_cover (env : Env) (scope : Scope) (x : String) (v : Int) :
    (env.cover scope).assign? x v =
      match scope.get? x with
      | some _ => some (env.cover (scope.set x v))
      | none => (env.assign? x v).map (·.cover scope) := by
  rw [assign?, cover, scopes, assignIn?]
  cases scope.get? x with
  | some w => rfl
  | none =>
      rw [assignIn?_scopes]
      cases env.assign? x v with
      | some after => rfl
      | none => rfl

/-- What two environments have in common under an assignment, they have in common below a scope
that was added to both, if that scope does not matter to it. -/
theorem exists_assign?_cover {rel rel' : Env → Env → Prop} {env env' : Env} {x : String} {v : Int}
    (hrel : rel env env') (hcover : ∀ scope a b, rel a b → rel' (a.cover scope) (b.cover scope))
    (hassign : ∀ after, env.assign? x v = some after →
      ∃ after', env'.assign? x v = some after' ∧ rel after after')
    {scope : Scope} {after : Env} (hafter : (env.cover scope).assign? x v = some after) :
    ∃ after', (env'.cover scope).assign? x v = some after' ∧ rel' after after' := by
  rw [assign?_cover] at hafter ⊢
  cases hget : scope.get? x with
  | some w =>
      rw [hget] at hafter
      cases hafter
      exact ⟨_, rfl, hcover (scope.set x v) _ _ hrel⟩
  | none =>
      rw [hget] at hafter
      obtain ⟨inner, hinner, rfl⟩ := Option.map_eq_some_iff.1 hafter
      obtain ⟨inner', hinner', hrel'⟩ := hassign inner hinner
      exact ⟨inner'.cover scope, by rw [hinner']; rfl, hcover scope _ _ hrel'⟩

/-! ## The shared view -/

/-- The environments give every name the same value, below some scopes that they have in
common. -/
inductive SharedView : Nat → Env → Env → Prop
  | base {env env' : Env} : (∀ x, env'.get? x = env.get? x) → SharedView 0 env env'
  | cover {n : Nat} {env env' : Env} (scope : Scope) :
      SharedView n env env' → SharedView (n + 1) (env.cover scope) (env'.cover scope)

namespace SharedView

variable {n : Nat} {env env' : Env}

theorem get? (h : SharedView n env env') (x : String) : env'.get? x = env.get? x := by
  induction h with
  | base h => exact h x
  | cover scope _ ih => rw [get?_cover, get?_cover, ih]

/-- A declaration at the level where the run starts gives the name its value, whether it is
new there or not. -/
theorem define (h : SharedView n env env') (x : String) (v : Int) :
    SharedView n (env.define x v) (env'.define x v) := by
  cases h with
  | base h => exact .base fun y => by rw [get?_define, get?_define, h]
  | cover scope h => exact .cover (scope.set x v) h

theorem assign? (h : SharedView n env env') {x : String} {v : Int} {after : Env}
    (hassign : env.assign? x v = some after) :
    ∃ after', env'.assign? x v = some after' ∧ SharedView n after after' := by
  induction h generalizing after with
  | @base env env' h =>
      -- the variable may be bound at different depths, but it is bound on both sides
      have hsome : (env'.assign? x v).isSome = true := by
        rw [isSome_assign?, h, ← isSome_assign? env x v, hassign]
        rfl
      obtain ⟨after', hassign'⟩ := Option.isSome_iff_exists.1 hsome
      refine ⟨after', hassign', .base fun y => ?_⟩
      rw [get?_of_assign? hassign, get?_of_assign? hassign', h]
  | cover scope hview ih =>
      exact exists_assign?_cover hview (fun scope _ _ h => .cover scope h) (fun _ => ih) hassign

end SharedView

/-- No operation tells environments apart that give every name the same value. -/
def lookupBisimulation : Bisimulation id where
  rel := SharedView
  get? := fun h x => h.get? x
  assign? := fun h hassign => h.assign? hassign
  define := fun h x v => h.define x v
  push := fun h => .cover [] h
  pop? := fun h => by
    cases h with
    | cover scope h => exact ⟨_, _, rfl, rfl, h⟩

end Env

/-- The machines have printed the same, and give every name the same value. -/
def Machine.LooksLike (m m' : Machine) : Prop :=
  m'.printed = m.printed ∧ ∀ x, m'.env.get? x = m.env.get? x

/-- **A run sees values, not scopes.**  Take two environments, of any depths and with any
scopes, that give every name the same value or none.  From these a program prints the same
and ends the same way, and afterwards the environments give every name the same value
again. -/
theorem interpret_congr_lookup [Closing] {m m' : Machine} (h : m.LooksLike m')
    (limit rounds : Nat) (p : Program) :
    match p.interpret limit rounds m, p.interpret limit rounds m' with
    | .ok _ after, .ok _ after' => after.LooksLike after'
    | .error fault after, .error fault' after' => fault' = fault ∧ after.LooksLike after'
    | _, _ => False := by
  have hstart : Env.lookupBisimulation.machine 0 m m' := ⟨.base h.2, h.1⟩
  have halike := Env.lookupBisimulation.coupled_interpret limit rounds p m m' hstart
  rw [Program.rename_id] at halike
  generalize p.interpret limit rounds m = ending, p.interpret limit rounds m' = ending' at halike
  cases halike with
  | ok hafter => exact ⟨hafter.2, Env.SharedView.get? hafter.1⟩
  | error hafter =>
      -- scopes that stayed open are among those that the two sides have in common
      obtain ⟨k, -, hafter, -⟩ := hafter
      exact ⟨Fault.rename_id _, hafter.2, Env.SharedView.get? hafter.1⟩

/-- One environment keeps its variables in three scopes, with a hidden binding and an empty
scope, and the other in the global scope alone.  The program declares a variable that is
new in one and not in the other, assigns from inside a block, and stops at a name that
neither binds. -/
theorem interpret_flattened_scopes :
    let m : Machine := ⟨⟨[], [[("x", 1)], [("x", 5), ("y", 2)]]⟩, #[]⟩
    let m' : Machine := ⟨⟨[("y", 2), ("x", 1)], []⟩, #[]⟩
    let p : Program := ⟨[.letStmt 1 "x" (.reference 1 "y"),
      .block 2 [.letStmt 2 "z" (.literal 2 7), .exprStmt 2 (.assign 2 "y" (.reference 2 "z"))],
      .printStmt 3 (.reference 3 "y"), .printStmt 4 (.reference 4 "z")]⟩
    m.LooksLike m' ∧ ∀ limit rounds,
      match p.interpret limit rounds m, p.interpret limit rounds m' with
      | .ok _ after, .ok _ after' => after.LooksLike after'
      | .error fault after, .error fault' after' => fault' = fault ∧ after.LooksLike after'
      | _, _ => False := by
  intro m m' p
  have h : m.LooksLike m' := by
    refine ⟨rfl, fun x => ?_⟩
    by_cases hx : x = "x"
    · rw [hx]
      rfl
    · simp [m, m', Env.get?, Env.scopes, Env.getIn?, Scope.get?, Ne.symm hx]
  exact ⟨h, fun limit rounds => interpret_congr_lookup h limit rounds p⟩

end RillLang
