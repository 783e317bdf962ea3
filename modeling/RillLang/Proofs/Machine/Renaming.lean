import Mathlib.Logic.Function.Basic
import RillLang.Proofs.Machine.Bisimulation

/-!
# Names are interchangeable

A program whose names are replaced, each by a name of its own, runs as before, in an
environment whose names are replaced the same way (`interpret_rename`).  Only the message
about an undefined variable can tell the difference.

That different names stay different is what every operation on scopes rests on: each of
them compares names and nothing else.  So each commutes with the renaming
(`Scope.get?_rename`, `Scope.set_rename`, `Env.assign?_rename`), and the renamed
environments are a bisimulation.
-/

namespace RillLang

open Ending

/-! ## Renamed scopes -/

/-- The scope with each name replaced. -/
def Scope.rename (f : String → String) (s : Scope) : Scope := s.map (Prod.map f id)

/-- The environment with each name of each scope replaced. -/
def Env.rename (f : String → String) (env : Env) : Env :=
  ⟨env.inner.rename f, env.outer.map (Scope.rename f)⟩

/-- The machine with each name of its environment replaced. -/
def Machine.rename (f : String → String) (m : Machine) : Machine := ⟨m.env.rename f, m.printed⟩

@[simp] theorem Scope.rename_cons (f : String → String) (x : String) (v : Int) (s : Scope) :
    Scope.rename f ((x, v) :: s) = (f x, v) :: s.rename f := rfl

section Injective

variable {f : String → String} (hf : Function.Injective f)

include hf

theorem Scope.get?_rename (s : Scope) (x : String) : (s.rename f).get? (f x) = s.get? x := by
  induction s with
  | nil => rfl
  | cons b rest ih =>
      obtain ⟨y, w⟩ := b
      simp only [rename_cons, get?, hf.eq_iff, ih]

theorem Scope.set_rename (s : Scope) (x : String) (v : Int) :
    (s.rename f).set (f x) v = (s.set x v).rename f := by
  induction s with
  | nil => rfl
  | cons b rest ih =>
      obtain ⟨y, w⟩ := b
      by_cases hy : y = x
      · simp [set, hy]
      · simp [set, hy, hf.eq_iff, ih]

namespace Env

theorem getIn?_rename (scopes : List Scope) (x : String) :
    getIn? (scopes.map (Scope.rename f)) (f x) = getIn? scopes x := by
  induction scopes with
  | nil => rfl
  | cons scope rest ih => rw [List.map_cons, getIn?, getIn?, Scope.get?_rename hf, ih]

theorem get?_rename (env : Env) (x : String) : (env.rename f).get? (f x) = env.get? x :=
  getIn?_rename hf env.scopes x

theorem assignIn?_rename (scopes : List Scope) (x : String) (v : Int) :
    assignIn? (scopes.map (Scope.rename f)) (f x) v =
      (assignIn? scopes x v).map (List.map (Scope.rename f)) := by
  induction scopes with
  | nil => rfl
  | cons scope rest ih =>
      rw [List.map_cons, assignIn?, assignIn?, Scope.get?_rename hf, Scope.set_rename hf, ih]
      cases scope.get? x with
      | some w => rfl
      | none => cases assignIn? rest x v <;> rfl

theorem assign?_rename (env : Env) (x : String) (v : Int) :
    (env.rename f).assign? (f x) v = (env.assign? x v).map (rename f) := by
  have hscopes : (env.rename f).scopes = env.scopes.map (Scope.rename f) := rfl
  rw [assign?, hscopes, assignIn?_rename hf, assignIn?_scopes]
  cases env.assign? x v with
  | some after => rfl
  | none => rfl

theorem define_rename (env : Env) (x : String) (v : Int) :
    (env.rename f).define (f x) v = (env.define x v).rename f := by
  rw [define, define, rename, rename, Scope.set_rename hf]

/-- Every operation commutes with a renaming that keeps different names different. -/
def renameBisimulation : Bisimulation f where
  rel n env env' := env' = env.rename f ∧ n < env.depth
  get? := by
    rintro n env _ ⟨rfl, -⟩ x
    exact get?_rename hf env x
  assign? := by
    rintro n env _ x v after ⟨rfl, hdepth⟩ hassign
    refine ⟨after.rename f, ?_, rfl, ?_⟩
    · rw [assign?_rename hf, hassign]
      rfl
    · rwa [depth_of_names (names_of_assign? hassign)]
  define := by
    rintro n env _ ⟨rfl, hdepth⟩ x v
    exact ⟨define_rename hf env x v, hdepth⟩
  push := by
    rintro n env _ ⟨rfl, hdepth⟩
    refine ⟨rfl, ?_⟩
    rw [depth_push]
    exact Nat.succ_lt_succ hdepth
  pop? := by
    rintro n ⟨inner, outer⟩ _ ⟨rfl, hdepth⟩
    cases outer with
    | nil => exact absurd hdepth (Nat.not_lt.2 (Nat.succ_le_succ (Nat.zero_le n)))
    | cons scope rest => exact ⟨⟨scope, rest⟩, _, rfl, rfl, rfl, Nat.lt_of_succ_lt_succ hdepth⟩

end Env

end Injective

/-- **Names are interchangeable.**  A renaming that keeps different names different, applied to
a program and to the environment it starts in, changes nothing about the run but the names:
the prints are the same, the scopes at the end are the renamed ones, and the fault is the
same, except that an undefined variable has its new name. -/
theorem interpret_rename [Closing] {f : String → String} (hf : Function.Injective f)
    (limit rounds : Nat) (p : Program) (m : Machine) :
    (p.rename f).interpret limit rounds (m.rename f) =
      match p.interpret limit rounds m with
      | .ok _ after => .ok () (after.rename f)
      | .error fault after => .error (fault.rename f) (after.rename f) := by
  have hstart : (Env.renameBisimulation hf).machine 0 m (m.rename f) :=
    ⟨⟨rfl, Nat.succ_pos _⟩, rfl⟩
  have halike := (Env.renameBisimulation hf).coupled_interpret limit rounds p _ _ hstart
  have hrenamed {k : Nat} {after after' : Machine}
      (h : (Env.renameBisimulation hf).machine k after after') : after' = after.rename f := by
    obtain ⟨env, printed⟩ := after'
    obtain ⟨⟨rfl, -⟩, rfl⟩ := h
    rfl
  generalize p.interpret limit rounds m = ending,
    (p.rename f).interpret limit rounds (m.rename f) = ending' at halike
  cases halike with
  | ok hafter => rw [hrenamed hafter]
  | error hafter =>
      obtain ⟨k, -, hafter, -⟩ := hafter
      rw [hrenamed hafter]

/-- Two names exchanged, in a program that shadows one of them by the other, assigns through
the block, prints, and reads a name that is not bound. -/
theorem interpret_exchanged_names :
    let f : String → String := fun x => if x = "x" then "y" else if x = "y" then "x" else x
    let p : Program := ⟨[.letStmt 1 "x" (.literal 1 1),
      .block 2 [.letStmt 2 "x" (.reference 2 "y"), .exprStmt 2 (.assign 2 "y" (.literal 2 3))],
      .printStmt 3 (.binary 3 (some (.binary .subtract)) (.reference 3 "y") (.reference 3 "x")),
      .printStmt 4 (.reference 4 "z")]⟩
    let m : Machine := ⟨⟨[], [[("y", 7), ("k", 0)]]⟩, #[]⟩
    Function.Injective f ∧
      ∀ limit rounds, (p.rename f).interpret limit rounds (m.rename f) =
        match p.interpret limit rounds m with
        | .ok _ after => .ok () (after.rename f)
        | .error fault after => .error (fault.rename f) (after.rename f) := by
  intro f p m
  have hf : Function.Injective f := by
    intro x y h
    grind
  exact ⟨hf, fun limit rounds => interpret_rename hf limit rounds p m⟩

end RillLang
