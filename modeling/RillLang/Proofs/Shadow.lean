import RillLang.Env.Operation
import RillLang.Proofs.Env

/-!
# Scopes are shadow stacks

An environment can be kept as one stack of bindings for each name: `Env.shadow` reads these
stacks off the scopes.  Every operation on scopes is the operation on stacks, one lemma for
each, and so scopes and stacks give the same answers however operations follow each other
(`scopes_refine_shadow_stacks`).

* `Env.levels` — the bindings of a name in some scopes, with their levels.
* `Env.shows_perform` — one operation.
* `Env.shadow_performAll` — operations in a row.
-/

namespace RillLang

namespace Env

/-- The bindings of a name in some scopes, from the inside out, each with the level of its
scope; the outermost scope has level 1. -/
def levels : List Scope → String → List (Nat × Int)
  | [], _ => []
  | scope :: rest, x =>
    match scope.get? x with
    | some v => (rest.length + 1, v) :: levels rest x
    | none => levels rest x

/-- The shadow stacks of an environment. -/
def shadow (env : Env) : Shadow := ⟨env.depth, levels env.scopes⟩

theorem levels_of_some {scope : Scope} {x : String} {v : Int} (h : scope.get? x = some v)
    (rest : List Scope) : levels (scope :: rest) x = (rest.length + 1, v) :: levels rest x := by
  simp [levels, h]

theorem levels_of_none {scope : Scope} {x : String} (h : scope.get? x = none)
    (rest : List Scope) : levels (scope :: rest) x = levels rest x := by
  simp [levels, h]

/-- A binding in some scopes is not deeper than they are. -/
theorem level_le_length {scopes : List Scope} {x : String} {b : Nat × Int}
    (h : b ∈ levels scopes x) : 1 ≤ b.1 ∧ b.1 ≤ scopes.length := by
  induction scopes with
  | nil => cases h
  | cons scope rest ih =>
      cases hget : scope.get? x with
      | none =>
          rw [levels_of_none hget] at h
          exact ⟨(ih h).1, Nat.le_succ_of_le (ih h).2⟩
      | some v =>
          rw [levels_of_some hget] at h
          rcases List.mem_cons.1 h with rfl | hrest
          · exact ⟨Nat.le_add_left .., Nat.le_refl _⟩
          · exact ⟨(ih hrest).1, Nat.le_succ_of_le (ih hrest).2⟩

theorem pairwise_levels (scopes : List Scope) (x : String) :
    (levels scopes x).Pairwise fun above below => below.1 < above.1 := by
  induction scopes with
  | nil => exact .nil
  | cons scope rest ih =>
      cases hget : scope.get? x with
      | none =>
          rw [levels_of_none hget]
          exact ih
      | some v =>
          rw [levels_of_some hget]
          exact .cons (fun b hb => Nat.lt_succ_of_le (level_le_length hb).2) ih

/-- The stacks of an environment are stacks of growing levels. -/
theorem stacked_shadow (env : Env) : env.shadow.Stacked :=
  ⟨pairwise_levels env.scopes, fun _ _ hb => level_le_length hb⟩

/-! ## Operations -/

theorem shadow_empty : empty.shadow = .empty := rfl

theorem shadow_push (env : Env) : env.push.shadow = env.shadow.push := rfl

/-- Closing a scope drops the bindings of its level, and no other binding has that level. -/
theorem filter_levels (scope : Scope) (rest : List Scope) (x : String) :
    (levels (scope :: rest) x).filter (fun b => b.1 ≠ rest.length + 1) = levels rest x := by
  have hrest : (levels rest x).filter (fun b => b.1 ≠ rest.length + 1) = levels rest x := by
    refine List.filter_eq_self.2 fun b hb => ?_
    have hle := (level_le_length hb).2
    simp only [ne_eq, decide_not, Bool.not_eq_true', decide_eq_false_iff_not]
    omega
  cases hget : scope.get? x with
  | none => rw [levels_of_none hget, hrest]
  | some v => rw [levels_of_some hget, List.filter_cons_of_neg (by simp), hrest]

theorem shadow_pop? (env : Env) : env.shadow.pop? = env.pop?.map shadow := by
  obtain ⟨inner, outer⟩ := env
  cases outer with
  | nil => rfl
  | cons scope rest =>
      have hbindings : (fun x => (levels (inner :: scope :: rest) x).filter fun b =>
          b.1 ≠ (scope :: rest).length + 1) = levels (scope :: rest) :=
        funext (filter_levels inner (scope :: rest))
      show some (Shadow.mk _ (fun x => (levels (inner :: scope :: rest) x).filter fun b =>
          b.1 ≠ (scope :: rest).length + 1)) = _
      rw [hbindings]
      rfl

theorem get?_shadow (env : Env) (x : String) : env.shadow.get? x = env.get? x := by
  have hlevels : ∀ scopes : List Scope,
      (levels scopes x).head?.map Prod.snd = getIn? scopes x := by
    intro scopes
    induction scopes with
    | nil => rfl
    | cons scope rest ih =>
        rw [getIn?]
        cases hget : scope.get? x with
        | none => rw [levels_of_none hget, ih]
        | some v => rw [levels_of_some hget]; rfl
  exact hlevels env.scopes

/-- Binding a name in a scope leaves the stacks of the others alone. -/
theorem levels_set_of_ne (scope : Scope) (rest : List Scope) {x y : String} (v : Int)
    (h : y ≠ x) : levels (scope.set x v :: rest) y = levels (scope :: rest) y := by
  rw [levels, levels, Scope.get?_set_of_ne scope v h]

theorem levels_set_self (scope : Scope) (rest : List Scope) (x : String) (v : Int) :
    levels (scope.set x v :: rest) x = (rest.length + 1, v) :: levels rest x :=
  levels_of_some (Scope.get?_set_self scope x v) rest

/-- The new binding replaces the one of its level or goes on top of those of lower levels. -/
theorem define_shadow (env : Env) (x : String) (v : Int) :
    env.shadow.define x v = env.shadow.update x ((env.depth, v) :: levels env.outer x) := by
  obtain ⟨inner, outer⟩ := env
  unfold Shadow.define
  cases hget : inner.get? x with
  | some w =>
      have hbindings : (shadow ⟨inner, outer⟩).bindings x =
          (outer.length + 1, w) :: levels outer x := levels_of_some hget outer
      rw [hbindings]
      exact if_pos rfl
  | none =>
      have hbindings : (shadow ⟨inner, outer⟩).bindings x = levels outer x :=
        levels_of_none hget outer
      rw [hbindings]
      cases hlevels : levels outer x with
      | nil => rfl
      | cons b below =>
          have hb : b ∈ levels outer x := hlevels ▸ List.mem_cons_self ..
          have hlt : b.1 ≠ outer.length + 1 := by
            have hle := (level_le_length hb).2
            omega
          exact if_neg hlt

theorem shadow_define (env : Env) (x : String) (v : Int) :
    (env.define x v).shadow = env.shadow.define x v := by
  rw [define_shadow]
  refine congrArg (Shadow.mk env.depth) (funext fun y => ?_)
  split
  case isTrue hy =>
    subst hy
    exact levels_set_self env.inner env.outer y v
  case isFalse hy => exact levels_set_of_ne env.inner env.outer v hy

/-- An assignment changes the value on top of one stack, and no level. -/
theorem levels_of_assignIn? {scopes scopes' : List Scope} {x : String} {v : Int}
    (h : assignIn? scopes x v = some scopes') :
    scopes'.length = scopes.length ∧ (∀ y, y ≠ x → levels scopes' y = levels scopes y) ∧
      ∃ level w below, levels scopes x = (level, w) :: below ∧
        levels scopes' x = (level, v) :: below := by
  induction scopes generalizing scopes' with
  | nil => cases h
  | cons scope rest ih =>
      rw [assignIn?] at h
      split at h
      case h_1 w hget =>
        cases h
        exact ⟨rfl, fun y hy => levels_set_of_ne scope rest v hy, _, w, _,
          levels_of_some hget rest, levels_set_self scope rest x v⟩
      case h_2 hget =>
        obtain ⟨rest', hrest, rfl⟩ := Option.map_eq_some_iff.1 h
        obtain ⟨hlength, hothers, level, w, below, hbefore, hafter⟩ := ih hrest
        refine ⟨congrArg Nat.succ hlength, fun y hy => ?_, level, w, below, ?_, ?_⟩
        · rw [levels, levels, hlength, hothers y hy]
        · rw [levels_of_none hget, hbefore]
        · rw [levels_of_none hget, hafter]

theorem levels_of_assignIn?_none {scopes : List Scope} {x : String} {v : Int}
    (h : assignIn? scopes x v = none) : levels scopes x = [] := by
  induction scopes with
  | nil => rfl
  | cons scope rest ih =>
      rw [assignIn?] at h
      split at h
      case h_1 => cases h
      case h_2 hget =>
        rw [levels_of_none hget]
        exact ih (Option.map_eq_none_iff.1 h)

theorem shadow_assign? (env : Env) (x : String) (v : Int) :
    env.shadow.assign? x v = (env.assign? x v).map shadow := by
  have hscopes := assignIn?_scopes env x v
  unfold Shadow.assign?
  cases hassign : env.assign? x v with
  | none =>
      rw [hassign] at hscopes
      have hbindings : env.shadow.bindings x = [] := levels_of_assignIn?_none hscopes
      rw [hbindings]
      rfl
  | some env' =>
      rw [hassign] at hscopes
      obtain ⟨hlength, hothers, level, w, below, hbefore, hafter⟩ := levels_of_assignIn? hscopes
      have hbindings : env.shadow.bindings x = (level, w) :: below := hbefore
      rw [hbindings]
      have hdepth : env'.depth = env.depth := hlength
      refine congrArg some ?_
      show Shadow.mk env.depth _ = Shadow.mk env'.depth _
      rw [hdepth]
      refine congrArg (Shadow.mk env.depth) (funext fun y => ?_)
      split
      case isTrue hy =>
        subst hy
        exact hafter.symm
      case isFalse hy => exact (hothers y hy).symm

/-! ## Answers -/

theorem shows_ofOption (env : Env) (fault : Fault) (result : Option Env) :
    (Report.ofOption env fault result).Shows (env.shadow.settle fault (result.map shadow)).1 ∧
      (Report.ofOption env fault result).env.shadow =
        (env.shadow.settle fault (result.map shadow)).2 := by
  cases result with
  | none => exact ⟨⟨rfl, rfl⟩, rfl⟩
  | some env' => exact ⟨⟨rfl, rfl⟩, rfl⟩

/-- An operation gives the same answer on scopes and on their stacks, and what it leaves are
the stacks of the scopes it leaves. -/
theorem shows_perform [Closing] (limits : Limits) (env : Env) (op : Operation) :
    (op.step.perform limits env).Shows (env.shadow.perform op).1 ∧
      (op.step.perform limits env).env.shadow = (env.shadow.perform op).2 := by
  cases op with
  | push => exact ⟨⟨rfl, rfl⟩, shadow_push env⟩
  | pop =>
      rw [Shadow.perform, shadow_pop?]
      exact shows_ofOption env .globalScope env.pop?
  | define x v => exact ⟨⟨rfl, rfl⟩, shadow_define env x v⟩
  | assign x v =>
      rw [Shadow.perform, shadow_assign?]
      exact shows_ofOption env (.undefinedVariable x) (env.assign? x v)
  | get x =>
      rw [Shadow.perform, get?_shadow, Operation.step, Step.perform]
      cases env.get? x with
      | none => exact ⟨⟨rfl, rfl⟩, rfl⟩
      | some v => exact ⟨⟨rfl, rfl⟩, rfl⟩

theorem env_ofOption_of_failure {env : Env} {fault : Fault} {result : Option Env}
    (h : (Report.ofOption env fault result).failure ≠ none) :
    (Report.ofOption env fault result).env = env := by
  cases result with
  | none => rfl
  | some env' => exact absurd rfl h

/-- An operation that fails leaves the scopes as they were. -/
theorem env_perform_of_failure [Closing] {limits : Limits} {env : Env} {op : Operation}
    (h : (op.step.perform limits env).failure ≠ none) :
    (op.step.perform limits env).env = env := by
  cases op with
  | push => exact absurd rfl h
  | pop => exact env_ofOption_of_failure h
  | define x v => exact absurd rfl h
  | assign x v => exact env_ofOption_of_failure h
  | get x =>
      rw [Operation.step, Step.perform]
      cases env.get? x with
      | none => rfl
      | some v => rfl

end Env

/-! ## Operations in a row -/

theorem Report.envAfter_cons (env : Env) (report : Report) (reports : List Report) :
    envAfter env (report :: reports) = envAfter report.env reports := by
  cases reports with
  | nil => rfl
  | cons r rest => simp only [envAfter, List.getLast?_cons]; rfl

/-- The last of some steps is performed on what the others leave. -/
theorem Step.performAll_concat [Closing] (limits : Limits) (steps : List Step) (step : Step)
    (env : Env) :
    performAll limits (steps ++ [step]) env =
      performAll limits steps env ++
        [step.perform limits (Report.envAfter env (performAll limits steps env))] := by
  induction steps generalizing env with
  | nil => rfl
  | cons first steps ih =>
      rw [List.cons_append, performAll, performAll, ih, Report.envAfter_cons]
      rfl

theorem Env.shadow_performAll [Closing] (limits : Limits) (ops : List Operation) (env : Env) :
    (Report.envAfter env (Step.performAll limits (ops.map Operation.step) env)).shadow =
      env.shadow.performAll ops := by
  induction ops generalizing env with
  | nil => rfl
  | cons op ops ih =>
      rw [List.map_cons, Step.performAll, Report.envAfter_cons, ih, (env.shows_perform limits op).2]
      rfl

/-- **Scopes are shadow stacks.**  After any operations that start with an empty global
scope, the next operation gives the same answer on the scopes and on the stacks, and both have
the same depth before and after it; the levels on each stack grow towards its top; and an
operation that fails leaves the scopes as they were. -/
theorem scopes_refine_shadow_stacks [Closing] (limits : Limits) (ops : List Operation)
    (op : Operation) :
    let env := Report.envAfter .empty (session limits (ops.map Operation.step))
    let shadow := Shadow.empty.performAll ops
    let report := op.step.perform limits env
    session limits ((ops ++ [op]).map Operation.step) =
        session limits (ops.map Operation.step) ++ [report] ∧
      shadow.Stacked ∧ shadow.depth = env.depth ∧
      report.Shows (shadow.perform op).1 ∧ (shadow.perform op).2.depth = report.env.depth ∧
      (report.failure ≠ none → report.env = env) := by
  intro env shadow report
  have hshadow : env.shadow = shadow :=
    (Env.shadow_performAll limits ops .empty).trans
      (congrArg (fun s => s.performAll ops) Env.shadow_empty)
  obtain ⟨hshows, hafter⟩ := env.shows_perform limits op
  rw [hshadow] at hshows hafter
  refine ⟨?_, ?_, ?_, hshows, ?_, Env.env_perform_of_failure⟩
  · rw [List.map_append]
    exact Step.performAll_concat limits _ op.step .empty
  · rw [← hshadow]
    exact env.stacked_shadow
  · rw [← hshadow]
    rfl
  · rw [← hafter]
    rfl

/-- A name bound at two levels is assigned where it is bound deepest, and a name that is not
bound cannot be assigned. -/
theorem scopes_refine_shadow_stacks_unbound :
    let ops : List Operation :=
      [.define "x" 1, .push, .define "x" 2, .push, .assign "x" 3, .pop, .assign "y" 4]
    let env : Env := ⟨[("x", 3)], [[("x", 1)]]⟩
    let report := Step.perform ⟨20, 2⟩ (.assign "y" 5) env
    Report.envAfter .empty (session ⟨20, 2⟩ (ops.map Operation.step)) = env ∧
      (Shadow.empty.performAll ops).bindings "x" = [(2, 3), (1, 1)] ∧
      report.failure = some (.fault (.undefinedVariable "y")) ∧ report.env = env := by
  intro ops env report
  have henv : Report.envAfter .empty (session ⟨20, 2⟩ (ops.map Operation.step)) = env := by
    decide
  obtain ⟨-, -, -, hshows, -, hfailed⟩ := scopes_refine_shadow_stacks ⟨20, 2⟩ ops (.assign "y" 5)
  rw [henv] at hshows hfailed
  have hanswer : ((Shadow.empty.performAll ops).perform (.assign "y" 5)).1 =
      .error (.undefinedVariable "y") := by rfl
  rw [hanswer] at hshows
  exact ⟨henv, by decide, hshows.1, hfailed (by rw [hshows.1]; exact Option.some_ne_none _)⟩

end RillLang
