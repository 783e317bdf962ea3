import RillLang.Proofs.Machine.Scoping

/-!
# Environments that run alike

When can a run not tell two environments apart?  A run touches its environment in five
ways: it reads a variable, assigns one, declares one, opens a scope and closes one.  A
relation that these respect is an `Env.Bisimulation`.  Related environments then run alike
under every program: same prints, same endings, and environments that are related again
(`Env.Bisimulation.coupled_interpret`).

The second run may be one of the renamed program, so that the two environments bind
different names.  Closing a scope has to uncover related environments.  For that a
bisimulation is a family of relations, over the number of scopes that were opened on both
sides: `push` counts up and `pop?` counts down.  A run that is stopped may leave scopes open,
but it does so on both sides at the same time.
-/

namespace RillLang

open Ending

/-! ## Renaming -/

/-- The fault with the name of an undefined variable replaced. -/
def Fault.rename (f : String → String) : Fault → Fault
  | undefinedVariable x => undefinedVariable (f x)
  | fault => fault

theorem Fault.NamesFound.rename {fault : Fault} (h : fault.NamesFound) (f : String → String) :
    fault.rename f = fault := by
  cases fault with
  | undefinedVariable x => exact (h x rfl).elim
  | _ => rfl

/-- Whether a scope stays open does not depend on names. -/
theorem Exec.staysOpen_rename [Closing] {room : Nat} {fault : Fault} (f : String → String) :
    StaysOpen room (fault.rename f) ↔ StaysOpen room fault := by
  cases fault with
  | undefinedVariable x => simp [StaysOpen, Fault.rename]
  | _ => exact Iff.rfl

/-- The program with each name replaced. -/
def Program.rename (f : String → String) (p : Program) : Program :=
  ⟨Node.renameList f p.statements⟩

/-! ## Bisimulations -/

/-- Relations between environments that every operation respects, where the names of the
second environment are those of the first renamed. -/
structure Env.Bisimulation (f : String → String) where
  /-- The environments are related, below a number of scopes that were opened on both
  sides. -/
  rel : Nat → Env → Env → Prop
  /-- A name has the value of the name it was. -/
  get? : ∀ {n env env'}, rel n env env' → ∀ x, env'.get? (f x) = env.get? x
  /-- An assignment that the first environment allows, the second allows as well. -/
  assign? : ∀ {n env env' x v after}, rel n env env' → env.assign? x v = some after →
    ∃ after', env'.assign? (f x) v = some after' ∧ rel n after after'
  define : ∀ {n env env'}, rel n env env' → ∀ x v, rel n (env.define x v) (env'.define (f x) v)
  push : ∀ {n env env'}, rel n env env' → rel (n + 1) env.push env'.push
  /-- A scope that was opened on both sides can be closed on both. -/
  pop? : ∀ {n env env'}, rel (n + 1) env env' →
    ∃ after after', env.pop? = some after ∧ env'.pop? = some after' ∧ rel n after after'

namespace Env.Bisimulation

variable {f : String → String} (S : Bisimulation f) {n : Nat}

/-- Machines with related environments that have printed the same. -/
def machine (n : Nat) (m m' : Machine) : Prop := S.rel n m.env m'.env ∧ m'.printed = m.printed

/-! ## Expressions -/

/-- From related environments the two evaluations end alike, with environments that are
related again. -/
abbrev RunsAlike {α : Type} (n : Nat) (c c' : Eval α) : Prop :=
  Coupled (S.rel n) (fun _ => S.rel n) (Fault.rename f) c c'

theorem coupled_throw_rename (fault : Fault) :
    S.RunsAlike n (throw fault : Eval Int) (throw (fault.rename f)) :=
  coupled_throw fun _ _ h => h

theorem coupled_get (x : String) : S.RunsAlike n (Eval.get x) (Eval.get (f x)) := by
  intro env env' henv
  unfold Eval.get
  rw [S.get? henv x]
  cases env.get? x with
  | some v => exact .ok henv
  | none => exact .error henv

/-- An assignment is allowed on both sides or on neither, as the variable has a value on both
or on neither. -/
theorem coupled_assign (x : String) (v : Int) :
    S.RunsAlike n (Eval.assign x v) (Eval.assign (f x) v) := by
  intro env env' henv
  have hsome := Env.isSome_assign? env' (f x) v
  rw [S.get? henv x, ← Env.isSome_assign? env x v] at hsome
  unfold Eval.assign
  cases hassign : env.assign? x v with
  | some after =>
      obtain ⟨after', hassign', hafter⟩ := S.assign? henv hassign
      rw [hassign']
      exact .ok hafter
  | none =>
      rw [hassign, Option.isSome_none, Option.isSome_eq_false_iff, Option.isNone_iff_eq_none]
        at hsome
      rw [hsome]
      exact .error henv

theorem coupled_ofExcept {r : Except Fault Int}
    (h : ∀ fault, r = .error fault → fault.NamesFound) :
    S.RunsAlike n (Eval.ofExcept r) (Eval.ofExcept r) := by
  intro env env' henv
  cases r with
  | ok v => exact .ok henv
  | error fault =>
      have hthrow := S.coupled_throw_rename (n := n) fault
      rw [(h fault rfl).rename f] at hthrow
      exact hthrow env env' henv

theorem coupled_fold {operand : Node → Eval Int}
    (h : ∀ e, S.RunsAlike n (operand e) (operand (e.rename f)))
    (links : List Eval.Link) (left : Int) :
    S.RunsAlike n (Eval.fold operand links left)
      (Eval.fold operand (links.map (Prod.map id (Node.rename f))) left) := by
  induction links generalizing left with
  | nil => exact coupled_pure left
  | cons link links ih =>
      refine (h link.2).bind fun right => ?_
      exact (S.coupled_ofExcept fun _ => applyBinary_namesFound).bind ih

theorem spine_rename (e : Node) :
    Eval.spine (e.rename f) [] =
      ((Eval.spine e []).1.rename f, (Eval.spine e []).2.map (Prod.map id (Node.rename f))) := by
  refine Eval.spine_map (fun line op l r => ⟨line, rfl⟩) (fun e links hother => ?_) e []
  cases e with
  | binary line op l r => exact (hother line op l r rfl).elim
  | _ => rfl

theorem coupled_evaluate_and_chain (room : Nat) :
    (∀ e, S.RunsAlike n (Eval.evaluate room e) (Eval.evaluate room (e.rename f))) ∧
      ∀ e, S.RunsAlike n (Eval.chain room e) (Eval.chain room (e.rename f)) := by
  induction room with
  | zero => exact ⟨fun e => S.coupled_throw_rename _, fun e => S.coupled_throw_rename _⟩
  | succ room ih =>
      obtain ⟨hevaluate, hchain⟩ := ih
      refine ⟨fun e => ?_, fun e => ?_⟩
      · cases e with
        | literal line v => exact coupled_pure v
        | reference line x => exact S.coupled_get x
        | assign line x e =>
            refine (hevaluate e).bind fun v => ?_
            exact (S.coupled_assign x v).bind fun _ => coupled_pure v
        | unary line op e =>
            refine (hevaluate e).bind fun v => ?_
            exact S.coupled_ofExcept fun _ => applyUnary_namesFound
        | binary line op l r => exact hchain (.binary line op l r)
        | _ => exact S.coupled_throw_rename _
      · rw [Eval.chain, Eval.chain, spine_rename]
        exact (hevaluate _).bind fun left => S.coupled_fold hevaluate _ left

theorem coupled_evaluate (room : Nat) (e : Node) :
    S.RunsAlike n (Eval.evaluate room e) (Eval.evaluate room (e.rename f)) :=
  (S.coupled_evaluate_and_chain room).1 e

/-! ## Statements and blocks -/

section Execution

variable [Closing]

/-- What two runs leave that have stopped for a reason: machines that are related below some
number of scopes or, if scopes stayed open, below more. -/
def Stopped (n : Nat) (fault : Fault) (m m' : Machine) : Prop :=
  ∃ k, n ≤ k ∧ S.machine k m m' ∧ (k ≠ n → fault = .nestingTooDeep ∧ 0 < Closing.room)

/-- No scope need stay open. -/
theorem stopped_of {fault : Fault} {m m' : Machine} (h : S.machine n m m') :
    S.Stopped n fault m m' :=
  ⟨n, Nat.le_refl n, h, fun hne => (hne rfl).elim⟩

/-- From related machines the two executions end alike, with machines that are related again. -/
abbrev ExecutesAlike {α : Type} (n : Nat) (c c' : Exec α) : Prop :=
  Coupled (S.machine n) (S.Stopped n) (Fault.rename f) c c'

theorem executes_throw (fault : Fault) :
    S.ExecutesAlike n (throw fault : Exec Unit) (throw (fault.rename f)) :=
  coupled_throw fun _ _ h => S.stopped_of h

theorem coupled_eval {α : Type} {c c' : Eval α} (h : S.RunsAlike n c c') :
    S.ExecutesAlike n (Exec.eval c) (Exec.eval c') := by
  rintro m m' ⟨henv, hprinted⟩
  have halike := h m.env m'.env henv
  unfold Exec.eval
  generalize c m.env = ending, c' m'.env = ending' at halike
  cases halike with
  | ok hafter => exact .ok ⟨hafter, hprinted⟩
  | error hafter => exact .error (S.stopped_of ⟨hafter, hprinted⟩)

theorem coupled_define (x : String) (v : Int) :
    S.ExecutesAlike n (Exec.define x v) (Exec.define (f x) v) :=
  fun _ _ hm => .ok ⟨S.define hm.1 x v, hm.2⟩

theorem coupled_print (v : Int) : S.ExecutesAlike n (Exec.print v) (Exec.print v) :=
  fun _ _ hm => .ok ⟨hm.1, congrArg (·.push v) hm.2⟩

/-- Scopes are opened on both sides at the same time, and closed or left open on both. -/
theorem coupled_inScope {room : Nat} {body body' : Exec Unit}
    (h : S.ExecutesAlike (n + 1) body body') :
    S.ExecutesAlike n (Exec.inScope room body) (Exec.inScope room body') := by
  rintro m m' ⟨henv, hprinted⟩
  have halike := h ⟨m.env.push, m.printed⟩ ⟨m'.env.push, m'.printed⟩ ⟨S.push henv, hprinted⟩
  unfold Exec.inScope
  generalize body ⟨m.env.push, m.printed⟩ = ending,
    body' ⟨m'.env.push, m'.printed⟩ = ending' at halike
  cases halike with
  | ok hafter =>
      obtain ⟨after, after', hpop, hpop', hrel⟩ := S.pop? hafter.1
      simp only [hpop, hpop']
      exact .ok ⟨hrel, hafter.2⟩
  | @error fault mid mid' hstopped =>
      obtain ⟨k, hle, hmid, hfault⟩ := hstopped
      by_cases hopen : Exec.StaysOpen room fault
      · simp only [if_pos hopen, if_pos ((Exec.staysOpen_rename f).2 hopen)]
        have hstays : S.Stopped n .nestingTooDeep mid mid' :=
          ⟨k, Nat.le_of_succ_le hle, hmid, fun _ => ⟨rfl, Nat.zero_lt_of_lt hopen.1⟩⟩
        exact .error hstays
      · -- the innermost scope is closed on both sides, be it this one or one that stayed open
        obtain ⟨k, rfl⟩ := Nat.exists_eq_add_of_le' hle
        obtain ⟨after, after', hpop, hpop', hrel⟩ := S.pop? hmid.1
        simp only [if_neg hopen, if_neg (mt (Exec.staysOpen_rename f).1 hopen), hpop, hpop']
        exact .error ⟨k + n, Nat.le_add_left n k, ⟨hrel, hmid.2⟩,
          fun hne => hfault fun heq => hne (Nat.succ.inj heq)⟩

theorem coupled_whileLoop {condition condition' : Eval Int} {body body' : Exec Unit}
    (hcondition : S.RunsAlike n condition condition') (hbody : S.ExecutesAlike n body body')
    (rounds : Nat) :
    S.ExecutesAlike n (Exec.whileLoop condition body rounds)
      (Exec.whileLoop condition' body' rounds) := by
  induction rounds with
  | zero => exact S.executes_throw _
  | succ rounds ih =>
      rw [Exec.whileLoop, Exec.whileLoop]
      refine (S.coupled_eval hcondition).bind fun v => ?_
      by_cases hv : v ≠ 0
      · rw [if_pos hv, if_pos hv]
        exact hbody.bind fun _ => ih
      · rw [if_neg hv, if_neg hv]
        exact coupled_pure ()

theorem coupled_sequence {statement : Node → Exec Unit}
    (h : ∀ s, S.ExecutesAlike n (statement s) (statement (s.rename f))) (ss : List Node) :
    S.ExecutesAlike n (Exec.sequence statement ss)
      (Exec.sequence statement (Node.renameList f ss)) := by
  induction ss with
  | nil => exact coupled_pure ()
  | cons s ss ih => exact (h s).bind fun _ => ih

/-- Statements and blocks run alike, by induction on the room.  A block goes one scope
further in, so that the number of common scopes is not fixed in the induction. -/
theorem coupled_execute_and_block (rounds room : Nat) :
    (∀ n s, S.ExecutesAlike n (Exec.execute rounds room s)
        (Exec.execute rounds room (s.rename f))) ∧
      ∀ n ss, S.ExecutesAlike n (Exec.block rounds room ss)
        (Exec.block rounds room (Node.renameList f ss)) := by
  induction room with
  | zero => exact ⟨fun n s => S.executes_throw _, fun n ss => S.executes_throw _⟩
  | succ room ih =>
      obtain ⟨hexecute, hblock⟩ := ih
      have heval (n : Nat) (e : Node) := S.coupled_eval (S.coupled_evaluate (n := n) room e)
      refine ⟨fun n s => ?_, fun n ss => S.coupled_inScope (S.coupled_sequence (hexecute _) ss)⟩
      cases s with
      | letStmt line x e => exact (heval n e).bind fun v => S.coupled_define x v
      | printStmt line e => exact (heval n e).bind fun v => S.coupled_print v
      | exprStmt line e => exact (heval n e).bind fun _ => coupled_pure ()
      | ifStmt line c t o =>
          refine (heval n c).bind fun v => ?_
          by_cases hv : v ≠ 0
          · rw [if_pos hv, if_pos hv]
            exact hblock n t
          · rw [if_neg hv, if_neg hv]
            cases o with
            | some body => exact hblock n body
            | none => exact coupled_pure ()
      | whileStmt line c body =>
          exact S.coupled_whileLoop (S.coupled_evaluate room c) (hblock n body) rounds
      | block line body => exact hblock n body
      | _ => exact S.executes_throw _

/-- A program and its renamed copy run alike from related environments. -/
theorem coupled_interpret (limit rounds : Nat) (p : Program) :
    S.ExecutesAlike n (p.interpret limit rounds) ((p.rename f).interpret limit rounds) :=
  S.coupled_sequence ((S.coupled_execute_and_block rounds limit).1 n) p.statements

end Execution

end Env.Bisimulation

end RillLang
