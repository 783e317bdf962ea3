import RillLang.Proofs.Machine.Rules
import RillLang.Proofs.Tree.Lines

/-!
# Lines do not matter to a run

A tree runs as it does without its lines: no value, no effect and no fault depends on a
line.  So programs that are alike run alike (`Program.interpret_eq_of_alike`).

The statement is an equality of computations, so that it holds of every environment and
every ending at once.
-/

namespace RillLang

open Node

namespace Eval

/-- The spine of a chain without its lines. -/
theorem spine_eraseLines (e : Node) (links : List Link) :
    spine e.eraseLines (links.map (Prod.map id eraseLines)) =
      ((spine e links).1.eraseLines, (spine e links).2.map (Prod.map id eraseLines)) := by
  refine spine_map (fun line op l r => ⟨0, rfl⟩) (fun e links hother => ?_) e links
  cases e with
  | binary line op l r => exact (hother line op l r rfl).elim
  | _ => rfl

theorem fold_eraseLines {operand : Node → Eval Int} (h : ∀ e, operand e.eraseLines = operand e)
    (links : List Link) (left : Int) :
    fold operand (links.map (Prod.map id eraseLines)) left = fold operand links left := by
  induction links generalizing left with
  | nil => rfl
  | cons link links ih =>
      rw [List.map_cons, fold, fold]
      simp only [Prod.map, id, h, ih]

/-- The value of an expression, and of a chain, without its lines. -/
theorem evaluate_eraseLines (room : Nat) :
    (∀ e, evaluate room e.eraseLines = evaluate room e) ∧
      ∀ e, chain room e.eraseLines = chain room e := by
  induction room with
  | zero => exact ⟨fun e => rfl, fun e => rfl⟩
  | succ room ih =>
      obtain ⟨hevaluate, hchain⟩ := ih
      refine ⟨fun e => ?_, fun e => ?_⟩
      · cases e with
        | assign line x e => rw [eraseLines, evaluate, evaluate, hevaluate]
        | unary line op e => rw [eraseLines, evaluate, evaluate, hevaluate]
        | binary line op l r =>
            have hbinary := hchain (.binary line op l r)
            rw [eraseLines] at hbinary ⊢
            rw [evaluate, evaluate, hbinary]
        | bare family line => cases family <;> rfl
        | _ => rfl
      · have hspine := spine_eraseLines e []
        rw [List.map_nil] at hspine
        rw [chain, chain, hspine]
        simp only [hevaluate, fold_eraseLines hevaluate]

end Eval

namespace Exec

theorem sequence_eraseLines {statement : Node → Exec Unit}
    (h : ∀ s, statement s.eraseLines = statement s) (ss : List Node) :
    sequence statement (eraseLinesList ss) = sequence statement ss := by
  induction ss with
  | nil => rfl
  | cons s ss ih => rw [eraseLinesList, sequence, sequence, h, ih]

/-- The effect of a statement, and of a block, without its lines. -/
theorem execute_eraseLines [Closing] (rounds room : Nat) :
    (∀ s, execute rounds room s.eraseLines = execute rounds room s) ∧
      ∀ ss, block rounds room (eraseLinesList ss) = block rounds room ss := by
  induction room with
  | zero => exact ⟨fun s => rfl, fun ss => rfl⟩
  | succ room ih =>
      obtain ⟨hexecute, hblock⟩ := ih
      have hevaluate := (Eval.evaluate_eraseLines room).1
      refine ⟨fun s => ?_, fun ss => ?_⟩
      · cases s with
        | letStmt line x e => rw [eraseLines, execute, execute, hevaluate]
        | printStmt line e => rw [eraseLines, execute, execute, hevaluate]
        | exprStmt line e => rw [eraseLines, execute, execute, hevaluate]
        | ifStmt line c t f =>
            rw [eraseLines]
            cases f with
            | none => simp only [execute, eraseLinesOption, hevaluate, hblock]
            | some body => simp only [execute, eraseLinesOption, hevaluate, hblock]
        | whileStmt line c body => rw [eraseLines, execute, execute, hevaluate, hblock]
        | block line ss => rw [eraseLines, execute, execute, hblock]
        | bare family line => cases family <;> rfl
        | _ => rfl
      · rw [block, block, sequence_eraseLines hexecute]

/-- A sequence of statements is run in two parts, the second only if the first ends
well. -/
theorem sequence_append (statement : Node → Exec Unit) (ss more : List Node) (m : Machine) :
    sequence statement (ss ++ more) m =
      match sequence statement ss m with
      | .ok _ m' => sequence statement more m'
      | .error fault m' => .error fault m' := by
  induction ss generalizing m with
  | nil => rfl
  | cons s ss ih =>
      rw [List.cons_append, sequence, sequence]
      cases hs : statement s m with
      | ok u mid => rw [Ending.bind_of_ok hs, Ending.bind_of_ok hs, ih]
      | error fault mid => rw [Ending.bind_of_error hs, Ending.bind_of_error hs]

end Exec

namespace Program

/-- Programs that are alike run alike. -/
theorem interpret_eq_of_alike [Closing] {p q : Program} (h : p.alike q = true)
    (limit rounds : Nat) : p.interpret limit rounds = q.interpret limit rounds := by
  have hexecute := (Exec.execute_eraseLines rounds limit).1
  have herase : eraseLinesList p.statements = eraseLinesList q.statements :=
    (alikeList_iff _ _).1 h
  rw [interpret, interpret, ← Exec.sequence_eraseLines hexecute p.statements, herase,
    Exec.sequence_eraseLines hexecute]

end Program

end RillLang
