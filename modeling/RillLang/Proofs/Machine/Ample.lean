import RillLang.Proofs.Machine.Plain

/-!
# Room enough to run any program

For every program there is a limit from which on no run of it is cut short, whatever it is run
on and however long (`Program.exists_ample`).  The room that a run takes depends on the tree and
not on what happens: a loop takes no more room in its last round than in its first.

* `Eval.exists_ample` — expressions: from some room on they are evaluated plainly, and plain
  evaluation knows no limit.
* `Exec.exists_ample` — statements, by induction on the tree.
-/

namespace RillLang

open Ending

/-! ## Expressions -/

namespace Eval

theorem avoids_get (x : String) : Avoids .nestingTooDeep (get x) := by
  intro env env' herror
  unfold get at herror
  split at herror <;> cases herror

theorem avoids_assign (x : String) (v : Int) : Avoids .nestingTooDeep (assign x v) := by
  intro env env' herror
  unfold assign at herror
  split at herror <;> cases herror

theorem avoids_applyUnary (op : Option Operator) (v : Int) :
    Avoids .nestingTooDeep (ofExcept (applyUnary op v)) := by
  intro env env' herror
  unfold applyUnary at herror
  split at herror <;> cases herror

theorem avoids_applyBinary (op : Option Operator) (l r : Int) :
    Avoids .nestingTooDeep (ofExcept (applyBinary op l r)) := by
  intro env env' herror
  unfold applyBinary at herror
  split at herror
  · rename_i op
    cases op with
    | divide =>
        unfold BinaryOperator.apply at herror
        cases hquotient : Word.quotient? l r with
        | some q => simp [hquotient, ofExcept] at herror
        | none => simp [hquotient, ofExcept] at herror
    | _ => cases herror
  · cases herror

theorem plain_of_not_isExpression {e : Node} (h : e.isExpression = false) :
    plain e = throw (.unknownExpression e.label) := by
  cases e with
  | literal | reference | assign | unary | binary => cases h
  | _ => rfl

/-- Plain evaluation knows no limit. -/
theorem avoids_plain (e : Node) : Avoids .nestingTooDeep (plain e) := by
  induction e using plain.induct with
  | case1 line v => exact avoids_pure v
  | case2 line x => exact avoids_get x
  | case3 line x e ih => exact ih.bind fun v => (avoids_assign x v).bind fun _ => avoids_pure v
  | case4 line op e ih => exact ih.bind fun v => avoids_applyUnary op v
  | case5 line op l r ihl ihr =>
      exact ihl.bind fun left => ihr.bind fun right => avoids_applyBinary op left right
  | case6 e hliteral hreference hassign hunary hbinary =>
      rw [plain_of_not_isExpression
        (Node.isExpression_eq_false hliteral hreference hassign hunary hbinary)]
      exact avoids_throw (by rintro ⟨⟩)

/-- Every expression is evaluated to its end from some room on. -/
theorem exists_ample (e : Node) :
    ∃ need, ∀ room, need ≤ room → Avoids .nestingTooDeep (evaluate room e) := by
  obtain ⟨need, hneed⟩ := exists_plainFrom e
  refine ⟨need, fun room hle => ?_⟩
  obtain ⟨more, rfl⟩ := Nat.exists_eq_add_of_le' hle
  rw [(hneed more).1]
  exact avoids_plain e

end Eval

/-! ## Statements and blocks -/

namespace Exec

theorem avoids_eval {α : Type} {c : Eval α} (h : Avoids .nestingTooDeep c) :
    Avoids .nestingTooDeep (eval c) := by
  intro m m' herror
  unfold eval at herror
  cases hc : c m.env with
  | ok a env => simp [hc] at herror
  | error fault env =>
      rw [hc] at herror
      cases herror
      exact h m.env env hc

theorem avoids_define (x : String) (v : Int) : Avoids .nestingTooDeep (define x v) := by
  rintro m m' ⟨⟩

theorem avoids_print (v : Int) : Avoids .nestingTooDeep (print v) := by
  rintro m m' ⟨⟩

/-- Where there is room to close it, a scope does not stay open. -/
theorem avoids_inScope [Closing] {room : Nat} {body : Exec Unit} (hroom : Closing.room ≤ room)
    (h : Avoids .nestingTooDeep body) : Avoids .nestingTooDeep (inScope room body) := by
  intro m m' herror
  unfold inScope at herror
  cases hbody : body ⟨m.env.push, m.printed⟩ with
  | ok u mid =>
      rw [hbody] at herror
      cases hpop : mid.env.pop? <;> simp [hpop] at herror
  | error fault mid =>
      have hclosed : ¬ StaysOpen room fault := fun hopen => Nat.not_lt.2 hroom hopen.1
      rw [hbody] at herror
      cases hpop : mid.env.pop? with
      | some env =>
          simp only [if_neg hclosed, hpop] at herror
          cases herror
          exact h _ mid hbody
      | none => simp [if_neg hclosed, hpop] at herror

theorem avoids_whileLoop {condition : Eval Int} {body : Exec Unit}
    (hcondition : Avoids .nestingTooDeep condition) (hbody : Avoids .nestingTooDeep body)
    (rounds : Nat) : Avoids .nestingTooDeep (whileLoop condition body rounds) := by
  induction rounds with
  | zero => exact avoids_throw nofun
  | succ rounds ih =>
      refine (avoids_eval hcondition).bind fun v => ?_
      by_cases hv : v ≠ 0
      · rw [if_pos hv]
        exact hbody.bind fun _ => ih
      · rw [if_neg hv]
        exact avoids_pure ()

theorem avoids_sequence {statement : Node → Exec Unit} {ss : List Node}
    (h : ∀ s ∈ ss, Avoids .nestingTooDeep (statement s)) :
    Avoids .nestingTooDeep (sequence statement ss) := by
  induction ss with
  | nil => exact avoids_pure ()
  | cons s ss ih =>
      obtain ⟨hs, hss⟩ := List.forall_mem_cons.1 h
      exact hs.bind fun _ => ih hss

variable [Closing]

/-- From this room on the statement is never cut short. -/
def AmpleFrom (need : Nat) (s : Node) : Prop :=
  ∀ rounds room, need ≤ room → Avoids .nestingTooDeep (execute rounds room s)

/-- From this room on the block is never cut short. -/
def BlockAmpleFrom (need : Nat) (ss : List Node) : Prop :=
  ∀ rounds room, need ≤ room → Avoids .nestingTooDeep (block rounds room ss)

theorem AmpleFrom.mono {need need' : Nat} {s : Node} (h : AmpleFrom need s) (hle : need ≤ need') :
    AmpleFrom need' s :=
  fun rounds room hroom => h rounds room (Nat.le_trans hle hroom)

/-- A statement with some unit of room has the rest of it for its parts. -/
theorem ampleFrom_succ {need : Nat} {s : Node}
    (h : ∀ rounds room, need ≤ room → Avoids .nestingTooDeep (execute rounds (room + 1) s)) :
    AmpleFrom (need + 1) s := by
  intro rounds room hroom
  cases room with
  | zero => cases hroom
  | succ room => exact h rounds room (Nat.le_of_succ_le_succ hroom)

/-- A block has room enough when each of its statements has, and there is some to close it. -/
theorem exists_blockAmpleFrom {ss : List Node} (h : ∃ need, ∀ s ∈ ss, AmpleFrom need s) :
    ∃ need, BlockAmpleFrom need ss := by
  obtain ⟨need, hss⟩ := h
  refine ⟨need + Closing.room + 1, fun rounds room hroom => ?_⟩
  cases room with
  | zero => cases hroom
  | succ room =>
      exact avoids_inScope (by omega)
        (avoids_sequence fun s hs => hss s hs rounds room (by omega))

/-- A statement that goes on without limit after its expression. -/
theorem exists_ample_of_bind {s e : Node} {f : Int → Exec Unit}
    (hs : ∀ rounds room,
      execute rounds (room + 1) s = (eval (Eval.evaluate room e) >>= f))
    (hf : ∀ v, Avoids .nestingTooDeep (f v)) : ∃ need, AmpleFrom need s := by
  obtain ⟨need, he⟩ := Eval.exists_ample e
  refine ⟨need + 1, ampleFrom_succ fun rounds room hroom => ?_⟩
  rw [hs]
  exact (avoids_eval (he room hroom)).bind hf

theorem exists_ample_ifStmt (line : Int) (c : Node) {t : List Node} {f : Option (List Node)}
    (ht : ∃ need, BlockAmpleFrom need t)
    (hf : ∃ need, ∀ body, f = some body → BlockAmpleFrom need body) :
    ∃ need, AmpleFrom need (.ifStmt line c t f) := by
  obtain ⟨need, hc⟩ := Eval.exists_ample c
  obtain ⟨need', ht⟩ := ht
  obtain ⟨need'', hf⟩ := hf
  refine ⟨need + need' + need'' + 1, ampleFrom_succ fun rounds room hroom => ?_⟩
  refine (avoids_eval (hc room (by omega))).bind fun v => ?_
  by_cases hv : v ≠ 0
  · rw [if_pos hv]
    exact ht rounds room (by omega)
  · rw [if_neg hv]
    cases f with
    | some body => exact hf body rfl rounds room (by omega)
    | none => exact avoids_pure ()

theorem exists_ample_whileStmt (line : Int) (c : Node) {body : List Node}
    (hbody : ∃ need, BlockAmpleFrom need body) :
    ∃ need, AmpleFrom need (.whileStmt line c body) := by
  obtain ⟨need, hc⟩ := Eval.exists_ample c
  obtain ⟨need', hbody⟩ := hbody
  refine ⟨need + need' + 1, ampleFrom_succ fun rounds room hroom => ?_⟩
  exact avoids_whileLoop (hc room (by omega)) (hbody rounds room (by omega)) rounds

theorem exists_ample_block (line : Int) {body : List Node}
    (hbody : ∃ need, BlockAmpleFrom need body) : ∃ need, AmpleFrom need (.block line body) := by
  obtain ⟨need, hbody⟩ := hbody
  exact ⟨need + 1, ampleFrom_succ hbody⟩

mutual

/-- From some room on a statement is never cut short. -/
theorem exists_ample : ∀ s : Node, ∃ need, AmpleFrom need s
  | .letStmt _ x _ => exists_ample_of_bind (fun _ _ => rfl) (avoids_define x)
  | .printStmt _ _ => exists_ample_of_bind (fun _ _ => rfl) avoids_print
  | .exprStmt _ _ => exists_ample_of_bind (fun _ _ => rfl) fun _ => avoids_pure ()
  | .ifStmt line c t f =>
      exists_ample_ifStmt line c (exists_blockAmpleFrom (exists_ampleList t)) (exists_ampleOption f)
  | .whileStmt line c body =>
      exists_ample_whileStmt line c (exists_blockAmpleFrom (exists_ampleList body))
  | .block line body => exists_ample_block line (exists_blockAmpleFrom (exists_ampleList body))
  | .program _ | .bare .. | .literal .. | .reference .. | .assign .. | .unary .. | .binary .. =>
      ⟨1, ampleFrom_succ fun _ _ _ => avoids_throw nofun⟩

theorem exists_ampleList : ∀ ss : List Node, ∃ need, ∀ s ∈ ss, AmpleFrom need s
  | [] => ⟨0, List.forall_mem_nil _⟩
  | s :: ss => by
      obtain ⟨need, hs⟩ := exists_ample s
      obtain ⟨need', hss⟩ := exists_ampleList ss
      refine ⟨need + need', List.forall_mem_cons.2 ⟨hs.mono (by omega), fun s' hs' => ?_⟩⟩
      exact (hss s' hs').mono (by omega)

theorem exists_ampleOption :
    ∀ f : Option (List Node), ∃ need, ∀ body, f = some body → BlockAmpleFrom need body
  | none => ⟨0, nofun⟩
  | some body => by
      obtain ⟨need, hbody⟩ := exists_blockAmpleFrom (exists_ampleList body)
      refine ⟨need, ?_⟩
      rintro _ ⟨⟩
      exact hbody

end

end Exec

/-- **For every program there is a limit that is never reached**, nor is any larger one. -/
theorem Program.exists_ample [Closing] (p : Program) :
    ∃ enough, ∀ limit, enough ≤ limit → ∀ rounds,
      Avoids .nestingTooDeep (p.interpret limit rounds) := by
  obtain ⟨enough, hstatements⟩ := Exec.exists_ampleList p.statements
  exact ⟨enough, fun limit hle rounds =>
    Exec.avoids_sequence fun s hs => hstatements s hs rounds limit hle⟩

end RillLang
