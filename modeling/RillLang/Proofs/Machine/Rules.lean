import RillLang.Machine.Execute
import RillLang.Proofs.Ending

/-!
# Rules for evaluation and execution

How the endings of evaluations and executions follow from those of their parts.

An `Eval.Contract` is a set of promises about the evaluation of a class of expressions:
what holds of the environment before and after, of the values and of the faults.  A
contract that is sound for each form of expression is kept by the evaluation of every
expression of the class (`Eval.Contract.Sound.evaluate`): the recursion of the evaluator,
and the chains it folds, are dealt with once, here.

Execution has a rule for each of its building blocks; `Exec.ends_whileLoop` and
`Exec.ends_sequence` are those with an invariant.
-/

namespace RillLang

open Ending

/-- The node has the form of an expression. -/
def Node.isExpression : Node → Bool
  | .literal .. | .reference .. | .assign .. | .unary .. | .binary .. => true
  | _ => false

namespace Eval

theorem ends_ofExcept {α : Type} {r : Except Fault α} {env : Env} {ok : α → Env → Prop}
    {fail : Fault → Env → Prop} (hok : ∀ a, r = .ok a → ok a env)
    (hfail : ∀ fault, r = .error fault → fail fault env) : Ends (ofExcept r) env ok fail := by
  cases r with
  | ok a => exact hok a rfl
  | error fault => exact hfail fault rfl

theorem ends_get {x : String} {env : Env} {ok : Int → Env → Prop} {fail : Fault → Env → Prop}
    (hok : ∀ v, env.get? x = some v → ok v env)
    (hfail : env.get? x = none → fail (.undefinedVariable x) env) :
    Ends (get x) env ok fail := by
  unfold Ends get
  cases h : env.get? x with
  | some v => exact hok v h
  | none => exact hfail h

theorem ends_assign {x : String} {v : Int} {env : Env} {ok : Unit → Env → Prop}
    {fail : Fault → Env → Prop} (hok : ∀ env', env.assign? x v = some env' → ok () env')
    (hfail : env.assign? x v = none → fail (.undefinedVariable x) env) :
    Ends (assign x v) env ok fail := by
  unfold Ends assign
  cases h : env.assign? x v with
  | some env' => exact hok env' h
  | none => exact hfail h

/-- A change of trees that keeps binary nodes, and makes no others, keeps the spine of a
chain. -/
theorem spine_map {g : Node → Node}
    (hbinary : ∀ line op l r, ∃ line', g (.binary line op l r) = .binary line' op (g l) (g r))
    (hother : ∀ e links, (∀ line op l r, e ≠ .binary line op l r) →
      spine (g e) links = (g e, links)) (e : Node) (links : List Link) :
    spine (g e) (links.map (Prod.map id g)) =
      (g (spine e links).1, (spine e links).2.map (Prod.map id g)) := by
  fun_induction spine e links with
  | case1 line op l r links ih =>
      obtain ⟨line', hline'⟩ := hbinary line op l r
      rw [hline', spine]
      exact ih
  | case2 e links h => exact hother e _ fun line op l r he => h line op l r he

/-! ## Contracts -/

/-- Promises about the evaluation of a class of expressions. -/
structure Contract where
  /-- The expressions of the class. -/
  expr : Node → Prop
  /-- What holds of the environment, before and after. -/
  env : Env → Prop
  /-- What holds of a value. -/
  value : Int → Prop
  /-- What holds of a fault. -/
  fault : Fault → Prop

namespace Contract

/-- An evaluation keeps to a contract. -/
def Keeps (c : Contract) (x : Eval Int) : Prop :=
  ∀ env, c.env env → Ends x env (fun v env' => c.value v ∧ c.env env')
    (fun fault env' => c.fault fault ∧ c.env env')

/-- A link of a chain: its operand is in the class, and its operator keeps to the
contract. -/
def Link (c : Contract) (link : Eval.Link) : Prop :=
  c.expr link.2 ∧ ∀ v w, c.value v → c.value w → c.Keeps (ofExcept (applyBinary link.1 v w))

/-- The contract is kept by each form of expression, given that the parts are in the
class and keep it. -/
structure Sound (c : Contract) : Prop where
  nestingTooDeep : c.fault .nestingTooDeep
  literal : ∀ {line v}, c.expr (.literal line v) → c.value v
  reference : ∀ {line x}, c.expr (.reference line x) → c.Keeps (get x)
  assign : ∀ {line x e}, c.expr (.assign line x e) →
    c.expr e ∧ ∀ v, c.value v → c.Keeps (do assign x v; return v)
  unary : ∀ {line op e}, c.expr (.unary line op e) →
    c.expr e ∧ ∀ v, c.value v → c.Keeps (ofExcept (applyUnary op v))
  binary : ∀ {line op l r}, c.expr (.binary line op l r) → c.expr l ∧ c.Link (op, r)
  other : ∀ {e}, c.expr e → e.isExpression = false → c.fault (.unknownExpression e.label)

variable {c : Contract}

theorem keeps_throw {fault : Fault} (h : c.fault fault) : c.Keeps (throw fault) :=
  fun _ henv => ends_throw.2 ⟨h, henv⟩

theorem keeps_ofExcept {r : Except Fault Int} (hok : ∀ v, r = .ok v → c.value v)
    (hfail : ∀ fault, r = .error fault → c.fault fault) : c.Keeps (ofExcept r) :=
  fun _ henv => ends_ofExcept (fun v h => ⟨hok v h, henv⟩) (fun fault h => ⟨hfail fault h, henv⟩)

theorem Keeps.bind {x : Eval Int} {f : Int → Eval Int} (hx : c.Keeps x)
    (hf : ∀ v, c.value v → c.Keeps (f v)) : c.Keeps (x >>= f) := by
  intro env henv
  rw [ends_bind]
  exact (hx env henv).imp (fun v env' h => hf v h.1 env' h.2) (fun _ _ h => h)

/-- The parts of a chain are in the class. -/
theorem Sound.spine (h : c.Sound) {e : Node} {links : List Eval.Link} (he : c.expr e)
    (hlinks : ∀ link ∈ links, c.Link link) :
    c.expr (spine e links).1 ∧ ∀ link ∈ (spine e links).2, c.Link link := by
  fun_induction Eval.spine e links with
  | case1 links line op l r ih =>
      obtain ⟨hl, hr⟩ := h.binary he
      exact ih hl (List.forall_mem_cons.2 ⟨hr, hlinks⟩)
  | case2 links e _ => exact ⟨he, hlinks⟩

/-- Folding a chain keeps to a contract when each operand does. -/
theorem keeps_fold {operand : Node → Eval Int} (hoperand : ∀ e, c.expr e → c.Keeps (operand e))
    {links : List Eval.Link} (hlinks : ∀ link ∈ links, c.Link link) {left : Int}
    (hleft : c.value left) : c.Keeps (fold operand links left) := by
  induction links generalizing left with
  | nil => exact fun _ henv => ⟨hleft, henv⟩
  | cons link rest ih =>
      obtain ⟨hlink, hrest⟩ := List.forall_mem_cons.1 hlinks
      refine (hoperand link.2 hlink.1).bind fun right hright => ?_
      exact (hlink.2 left right hleft hright).bind fun value hvalue => ih hrest hvalue

/-- A sound contract is kept by the evaluation of every expression of its class, and of
every chain. -/
theorem Sound.evaluate_and_chain (h : c.Sound) (room : Nat) :
    (∀ e, c.expr e → c.Keeps (evaluate room e)) ∧ ∀ e, c.expr e → c.Keeps (chain room e) := by
  induction room with
  | zero => exact ⟨fun e _ => keeps_throw h.nestingTooDeep, fun e _ => keeps_throw h.nestingTooDeep⟩
  | succ room ih =>
      obtain ⟨hevaluate, hchain⟩ := ih
      refine ⟨fun e he => ?_, fun e he => ?_⟩
      · cases e with
        | literal line v => exact fun _ henv => ⟨h.literal he, henv⟩
        | reference line x => exact h.reference he
        | assign line x e =>
            obtain ⟨hsub, hassign⟩ := h.assign he
            exact (hevaluate e hsub).bind hassign
        | unary line op e =>
            obtain ⟨hsub, happly⟩ := h.unary he
            exact (hevaluate e hsub).bind happly
        | binary line op l r => exact hchain _ he
        | _ => exact keeps_throw (h.other he rfl)
      · obtain ⟨hfirst, hlinks⟩ := h.spine he (List.forall_mem_nil _)
        exact (hevaluate _ hfirst).bind fun left hleft => keeps_fold hevaluate hlinks hleft

theorem Sound.evaluate (h : c.Sound) {e : Node} (he : c.expr e) (room : Nat) :
    c.Keeps (evaluate room e) :=
  (h.evaluate_and_chain room).1 e he

/-- The contract of a class of expressions that promises nothing but something about the
environment. -/
def onEnv (expr : Node → Prop) (inv : Env → Prop) : Contract where
  expr := expr
  env := inv
  value := fun _ => True
  fault := fun _ => True

/-- An assignment is the only expression that changes the environment. -/
theorem onEnv_sound {expr : Node → Prop} {inv : Env → Prop}
    (hassign : ∀ {line x e}, expr (.assign line x e) →
      expr e ∧ ∀ v env env', inv env → env.assign? x v = some env' → inv env')
    (hunary : ∀ {line op e}, expr (.unary line op e) → expr e)
    (hbinary : ∀ {line op l r}, expr (.binary line op l r) → expr l ∧ expr r) :
    (onEnv expr inv).Sound where
  nestingTooDeep := trivial
  literal := fun _ => trivial
  reference := fun _ _ henv => ends_get (fun _ _ => ⟨trivial, henv⟩) (fun _ => ⟨trivial, henv⟩)
  assign := fun he => ⟨(hassign he).1, fun v _ env henv => by
    rw [ends_bind]
    refine ends_assign (fun env' henv' => ?_) (fun _ => ⟨trivial, henv⟩)
    exact ⟨trivial, (hassign he).2 v env env' henv henv'⟩⟩
  unary := fun he => ⟨hunary he, fun _ _ =>
    keeps_ofExcept (fun _ _ => trivial) (fun _ _ => trivial)⟩
  binary := fun he => ⟨(hbinary he).1, (hbinary he).2, fun _ _ _ _ =>
    keeps_ofExcept (fun _ _ => trivial) (fun _ _ => trivial)⟩
  other := fun _ _ => trivial

/-- What a sound contract promises of the environment holds however the evaluation ends. -/
theorem Sound.leaves (h : c.Sound) {e : Node} (he : c.expr e) (room : Nat) {env : Env}
    (henv : c.env env) : Leaves (Eval.evaluate room e) env c.env :=
  (h.evaluate he room env henv).imp (fun _ _ h => h.2) (fun _ _ h => h.2)

end Contract

end Eval

/-! ## Execution -/

namespace Exec

variable {ok : Unit → Machine → Prop} {fail : Fault → Machine → Prop} {m : Machine}

theorem ends_eval {α : Type} {e : Eval α} {ok : α → Machine → Prop} :
    Ends (eval e) m ok fail ↔
      Ends e m.env (fun a env => ok a ⟨env, m.printed⟩)
        (fun fault env => fail fault ⟨env, m.printed⟩) := by
  unfold Ends eval
  cases e m.env with
  | ok a env => exact Iff.rfl
  | error fault env => exact Iff.rfl

/-- Evaluation prints nothing. -/
theorem eval_printed {α : Type} (c : Eval α) (m : Machine) :
    Leaves (eval c) m (fun m' => m'.printed = m.printed) := by
  refine ends_eval.2 ?_
  unfold Ends
  cases c m.env <;> rfl

theorem ends_define {x : String} {v : Int} :
    Ends (define x v) m ok fail ↔ ok () ⟨m.env.define x v, m.printed⟩ := Iff.rfl

theorem ends_print {v : Int} : Ends (print v) m ok fail ↔ ok () ⟨m.env, m.printed.push v⟩ :=
  Iff.rfl

/-- A scope is closed however its body ends, unless it stays open. -/
theorem ends_inScope [Closing] {room : Nat} {body : Exec Unit} :
    Ends (inScope room body) m ok fail ↔
      Ends body ⟨m.env.push, m.printed⟩
        (fun _ m' => match m'.env.pop? with
          | some env => ok () ⟨env, m'.printed⟩
          | none => fail .globalScope m')
        (fun fault m' =>
          if StaysOpen room fault then fail .nestingTooDeep m'
          else match m'.env.pop? with
            | some env => fail fault ⟨env, m'.printed⟩
            | none => fail .globalScope m') := by
  unfold Ends inScope
  cases body ⟨m.env.push, m.printed⟩ with
  | ok u m' => cases h : m'.env.pop? <;> simp only [h]
  | error fault m' =>
      by_cases hopen : StaysOpen room fault
      · simp only [if_pos hopen]
      · cases h : m'.env.pop? <;> simp only [if_neg hopen, h]

/-- A scope that stays open leaves what its body leaves. -/
theorem inScope_of_staysOpen [Closing] {room : Nat} {body : Exec Unit} {m' : Machine}
    {fault : Fault} (hbody : body ⟨m.env.push, m.printed⟩ = .error fault m')
    (hopen : StaysOpen room fault) : inScope room body m = .error .nestingTooDeep m' := by
  simp only [inScope, hbody, if_pos hopen]

/-- A scope that can be closed is closed before the fault is passed on. -/
theorem inScope_of_error [Closing] {room : Nat} {body : Exec Unit} {m' : Machine} {fault : Fault}
    {env : Env} (hbody : body ⟨m.env.push, m.printed⟩ = .error fault m')
    (hclosed : ¬ StaysOpen room fault) (hpop : m'.env.pop? = some env) :
    inScope room body m = .error fault ⟨env, m'.printed⟩ := by
  simp only [inScope, hbody, if_neg hclosed, hpop]

/-- What the condition and the body of a loop keep, the loop keeps. -/
theorem ends_whileLoop (inv : Machine → Prop) {condition : Eval Int} {body : Exec Unit}
    (hcondition : ∀ m, inv m → Ends (eval condition) m (fun _ => inv) fail)
    (hbody : ∀ m, inv m → Ends body m (fun _ => inv) fail)
    (hrounds : ∀ m, inv m → fail .outOfRounds m) (rounds : Nat) (hm : inv m) :
    Ends (whileLoop condition body rounds) m (fun _ => inv) fail := by
  induction rounds generalizing m with
  | zero => exact ends_throw.2 (hrounds m hm)
  | succ rounds ih =>
      rw [whileLoop, ends_bind]
      refine (hcondition m hm).imp (fun v m' hm' => ?_) (fun _ _ h => h)
      by_cases hv : v ≠ 0
      · rw [if_pos hv, ends_bind]
        exact (hbody m' hm').imp (fun _ _ h => ih h) (fun _ _ h => h)
      · rw [if_neg hv]
        exact hm'

/-- An invariant of a sequence of statements speaks of the statements that are left. -/
theorem ends_sequence (inv : List Node → Machine → Prop) {statement : Node → Exec Unit}
    (hstep : ∀ s rest m, inv (s :: rest) m → Ends (statement s) m (fun _ => inv rest) fail)
    {ss : List Node} (hm : inv ss m) :
    Ends (sequence statement ss) m (fun _ => inv []) fail := by
  induction ss generalizing m with
  | nil => exact hm
  | cons s rest ih =>
      rw [sequence, ends_bind]
      exact (hstep s rest m hm).imp (fun _ _ h => ih h) (fun _ _ h => h)

/-- What each statement of a kind keeps, a sequence of such statements keeps. -/
theorem ends_sequence_of (inv : Machine → Prop) {statement : Node → Exec Unit}
    {kind : Node → Prop}
    (hstep : ∀ s m, kind s → inv m → Ends (statement s) m (fun _ => inv) fail)
    {ss : List Node} (hss : ∀ s ∈ ss, kind s) (hm : inv m) :
    Ends (sequence statement ss) m (fun _ => inv) fail := by
  have hsequence : Ends (sequence statement ss) m
      (fun _ m' => (∀ s ∈ ([] : List Node), kind s) ∧ inv m') fail := by
    refine ends_sequence (fun rest m' => (∀ s ∈ rest, kind s) ∧ inv m') ?_ ⟨hss, hm⟩
    rintro s rest m' ⟨hrest, hm'⟩
    obtain ⟨hs, hrest⟩ := List.forall_mem_cons.1 hrest
    exact (hstep s m' hs hm').imp (fun _ _ h => ⟨hrest, h⟩) (fun _ _ h => h)
  exact hsequence.imp (fun _ _ h => h.2) (fun _ _ h => h)

/-- Statements in two parts: the second part starts where the first ends. -/
theorem ends_sequence_append {statement : Node → Exec Unit} {ss more : List Node} :
    Ends (sequence statement (ss ++ more)) m ok fail ↔
      Ends (sequence statement ss) m
        (fun _ mid => Ends (sequence statement more) mid ok fail) fail := by
  induction ss generalizing m with
  | nil => exact Iff.rfl
  | cons s ss ih =>
      rw [List.cons_append, sequence, sequence, ends_bind, ends_bind]
      simp only [ih]

/-- Statements run in order up to the first that fails, if one does. -/
theorem sequence_split (statement : Node → Exec Unit) (ss : List Node) (m : Machine) :
    ∃ done rest mid, ss = done ++ rest ∧ sequence statement done m = .ok () mid ∧
      (rest = [] ∧ sequence statement ss m = .ok () mid ∨
        ∃ s rest' fault m', rest = s :: rest' ∧ statement s mid = .error fault m' ∧
          sequence statement ss m = .error fault m') := by
  induction ss generalizing m with
  | nil => exact ⟨[], [], m, rfl, rfl, .inl ⟨rfl, rfl⟩⟩
  | cons s ss ih =>
      cases hs : statement s m with
      | error fault m' =>
          exact ⟨[], s :: ss, m, rfl, rfl, .inr ⟨s, ss, fault, m', rfl, hs, bind_of_error hs⟩⟩
      | ok u mid =>
          obtain ⟨done, rest, last, rfl, hdone, hrest⟩ := ih mid
          refine ⟨s :: done, rest, last, rfl, (bind_of_ok hs).trans hdone, ?_⟩
          rw [show sequence statement (s :: (done ++ rest)) m =
            sequence statement (done ++ rest) mid from bind_of_ok hs]
          exact hrest

/-- A declaration ends as its initializer does. -/
theorem execute_letStmt [Closing] (rounds room : Nat) (line : Int) (x : String) (e : Node)
    (m : Machine) :
    execute rounds (room + 1) (.letStmt line x e) m =
      match Eval.evaluate room e m.env with
      | .ok v env => .ok () ⟨env.define x v, m.printed⟩
      | .error fault env => .error fault ⟨env, m.printed⟩ := by
  cases h : Eval.evaluate room e m.env with
  | ok v env =>
      have heval : eval (Eval.evaluate room e) m = .ok v ⟨env, m.printed⟩ := by rw [eval, h]
      exact bind_of_ok heval
  | error fault env =>
      have heval : eval (Eval.evaluate room e) m = .error fault ⟨env, m.printed⟩ := by
        rw [eval, h]
      exact bind_of_error heval

/-- A conditional ends as one of its branches does, or does nothing after its condition. -/
theorem ends_ifStmt [Closing] {rounds room : Nat} {line : Int} {c : Node} {thenBranch : List Node}
    {elseBranch : Option (List Node)}
    (h : Ends (eval (Eval.evaluate room c)) m (fun _ mid =>
      Ends (block rounds room thenBranch) mid ok fail ∧
        (∀ body, elseBranch = some body → Ends (block rounds room body) mid ok fail) ∧
        (elseBranch = none → ok () mid)) fail) :
    Ends (execute rounds (room + 1) (.ifStmt line c thenBranch elseBranch)) m ok fail := by
  refine ends_bind.2 (h.imp (fun v mid hmid => ?_) (fun _ _ h => h))
  obtain ⟨hthen, helse, hnone⟩ := hmid
  by_cases hv : v ≠ 0
  · rw [if_pos hv]
    exact hthen
  · rw [if_neg hv]
    cases elseBranch with
    | some body => exact helse body rfl
    | none => exact hnone rfl

end Exec

end RillLang
