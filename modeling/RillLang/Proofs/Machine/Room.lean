import RillLang.Proofs.Machine.Balance

/-!
# More room changes nothing that was run

The room only decides whether a run is cut short.  A run that does not use up its room ends
the same way with any larger room: with the same value or fault, the same prints and the same
scopes.  And one that does has printed a part of what it prints with any larger room.

* `Eval.evaluate_agrees` — expressions.
* `Exec.sequence_cutShort` — statements in order.

A block that is cut short closes its scope or leaves it open, and it is still because of the room
that it stops.  That rests on the balance of scopes: the scope is there to be closed.  With more
room a block may close a scope that it would have left open, but only a run that stops for want of
room leaves any.
-/

namespace RillLang

open Ending

/-! ## Expressions -/

namespace Eval

theorem fold_agrees {operand operand' : Node → Eval Int}
    (h : ∀ e, AgreesUnless .nestingTooDeep (operand e) (operand' e)) (links : List Link)
    (left : Int) :
    AgreesUnless .nestingTooDeep (fold operand links left) (fold operand' links left) := by
  induction links generalizing left with
  | nil => exact agreesUnless_refl _
  | cons link links ih =>
      exact (h link.2).bind fun _ => (agreesUnless_refl _).bind ih

theorem evaluate_and_chain_agree (room more : Nat) :
    (∀ e, AgreesUnless .nestingTooDeep (evaluate room e) (evaluate (room + more) e)) ∧
      ∀ e, AgreesUnless .nestingTooDeep (chain room e) (chain (room + more) e) := by
  induction room with
  | zero => exact ⟨fun e => agreesUnless_throw _, fun e => agreesUnless_throw _⟩
  | succ room ih =>
      obtain ⟨hevaluate, hchain⟩ := ih
      rw [Nat.add_right_comm room 1 more]
      refine ⟨fun e => ?_, fun e => ?_⟩
      · cases e with
        | assign line x e => exact (hevaluate e).bind fun _ => agreesUnless_refl _
        | unary line op e => exact (hevaluate e).bind fun _ => agreesUnless_refl _
        | binary line op l r => exact hchain (.binary line op l r)
        | _ => exact agreesUnless_refl _
      · exact (hevaluate _).bind (fold_agrees hevaluate _)

/-- With more room an evaluation goes on where it was cut short, and is otherwise the same. -/
theorem evaluate_agrees (room more : Nat) (e : Node) :
    AgreesUnless .nestingTooDeep (evaluate room e) (evaluate (room + more) e) :=
  (evaluate_and_chain_agree room more).1 e

end Eval

/-! ## Statements and blocks -/

/-- The integers a machine has printed. -/
def Machine.log (m : Machine) : List Int := m.printed.toList

namespace Exec

/-! ### What is printed stays printed -/

theorem eval_appends {α : Type} (c : Eval α) : Appends Machine.log (eval c) := by
  intro m
  refine (eval_printed c m).imp fun m' hm' => ?_
  have hlog : m'.log = m.log := congrArg Array.toList hm'
  exact hlog ▸ List.prefix_refl m.log

theorem define_appends (x : String) (v : Int) : Appends Machine.log (define x v) :=
  fun m => List.prefix_refl m.log

theorem print_appends (v : Int) : Appends Machine.log (print v) := by
  intro m
  show m.log <+: (m.printed.push v).toList
  rw [Array.toList_push]
  exact List.prefix_append _ _

/-- To close a scope, or to leave it open, prints nothing. -/
theorem leaves_inScope_log [Closing] {room : Nat} {body : Exec Unit} {m : Machine}
    {printed : List Int}
    (h : Leaves body ⟨m.env.push, m.printed⟩ fun m' => printed <+: m'.log) :
    Leaves (inScope room body) m fun m' => printed <+: m'.log := by
  refine ends_inScope.2 (h.ends (fun _ m' hm' => ?_) (fun fault m' hm' => ?_))
  · cases m'.env.pop? with
    | some env => exact hm'
    | none => exact hm'
  · by_cases hopen : StaysOpen room fault
    · rw [if_pos hopen]
      exact hm'
    · rw [if_neg hopen]
      cases m'.env.pop? with
      | some env => exact hm'
      | none => exact hm'

theorem inScope_appends [Closing] {room : Nat} {body : Exec Unit} (h : Appends Machine.log body) :
    Appends Machine.log (inScope room body) :=
  fun m => leaves_inScope_log (h ⟨m.env.push, m.printed⟩)

theorem whileLoop_appends {condition : Eval Int} {body : Exec Unit}
    (h : Appends Machine.log body) (rounds : Nat) :
    Appends Machine.log (whileLoop condition body rounds) := by
  intro m
  refine ends_whileLoop (fun m' => m.log <+: m'.log) ?_ ?_ (fun _ hm' => hm') rounds
    (List.prefix_refl _)
  · exact fun m' hm' => (eval_appends condition m').imp fun _ hafter => hm'.trans hafter
  · exact fun m' hm' => (h m').imp fun _ hafter => hm'.trans hafter

theorem sequence_appends {statement : Node → Exec Unit}
    (h : ∀ s, Appends Machine.log (statement s)) (ss : List Node) :
    Appends Machine.log (sequence statement ss) := by
  induction ss with
  | nil => exact appends_pure ()
  | cons s ss ih => exact (h s).bind fun _ => ih

/-! ### Parts that are cut short -/

section Parts

variable {cut : Fault} {condition condition' : Eval Int} {body body' : Exec Unit}

/-- Evaluation prints nothing, so what was printed before it is all that is printed. -/
theorem eval_cutShort {α : Type} {c c' : Eval α} (h : AgreesUnless cut c c') :
    CutShort cut Machine.log (eval c) (eval c') := by
  refine ⟨eval_appends c', fun m => ?_⟩
  rcases h m.env with heq | ⟨env, hcut⟩
  · exact .inl (by rw [eval, eval, heq])
  · exact .inr ⟨⟨env, m.printed⟩, by rw [eval, hcut], eval_appends c' m⟩

/-- A scope whose body is cut short is closed before the reason is passed on, or stays open and
gives another. -/
theorem exists_inScope_of_error [Closing] (room : Nat) {m mid : Machine} {fault : Fault}
    (hbody : body ⟨m.env.push, m.printed⟩ = .error fault mid)
    (hpop : ∃ env, mid.env.pop? = some env) :
    ∃ env, inScope room body m =
      .error (if StaysOpen room fault then .nestingTooDeep else fault) ⟨env, mid.printed⟩ := by
  by_cases hopen : StaysOpen room fault
  · rw [if_pos hopen]
    exact ⟨mid.env, inScope_of_staysOpen hbody hopen⟩
  · rw [if_neg hopen]
    obtain ⟨env, hpop⟩ := hpop
    exact ⟨env, inScope_of_error hbody hopen hpop⟩

/-- Scopes whose bodies end the same end the same themselves, unless there is room to close only
the second one. -/
theorem inScope_eq_or_staysOpen [Closing] {room room' : Nat} (hle : room ≤ room') {m : Machine}
    (heq : body ⟨m.env.push, m.printed⟩ = body' ⟨m.env.push, m.printed⟩) :
    inScope room body m = inScope room' body' m ∨
      ∃ fault mid, body' ⟨m.env.push, m.printed⟩ = .error fault mid ∧ StaysOpen room fault ∧
        ¬ StaysOpen room' fault := by
  cases hbody' : body' ⟨m.env.push, m.printed⟩ with
  | ok u mid => exact .inl (by rw [inScope, inScope, heq, hbody'])
  | error fault mid =>
      have hbody := heq.trans hbody'
      by_cases hopen' : StaysOpen room' fault
      · have hopen : StaysOpen room fault := ⟨Nat.lt_of_le_of_lt hle hopen'.1, hopen'.2⟩
        exact .inl ((inScope_of_staysOpen hbody hopen).trans
          (inScope_of_staysOpen hbody' hopen').symm)
      · by_cases hopen : StaysOpen room fault
        · exact .inr ⟨fault, mid, rfl, hopen, hopen'⟩
        · exact .inl (by simp only [inScope, hbody, hbody', if_neg hopen, if_neg hopen'])

/-- A scope is cut short where its body is.  With less room it may also stay open where it would be
closed with more; that is to be cut short by the nesting limit, which is the only reason that is
compared for different rooms. -/
theorem inScope_cutShort [Closing] {room room' : Nat} (h : CutShort cut Machine.log body body')
    (hle : room ≤ room') (hcut : cut = .nestingTooDeep ∨ cut = .outOfRounds ∧ room = room')
    (hpop : ∀ m : Machine, Leaves body ⟨m.env.push, m.printed⟩
      (fun m' => ∃ env, m'.env.pop? = some env)) :
    CutShort cut Machine.log (inScope room body) (inScope room' body') := by
  refine ⟨inScope_appends h.appends, fun m => ?_⟩
  rcases h.ending ⟨m.env.push, m.printed⟩ with heq | ⟨mid, hstop, hmid⟩
  · rcases inScope_eq_or_staysOpen hle heq with hsame | ⟨fault, mid, hbody', hopen, hclosed⟩
    · exact .inl hsame
    · rcases hcut with rfl | ⟨-, rfl⟩
      · have hscope := inScope_of_staysOpen (heq.trans hbody') hopen
        refine .inr ⟨mid, hscope, leaves_inScope_log ?_⟩
        simp only [Leaves, Ends, hbody', List.prefix_refl]
      · exact absurd hopen hclosed
  · obtain ⟨env, hscope⟩ := exists_inScope_of_error room hstop ((hpop m).of_error hstop)
    have hfault : (if StaysOpen room cut then .nestingTooDeep else cut) = cut := by
      rcases hcut with rfl | ⟨rfl, -⟩
      · exact ite_self _
      · exact if_neg fun hopen => hopen.2 rfl
    rw [hfault] at hscope
    exact .inr ⟨⟨env, mid.printed⟩, hscope, leaves_inScope_log hmid⟩

/-- The second loop may have more rounds, if to want a round is to be cut short or there are no
more. -/
theorem whileLoop_cutShort (more : Nat)
    (hcondition : AgreesUnless cut condition condition')
    (hbody : CutShort cut Machine.log body body')
    (hmore : CutShort cut Machine.log (throw .outOfRounds) (whileLoop condition' body' more))
    (rounds : Nat) :
    CutShort cut Machine.log (whileLoop condition body rounds)
      (whileLoop condition' body' (rounds + more)) := by
  induction rounds with
  | zero =>
      rw [Nat.zero_add]
      exact hmore
  | succ rounds ih =>
      rw [Nat.add_right_comm]
      refine (eval_cutShort hcondition).bind fun v => ?_
      by_cases hv : v ≠ 0
      · rw [if_pos hv, if_pos hv]
        exact hbody.bind fun _ => ih
      · rw [if_neg hv, if_neg hv]
        exact cutShort_refl (appends_pure ())

theorem sequence_cutShort_of {statement statement' : Node → Exec Unit}
    (h : ∀ s, CutShort cut Machine.log (statement s) (statement' s)) (ss : List Node) :
    CutShort cut Machine.log (sequence statement ss) (sequence statement' ss) := by
  induction ss with
  | nil => exact cutShort_refl (appends_pure ())
  | cons s ss ih => exact (h s).bind fun _ => ih

/-- Statements are cut short when the expressions, the blocks and the last rounds of the loops
in them are. -/
theorem execute_cutShort_of [Closing] {rounds room room' : Nat} (more : Nat)
    (hevaluate : ∀ e, AgreesUnless cut (Eval.evaluate room e) (Eval.evaluate room' e))
    (hblock : ∀ ss, CutShort cut Machine.log (block rounds room ss)
      (block (rounds + more) room' ss))
    (hmore : ∀ condition {body}, Appends Machine.log body →
      CutShort cut Machine.log (throw .outOfRounds) (whileLoop condition body more)) (s : Node) :
    CutShort cut Machine.log (execute rounds (room + 1) s)
      (execute (rounds + more) (room' + 1) s) := by
  have heval (e : Node) := eval_cutShort (hevaluate e)
  cases s with
  | letStmt line x e => exact (heval e).bind fun v => cutShort_refl (define_appends x v)
  | printStmt line e => exact (heval e).bind fun v => cutShort_refl (print_appends v)
  | exprStmt line e => exact (heval e).bind fun _ => cutShort_refl (appends_pure ())
  | ifStmt line c t f =>
      refine (heval c).bind fun v => ?_
      by_cases hv : v ≠ 0
      · rw [if_pos hv, if_pos hv]
        exact hblock t
      · rw [if_neg hv, if_neg hv]
        cases f with
        | some body => exact hblock body
        | none => exact cutShort_refl (appends_pure ())
  | whileStmt line c body =>
      exact whileLoop_cutShort more (hevaluate c) (hblock body)
        (hmore _ (hblock body).appends) rounds
  | block line body => exact hblock body
  | _ => exact cutShort_refl (appends_throw _)

end Parts

section Execution

variable [Closing]

/-- Whatever is executed, what was printed stays printed. -/
theorem execute_and_block_append (rounds room : Nat) :
    (∀ s, Appends Machine.log (execute rounds room s)) ∧
      ∀ ss, Appends Machine.log (block rounds room ss) := by
  induction room with
  | zero => exact ⟨fun s => appends_throw _, fun ss => appends_throw _⟩
  | succ room ih =>
      obtain ⟨hexecute, hblock⟩ := ih
      refine ⟨fun s => ?_, fun ss => inScope_appends (sequence_appends hexecute ss)⟩
      -- a statement is itself, never cut short
      have hself : CutShort .nestingTooDeep Machine.log (execute rounds (room + 1) s)
          (execute rounds (room + 1) s) :=
        execute_cutShort_of 0 (fun _ => agreesUnless_refl _) (fun ss => cutShort_refl (hblock ss))
          (fun _ _ _ => cutShort_refl (appends_throw _)) s
      exact hself.appends

theorem execute_and_block_cutShort (rounds room more : Nat) :
    (∀ s, CutShort .nestingTooDeep Machine.log (execute rounds room s)
        (execute rounds (room + more) s)) ∧
      ∀ ss, CutShort .nestingTooDeep Machine.log (block rounds room ss)
        (block rounds (room + more) ss) := by
  induction room with
  | zero =>
      obtain ⟨hexecute, hblock⟩ := execute_and_block_append rounds (0 + more)
      exact ⟨fun s => cutShort_throw (hexecute s), fun ss => cutShort_throw (hblock ss)⟩
  | succ room ih =>
      obtain ⟨hexecute, hblock⟩ := ih
      rw [Nat.add_right_comm room 1 more]
      refine ⟨execute_cutShort_of 0 (Eval.evaluate_agrees room more) hblock
        fun _ _ _ => cutShort_refl (appends_throw _), fun ss => ?_⟩
      exact inScope_cutShort (sequence_cutShort_of hexecute ss) (Nat.le_add_right ..) (.inl rfl)
        (sequence_pop? (execute_and_block_names rounds room).1 ss)

theorem execute_and_block_agree (rounds room more : Nat) :
    (∀ s, AgreesUnless .nestingTooDeep (execute rounds room s)
        (execute rounds (room + more) s)) ∧
      ∀ ss, AgreesUnless .nestingTooDeep (block rounds room ss)
        (block rounds (room + more) ss) := by
  obtain ⟨hexecute, hblock⟩ := execute_and_block_cutShort rounds room more
  exact ⟨fun s => (hexecute s).agrees, fun ss => (hblock ss).agrees⟩

/-- With more room statements go on where they were cut short, and otherwise end the same. -/
theorem sequence_cutShort (rounds room more : Nat) (ss : List Node) :
    CutShort .nestingTooDeep Machine.log (sequence (execute rounds room) ss)
      (sequence (execute rounds (room + more)) ss) :=
  sequence_cutShort_of (execute_and_block_cutShort rounds room more).1 ss

theorem sequence_agrees (rounds room more : Nat) (ss : List Node) :
    AgreesUnless .nestingTooDeep (sequence (execute rounds room) ss)
      (sequence (execute rounds (room + more)) ss) :=
  (sequence_cutShort rounds room more ss).agrees

end Execution

end Exec

end RillLang
