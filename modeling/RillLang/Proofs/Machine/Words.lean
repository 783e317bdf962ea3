import Mathlib.Control.Monad.Basic
import RillLang.Proofs.Machine.Balance
import RillLang.Proofs.Tree.WellFormed

/-!
# Every value is a word

A program that comes from a text computes with words only, and stops early for one of
few reasons.  Nothing checks the range when a variable is declared or assigned or when a
value is printed: a literal of a text is a word, every operator gives a word, and a
variable holds what it was given.

* `Env.AllWords`, `Machine.AllWords` — every variable, and everything printed, is a word.
* `Fault.From` — the faults of a program whose names are among some tokens.
* `Exec.interpret_words` — a program keeps the one and ends with the other.
-/

namespace RillLang

open Ending Node

/-! ## Operators give words -/

theorem truth_inRange (p : Prop) [Decidable p] : Word.InRange (truth p) := by
  unfold truth
  split <;> decide

theorem BinaryOperator.apply_inRange {op : BinaryOperator} {l r v : Int}
    (h : op.apply l r = .ok v) : Word.InRange v := by
  cases op with
  | add | subtract | multiply =>
      cases h
      exact Word.wrap_inRange _
  | divide =>
      simp only [apply, Word.quotient?] at h
      by_cases hr : r = 0
      · simp [hr] at h
      · simp only [hr, if_false] at h
        cases h
        exact Word.wrap_inRange _
  | equal | notEqual | less | lessEqual | greater | greaterEqual =>
      cases h
      exact truth_inRange _

/-- The only fault of an operator is a division by zero. -/
theorem BinaryOperator.apply_fault {op : BinaryOperator} {l r : Int} {fault : Fault}
    (h : op.apply l r = .error fault) : fault = .divisionByZero := by
  cases op with
  | divide =>
      simp only [apply] at h
      split at h
      · cases h
      · cases h
        rfl
  | _ => cases h

theorem applyUnary_inRange {op : Option Operator} {v w : Int} (h : applyUnary op v = .ok w) :
    Word.InRange w := by
  unfold applyUnary at h
  split at h
  case h_1 =>
    cases h
    exact Word.wrap_inRange _
  case h_2 => cases h

theorem applyBinary_inRange {op : Option Operator} {l r w : Int}
    (h : applyBinary op l r = .ok w) : Word.InRange w := by
  unfold applyBinary at h
  split at h
  case h_1 op => exact op.apply_inRange h
  case h_2 => cases h

/-! ## Environments of words -/

/-- Every value of a scope is a word. -/
def Scope.AllWords (scope : Scope) : Prop := ∀ b ∈ scope, Word.InRange b.2

theorem Scope.AllWords.get? {scope : Scope} (h : scope.AllWords) {x : String} {v : Int}
    (hget : scope.get? x = some v) : Word.InRange v := by
  induction scope with
  | nil => cases hget
  | cons b rest ih =>
      obtain ⟨y, w⟩ := b
      obtain ⟨hw, hrest⟩ := List.forall_mem_cons.1 h
      rw [Scope.get?] at hget
      by_cases hy : y = x
      · rw [if_pos hy] at hget
        cases hget
        exact hw
      · rw [if_neg hy] at hget
        exact ih hrest hget

theorem Scope.AllWords.set {scope : Scope} (h : scope.AllWords) (x : String) {v : Int}
    (hv : Word.InRange v) : (scope.set x v).AllWords := by
  induction scope with
  | nil => exact List.forall_mem_singleton.2 hv
  | cons b rest ih =>
      obtain ⟨y, w⟩ := b
      obtain ⟨hw, hrest⟩ := List.forall_mem_cons.1 h
      rw [Scope.set]
      by_cases hy : y = x
      · rw [if_pos hy]
        exact List.forall_mem_cons.2 ⟨hv, hrest⟩
      · rw [if_neg hy]
        exact List.forall_mem_cons.2 ⟨hw, ih hrest⟩

namespace Env

/-- Every value of every scope is a word. -/
def AllWords (env : Env) : Prop := ∀ scope ∈ env.scopes, scope.AllWords

theorem allWords_empty : empty.AllWords := List.forall_mem_singleton.2 (List.forall_mem_nil _)

theorem AllWords.push {env : Env} (h : env.AllWords) : env.push.AllWords :=
  List.forall_mem_cons.2 ⟨List.forall_mem_nil _, h⟩

theorem AllWords.pop? {env env' : Env} (h : env.AllWords) (hpop : env.pop? = some env') :
    env'.AllWords := by
  obtain ⟨inner, outer⟩ := env
  cases outer with
  | nil => cases hpop
  | cons scope rest =>
      cases hpop
      exact (List.forall_mem_cons.1 h).2

theorem AllWords.define {env : Env} (h : env.AllWords) (x : String) {v : Int}
    (hv : Word.InRange v) : (env.define x v).AllWords := by
  obtain ⟨hinner, houter⟩ := List.forall_mem_cons.1 h
  exact List.forall_mem_cons.2 ⟨hinner.set x hv, houter⟩

theorem inRange_of_getIn? {scopes : List Scope} {x : String} {v : Int}
    (h : ∀ scope ∈ scopes, scope.AllWords) (hget : getIn? scopes x = some v) :
    Word.InRange v := by
  induction scopes with
  | nil => cases hget
  | cons scope rest ih =>
      obtain ⟨hscope, hrest⟩ := List.forall_mem_cons.1 h
      rw [getIn?] at hget
      cases hx : scope.get? x with
      | some w =>
          rw [hx] at hget
          cases hget
          exact hscope.get? hx
      | none =>
          rw [hx] at hget
          exact ih hrest hget

theorem AllWords.get? {env : Env} (h : env.AllWords) {x : String} {v : Int}
    (hget : env.get? x = some v) : Word.InRange v :=
  inRange_of_getIn? h hget

theorem allWords_of_assignIn? {scopes scopes' : List Scope} {x : String} {v : Int}
    (h : ∀ scope ∈ scopes, scope.AllWords) (hv : Word.InRange v)
    (hassign : assignIn? scopes x v = some scopes') : ∀ scope ∈ scopes', scope.AllWords := by
  induction scopes generalizing scopes' with
  | nil => cases hassign
  | cons scope rest ih =>
      obtain ⟨hscope, hrest⟩ := List.forall_mem_cons.1 h
      rw [assignIn?] at hassign
      cases hx : scope.get? x with
      | some w =>
          rw [hx] at hassign
          cases hassign
          exact List.forall_mem_cons.2 ⟨hscope.set x hv, hrest⟩
      | none =>
          rw [hx] at hassign
          obtain ⟨rest', hrest', rfl⟩ := Option.map_eq_some_iff.1 hassign
          exact List.forall_mem_cons.2 ⟨hscope, ih hrest hrest'⟩

theorem AllWords.assign? {env env' : Env} (h : env.AllWords) {x : String} {v : Int}
    (hv : Word.InRange v) (hassign : env.assign? x v = some env') : env'.AllWords := by
  unfold Env.assign? at hassign
  split at hassign
  case h_1 inner outer hscopes =>
    cases hassign
    exact allWords_of_assignIn? h hv hscopes
  case h_2 => cases hassign

end Env

/-! ## Expressions -/

/-- The faults of a program whose names are among the tokens. -/
inductive Fault.From (tokens : List Token) : Fault → Prop
  | undefinedVariable {x : String} : NamedIn tokens x → From tokens (.undefinedVariable x)
  | divisionByZero : From tokens .divisionByZero
  | nestingTooDeep : From tokens .nestingTooDeep
  | outOfRounds : From tokens .outOfRounds

namespace Eval

/-- The contract of expressions that compute with words. -/
def words (tokens : List Token) : Contract where
  expr := ExprFrom tokens
  env := Env.AllWords
  value := Word.InRange
  fault := Fault.From tokens

variable {tokens : List Token}

theorem words_get {x : String} (hx : NamedIn tokens x) : (words tokens).Keeps (get x) :=
  fun _ henv => ends_get (fun _ hget => ⟨henv.get? hget, henv⟩)
    (fun _ => ⟨.undefinedVariable hx, henv⟩)

theorem words_assign {x : String} (hx : NamedIn tokens x) {v : Int} (hv : Word.InRange v) :
    (words tokens).Keeps (do assign x v; return v) := by
  intro env henv
  rw [ends_bind]
  refine ends_assign (fun env' hassign => ?_) (fun _ => ⟨.undefinedVariable hx, henv⟩)
  exact ⟨hv, henv.assign? hv hassign⟩

theorem words_applyUnary (v : Int) :
    (words tokens).Keeps (ofExcept (applyUnary (some .negate) v)) :=
  Contract.keeps_ofExcept (fun _ => applyUnary_inRange) (fun fault hfault => by cases hfault)

theorem words_applyBinary (op : BinaryOperator) (v w : Int) :
    (words tokens).Keeps (ofExcept (applyBinary (some (.binary op)) v w)) := by
  refine Contract.keeps_ofExcept (fun _ => applyBinary_inRange) (fun fault hfault => ?_)
  rw [op.apply_fault hfault]
  exact .divisionByZero

theorem words_sound (tokens : List Token) : (words tokens).Sound where
  nestingTooDeep := .nestingTooDeep
  literal := by
    intro line v he
    obtain ⟨hnonneg, hle⟩ := exprFrom_literal.1 he
    exact ⟨Int.le_trans (by decide) hnonneg, hle⟩
  reference := fun he => words_get (exprFrom_reference.1 he).2
  assign := by
    intro line x e he
    obtain ⟨-, hx, hsub⟩ := exprFrom_assign.1 he
    exact ⟨hsub, fun v hv => words_assign hx hv⟩
  unary := by
    intro line op e he
    obtain ⟨rfl, hsub⟩ := exprFrom_unary.1 he
    exact ⟨hsub, fun v _ => words_applyUnary v⟩
  binary := by
    intro line op l r he
    obtain ⟨⟨b, rfl⟩, hl, hr⟩ := exprFrom_binary.1 he
    exact ⟨hl, hr, fun v w _ _ => words_applyBinary b v w⟩
  other := by
    rintro e ⟨hwf, -⟩ hexpr
    cases hwf <;> cases hexpr

end Eval

/-! ## Statements and blocks -/

/-- Every variable of the machine, and everything it has printed, is a word. -/
def Machine.AllWords (m : Machine) : Prop :=
  m.env.AllWords ∧ ∀ v ∈ m.printed.toList, Word.InRange v

namespace Exec

variable {tokens : List Token}

/-- However the computation ends, the machine has words only, and a fault is one of a
program whose names are among the tokens. -/
def KeepsWords (tokens : List Token) (c : Exec Unit) (m : Machine) : Prop :=
  Ends c m (fun _ m' => m'.AllWords) (fun fault m' => fault.From tokens ∧ m'.AllWords)

theorem eval_words {e : Node} (he : e.ExprFrom tokens) (room : Nat) {m : Machine}
    (hm : m.AllWords) :
    Ends (eval (Eval.evaluate room e)) m (fun v m' => Word.InRange v ∧ m'.AllWords)
      (fun fault m' => fault.From tokens ∧ m'.AllWords) :=
  ends_eval.2 (((Eval.words_sound tokens).evaluate he room m.env hm.1).imp
    (fun _ _ h => ⟨h.1, h.2, hm.2⟩) (fun _ _ h => ⟨h.1, h.2, hm.2⟩))

theorem print_words {v : Int} (hv : Word.InRange v) {m : Machine} (hm : m.AllWords) :
    KeepsWords tokens (print v) m := by
  refine ends_print.2 ⟨hm.1, ?_⟩
  rw [Array.toList_push]
  exact List.forall_mem_append.2 ⟨hm.2, List.forall_mem_singleton.2 hv⟩

/-- A scope keeps to words when its body does, whether it is closed, as it can be when its body is
balanced, or stays open. -/
theorem inScope_words [Closing] {room : Nat} {body : Exec Unit} {m : Machine}
    (hpop : Leaves body ⟨m.env.push, m.printed⟩ (fun m' => ∃ env, m'.env.pop? = some env))
    (h : KeepsWords tokens body ⟨m.env.push, m.printed⟩) :
    KeepsWords tokens (inScope room body) m := by
  refine ends_inScope.2 ((Ends.and h hpop).imp ?_ ?_)
  · rintro u m' ⟨hwords, env, hpop⟩
    rw [hpop]
    exact ⟨hwords.1.pop? hpop, hwords.2⟩
  · rintro fault m' ⟨⟨hfault, hwords⟩, env, hpop⟩
    by_cases hopen : StaysOpen room fault
    · rw [if_pos hopen]
      exact ⟨.nestingTooDeep, hwords⟩
    · rw [if_neg hopen, hpop]
      exact ⟨hfault, hwords.1.pop? hpop, hwords.2⟩

theorem sequence_words {statement : Node → Exec Unit}
    (h : ∀ s m, s.StmtFrom tokens → m.AllWords → KeepsWords tokens (statement s) m)
    {ss : List Node} (hss : ListFrom tokens ss) {m : Machine} (hm : m.AllWords) :
    KeepsWords tokens (sequence statement ss) m := by
  have hsequence : Ends (sequence statement ss) m
      (fun _ m' => ListFrom tokens [] ∧ m'.AllWords)
      (fun fault m' => fault.From tokens ∧ m'.AllWords) := by
    refine ends_sequence (fun rest m' => ListFrom tokens rest ∧ m'.AllWords) ?_ ⟨hss, hm⟩
    rintro s rest m' ⟨hlist, hm'⟩
    obtain ⟨hs, hrest⟩ := listFrom_cons.1 hlist
    exact (h s m' hs hm').imp (fun _ _ hend => ⟨hrest, hend⟩) (fun _ _ hend => hend)
  exact hsequence.imp (fun _ _ hend => hend.2) (fun _ _ hend => hend)

/-- Statements and blocks of a program text keep to words. -/
theorem execute_and_block_words [Closing] (tokens : List Token) (rounds room : Nat) :
    (∀ s m, s.StmtFrom tokens → m.AllWords → KeepsWords tokens (execute rounds room s) m) ∧
      ∀ ss m, ListFrom tokens ss → m.AllWords → KeepsWords tokens (block rounds room ss) m := by
  induction room with
  | zero => exact ⟨fun _ _ _ hm => ⟨.nestingTooDeep, hm⟩, fun _ _ _ hm => ⟨.nestingTooDeep, hm⟩⟩
  | succ room ih =>
      obtain ⟨hexecute, hblock⟩ := ih
      refine ⟨fun s m hs hm => ?_, fun ss m hss hm => ?_⟩
      · cases s with
        | letStmt line x e =>
            obtain ⟨-, -, he⟩ := stmtFrom_letStmt.1 hs
            refine ends_bind.2 ((eval_words he room hm).imp (fun v m' h => ?_) (fun _ _ h => h))
            exact ends_define.2 ⟨h.2.1.define x h.1, h.2.2⟩
        | printStmt line e =>
            have he := stmtFrom_printStmt.1 hs
            refine ends_bind.2 ((eval_words he room hm).imp (fun v m' h => ?_) (fun _ _ h => h))
            exact print_words h.1 h.2
        | exprStmt line e =>
            have he := stmtFrom_exprStmt.1 hs
            refine ends_bind.2 ((eval_words he room hm).imp (fun v m' h => ?_) (fun _ _ h => h))
            exact ends_pure.2 h.2
        | ifStmt line c t f =>
            obtain ⟨hc, ht, hf⟩ := stmtFrom_ifStmt.1 hs
            refine ends_ifStmt ((eval_words hc room hm).imp (fun v mid h => ?_) (fun _ _ h => h))
            exact ⟨hblock t mid ht h.2, fun body hbody => hblock body mid (hf body hbody) h.2,
              fun _ => h.2⟩
        | whileStmt line c b =>
            obtain ⟨hc, hb⟩ := stmtFrom_whileStmt.1 hs
            exact ends_whileLoop Machine.AllWords
              (fun m' hm' => (eval_words hc room hm').imp (fun _ _ h => h.2) (fun _ _ h => h))
              (fun m' hm' => hblock b m' hb hm') (fun m' hm' => ⟨.outOfRounds, hm'⟩) rounds hm
        | block line b => exact hblock b m (stmtFrom_block.1 hs) hm
        | _ => cases hs.1
      · have hpop := sequence_pop? (execute_and_block_names rounds room).1 ss m
        exact inScope_words hpop (sequence_words hexecute hss ⟨hm.1.push, hm.2⟩)

/-- A program of a text keeps to words. -/
theorem interpret_words [Closing] {p : Program} (hp : ListFrom tokens p.statements) {m : Machine}
    (hm : m.AllWords) (limit rounds : Nat) : KeepsWords tokens (p.interpret limit rounds) m :=
  sequence_words (execute_and_block_words tokens rounds limit).1 hp hm

end Exec

/-! ## Programs of texts -/

theorem Env.AllWords.machine {env : Env} (h : env.AllWords) : Machine.AllWords ⟨env, #[]⟩ :=
  ⟨h, List.forall_mem_nil _⟩

/-- **A text that parses never reaches an internal error.**  Its program is well formed, and
on an environment of words a run that ends early, other than by running out of rounds, ends
with a division by zero, at the nesting limit, or with an undefined variable that is an
identifier of the text. -/
theorem interpret_fault_of_scan [Closing] {source : String} {tokens : List Token} {p : Program}
    {limit : Nat} (hscan : Token.scan source = .ok tokens)
    (hparse : Program.ofTokens limit tokens = .ok p) :
    p.WellFormed ∧
      ∀ (env : Env), env.AllWords → ∀ (room rounds : Nat) (fault : Fault) (m : Machine),
        p.interpret room rounds ⟨env, #[]⟩ = .error fault m → fault ≠ .outOfRounds →
          fault.isProgramFault = true ∧
            (fault = .divisionByZero ∧ fault.message = "Division by zero" ∨
              fault = .nestingTooDeep ∧ fault.message = "Nesting too deep" ∨
              ∃ x line, Token.identifier x line ∈ tokens ∧ fault = .undefinedVariable x ∧
                fault.message = "Undefined variable '" ++ x ++ "'") := by
  have hlist := Program.listFrom_of_scan hscan hparse
  refine ⟨hlist.1, fun env henv room rounds fault m herror hrounds => ?_⟩
  obtain ⟨hfault, -⟩ := (Exec.interpret_words hlist henv.machine room rounds).of_error herror
  cases hfault with
  | undefinedVariable hx =>
      obtain ⟨line, hmem⟩ := hx
      exact ⟨rfl, .inr (.inr ⟨_, line, hmem, rfl, rfl⟩)⟩
  | divisionByZero => exact ⟨rfl, .inl ⟨rfl, rfl⟩⟩
  | nestingTooDeep => exact ⟨rfl, .inr (.inl ⟨rfl, rfl⟩)⟩
  | outOfRounds => exact absurd rfl hrounds

/-- A loop that counts a variable of the environment down to zero, and after it a name
that is bound nowhere: the run ends with the message for that name. -/
theorem interpret_fault_after_countdown :
    let tokens := [Token.mark .whileWord 1, .mark .leftParen 1, .identifier "n" 1,
      .mark .rightParen 1, .mark .leftBrace 1, .identifier "n" 1, .mark .equal 1,
      .identifier "n" 1, .mark .minus 1, .number 1 1, .mark .semicolon 1, .mark .rightBrace 1,
      .identifier "m" 2, .mark .semicolon 2, .endOfInput 2]
    let p : Program := ⟨[.whileStmt 1 (.reference 1 "n") [.exprStmt 1 (.assign 1 "n"
      (.binary 1 (some (.binary .subtract)) (.reference 1 "n") (.literal 1 1)))],
      .exprStmt 2 (.reference 2 "m")]⟩
    let env : Env := ⟨[("n", 2)], []⟩
    Token.scan "while (n) \x7b n = n - 1; \x7d\nm;" = .ok tokens ∧
      Program.ofTokens 20 tokens = .ok p ∧ env.AllWords ∧
      p.interpret 10 3 ⟨env, #[]⟩ = .error (.undefinedVariable "m") ⟨⟨[("n", 0)], []⟩, #[]⟩ ∧
      p.WellFormed ∧ ∃ x line, Token.identifier x line ∈ tokens ∧
        Fault.message (.undefinedVariable "m") = "Undefined variable '" ++ x ++ "'" := by
  intro tokens p env
  have hscan : Token.scan "while (n) \x7b n = n - 1; \x7d\nm;" = .ok tokens := by decide +kernel
  have hparse : Program.ofTokens 20 tokens = .ok p := rfl
  have henv : env.AllWords := by simp [env, Env.AllWords, Env.scopes, Scope.AllWords]; decide
  have hrun : p.interpret 10 3 ⟨env, #[]⟩ =
      .error (.undefinedVariable "m") ⟨⟨[("n", 0)], []⟩, #[]⟩ := rfl
  obtain ⟨hwf, hfaults⟩ := interpret_fault_of_scan hscan hparse
  refine ⟨hscan, hparse, henv, hrun, hwf, ?_⟩
  obtain ⟨-, ⟨h, -⟩ | ⟨h, -⟩ | ⟨x, line, hmem, -, hmessage⟩⟩ :=
    hfaults env henv 10 3 _ _ hrun (by decide)
  · cases h
  · cases h
  · exact ⟨x, line, hmem, hmessage⟩

end RillLang
