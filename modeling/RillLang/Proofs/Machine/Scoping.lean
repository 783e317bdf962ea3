import RillLang.Proofs.Machine.Balance
import RillLang.Tree.Names

/-!
# Declared names are found

A program that declares each name before it uses it never stops because of an undefined
variable, if the names it starts from are bound (`interpret_ne_undefinedVariable`).

The context of names in effect is static and the scopes are dynamic.  `Env.Binds` relates
the two: every name of the context has a value.  Evaluation and blocks keep all names where
they are, so they keep the relation, and a declaration extends both sides by its name
(`Exec.binds_declares`).  What is left to show is that no part stops at a name of its
context.
-/

namespace RillLang

open Ending

/-- The fault is not an undefined variable. -/
def Fault.NamesFound (fault : Fault) : Prop := ∀ x, fault ≠ .undefinedVariable x

/-! ## Expressions -/

theorem applyUnary_namesFound {op : Option Operator} {v : Int} {fault : Fault}
    (h : applyUnary op v = .error fault) : fault.NamesFound := by
  intro x hx
  subst hx
  unfold applyUnary at h
  split at h <;> cases h

theorem applyBinary_namesFound {op : Option Operator} {v w : Int} {fault : Fault}
    (h : applyBinary op v w = .error fault) : fault.NamesFound := by
  intro x hx
  subst hx
  unfold applyBinary at h
  split at h
  case h_1 op =>
    -- the only operator that can fail is the division
    cases op with
    | divide =>
        simp only [BinaryOperator.apply] at h
        split at h <;> cases h
    | _ => cases h
  case h_2 => cases h

namespace Eval

/-- The contract of expressions that use names of a context only. -/
def findsNames (context : List String) : Contract where
  expr := Node.ExprUses context
  env := (·.Binds context)
  value := fun _ => True
  fault := Fault.NamesFound

theorem keeps_get {context : List String} {x : String} (hx : x ∈ context) :
    (findsNames context).Keeps (get x) := by
  intro env henv
  refine ends_get (fun v _ => ⟨trivial, henv⟩) (fun hnone => ?_)
  have hsome := henv x hx
  rw [hnone] at hsome
  cases hsome

theorem keeps_assign {context : List String} {x : String} (hx : x ∈ context) (v : Int) :
    (findsNames context).Keeps (do assign x v; return v) := by
  intro env henv
  rw [ends_bind]
  refine ends_assign (fun env' hassign => ?_) (fun hnone => ?_)
  · exact ⟨trivial, henv.of_names (Env.names_of_assign? hassign)⟩
  · have hsome := henv x hx
    rw [← Env.isSome_assign? env x v, hnone] at hsome
    cases hsome

theorem findsNames_sound (context : List String) : (findsNames context).Sound where
  nestingTooDeep := fun x => by rintro ⟨⟩
  literal := fun _ => trivial
  reference := fun hx => keeps_get hx
  assign := fun hx => ⟨hx.2, fun v _ => keeps_assign hx.1 v⟩
  unary := fun he => ⟨he, fun v _ =>
    Contract.keeps_ofExcept (fun _ _ => trivial) (fun _ => applyUnary_namesFound)⟩
  binary := fun he => ⟨he.1, he.2, fun v w _ _ =>
    Contract.keeps_ofExcept (fun _ _ => trivial) (fun _ => applyBinary_namesFound)⟩
  other := fun _ _ x => by rintro ⟨⟩

end Eval

/-! ## Statements and blocks -/

namespace Exec

/-- If the computation stops, it is not because of an undefined variable. -/
def Safe (c : Exec Unit) (m : Machine) : Prop :=
  Ends c m (fun _ _ => True) (fun fault _ => fault.NamesFound)

theorem eval_safe {context : List String} {e : Node} (he : e.ExprUses context) (room : Nat)
    {m : Machine} (hm : m.env.Binds context) :
    Ends (eval (Eval.evaluate room e)) m (fun _ m' => m'.env.Binds context)
      (fun fault _ => fault.NamesFound) :=
  ends_eval.2 (((Eval.findsNames_sound context).evaluate he room m.env hm).imp
    (fun _ _ h => h.2) (fun _ _ h => h.1))

theorem declares_eq (context : List String) (s : Node) :
    s.declares context = s.declared ++ context := by
  cases s <;> rfl

/-- After a statement that succeeds, the names in effect are bound. -/
theorem binds_declares {context : List String} {s : Node} {m m' : Machine}
    (hm : m.env.Binds context) (h : Env.Adds s.declared m.env m'.env) :
    m'.env.Binds (s.declares context) := by
  rw [declares_eq]
  exact hm.of_adds h

/-- Some context covers the statements that are left, and its names are bound. -/
def Covered (rest : List Node) (m : Machine) : Prop :=
  ∃ context, Node.ListUses context rest ∧ m.env.Binds context

/-- Statements are safe in order when each is safe in the context it stands in. -/
theorem sequence_safe {most : Nat} {statement : Node → Exec Unit}
    (hdeclares : DeclaresOnly most statement)
    (hstatement : ∀ context s m, s.StmtUses context → m.env.Binds context → Safe (statement s) m)
    {ss : List Node} {m : Machine} (hm : Covered ss m) : Safe (sequence statement ss) m := by
  have hsequence : Ends (sequence statement ss) m (fun _ => Covered [])
      (fun fault _ => fault.NamesFound) := by
    refine ends_sequence Covered ?_ hm
    rintro s rest m' ⟨context, ⟨hs, hrest⟩, hm'⟩
    have hboth := (hstatement context s m' hs hm').and (hdeclares s m')
    refine hboth.imp (fun _ m'' h => ?_) (fun _ _ h => h.1)
    exact ⟨s.declares context, hrest, binds_declares hm' h.2⟩
  exact hsequence.imp (fun _ _ _ => trivial) (fun _ _ h => h)

theorem inScope_safe [Closing] {room : Nat} {body : Exec Unit} {m : Machine}
    (h : Safe body ⟨m.env.push, m.printed⟩) : Safe (inScope room body) m := by
  refine ends_inScope.2 (Ends.imp h (fun _ m' _ => ?_) (fun fault m' hfault => ?_))
  · cases m'.env.pop? with
    | some env => exact trivial
    | none => exact fun x => by rintro ⟨⟩
  · by_cases hopen : StaysOpen room fault
    · rw [if_pos hopen]
      exact fun x => by rintro ⟨⟩
    · rw [if_neg hopen]
      cases m'.env.pop? with
      | some env => exact hfault
      | none => exact fun x => by rintro ⟨⟩

/-- Execution never stops at a name of its context. -/
theorem execute_and_block_safe [Closing] (rounds room : Nat) :
    (∀ context s m, s.StmtUses context → m.env.Binds context → Safe (execute rounds room s) m) ∧
      ∀ context ss m, Node.ListUses context ss → m.env.Binds context →
        Safe (block rounds room ss) m := by
  induction room with
  | zero => exact ⟨fun _ _ _ _ _ x => by rintro ⟨⟩, fun _ _ _ _ _ x => by rintro ⟨⟩⟩
  | succ room ih =>
      obtain ⟨hexecute, hblock⟩ := ih
      obtain ⟨hdeclares, hnames⟩ := execute_and_block_names rounds room
      refine ⟨fun context s m hs hm => ?_, fun context ss m hss hm => ?_⟩
      · cases s with
        | letStmt line x e =>
            refine ends_bind.2 ((eval_safe hs room hm).imp (fun _ _ _ => ?_) (fun _ _ h => h))
            exact ends_define.2 trivial
        | printStmt line e =>
            refine ends_bind.2 ((eval_safe hs room hm).imp (fun _ _ _ => ?_) (fun _ _ h => h))
            exact ends_print.2 trivial
        | exprStmt line e =>
            refine ends_bind.2 ((eval_safe hs room hm).imp (fun _ _ _ => ?_) (fun _ _ h => h))
            exact ends_pure.2 trivial
        | ifStmt line c t f =>
            obtain ⟨hc, ht, hf⟩ := hs
            refine ends_ifStmt ((eval_safe hc room hm).imp (fun _ mid hmid => ?_) (fun _ _ h => h))
            refine ⟨hblock context t mid ht hmid, ?_, fun _ => trivial⟩
            rintro body rfl
            exact hblock context body mid hf hmid
        | whileStmt line c b =>
            obtain ⟨hc, hb⟩ := hs
            have hloop := ends_whileLoop (fun m' => m'.env.Binds context)
              (fun m' hm' => eval_safe hc room hm')
              (fun m' hm' => ((hblock context b m' hb hm').and (hnames b m')).imp
                (fun _ _ h => hm'.of_names h.2) (fun _ _ h => h.1))
              (fun _ _ x => by rintro ⟨⟩) rounds hm
            exact hloop.imp (fun _ _ _ => trivial) (fun _ _ h => h)
        | block line b => exact hblock context b m hs hm
        | _ => exact fun x => by rintro ⟨⟩
      · exact inScope_safe (sequence_safe hdeclares hexecute ⟨context, hss, hm.push⟩)

end Exec

/-- **Declared names are found.**  A program whose names are all declared before they are
used, given the names of a context, never stops because of an undefined variable when each
name of the context is bound in some scope. -/
theorem interpret_ne_undefinedVariable [Closing] {context : List String} {p : Program} {m : Machine}
    (hp : Node.ListUses context p.statements)
    (hm : ∀ x ∈ context, ∃ scope ∈ m.env.scopes, x ∈ scope.names) (limit rounds : Nat)
    (x : String) (m' : Machine) :
    p.interpret limit rounds m ≠ .error (.undefinedVariable x) m' := by
  have hbinds : m.env.Binds context := by
    intro y hy
    obtain ⟨scope, hscope, hmem⟩ := hm y hy
    exact Env.isSome_get?.2 ⟨scope.names, List.mem_map_of_mem hscope, hmem⟩
  have hsafe := Exec.sequence_safe (Exec.execute_and_block_names rounds limit).1
    (Exec.execute_and_block_safe rounds limit).1 ⟨context, hp, hbinds⟩
  intro herror
  exact hsafe.of_error herror x rfl

/-- A loop whose body declares a name of its own in each round, shadows the counter in a
nested block and assigns it after that, where the bound of the loop is found two scopes
further out. -/
theorem interpret_shadowed_counter :
    let body : List Node :=
      [.letStmt 3 "next" (.binary 3 (some (.binary .add)) (.reference 3 "i") (.literal 3 1)),
        .block 4 [.letStmt 4 "i" (.reference 4 "i"), .exprStmt 4 (.assign 4 "i" (.literal 4 7))],
        .exprStmt 5 (.assign 5 "i" (.reference 5 "next"))]
    let p : Program := ⟨[.letStmt 1 "i" (.literal 1 0),
      .whileStmt 2 (.binary 2 (some (.binary .less)) (.reference 2 "i") (.reference 2 "n")) body,
      .printStmt 6 (.reference 6 "i")]⟩
    let m : Machine := ⟨⟨[], [[("k", 1)], [("n", 3)]]⟩, #[]⟩
    Node.ListUses ["n"] p.statements ∧
      (∀ x ∈ ["n"], ∃ scope ∈ m.env.scopes, x ∈ scope.names) ∧
      ∀ limit rounds x m', p.interpret limit rounds m ≠ .error (.undefinedVariable x) m' := by
  intro body p m
  have hp : Node.ListUses ["n"] p.statements := by
    simp [p, body, Node.ListUses, Node.StmtUses, Node.ExprUses, Node.declares]
  have hm : ∀ x ∈ ["n"], ∃ scope ∈ m.env.scopes, x ∈ scope.names := by
    simp [m, Env.scopes, Scope.names]
  exact ⟨hp, hm, fun limit rounds x m' => interpret_ne_undefinedVariable hp hm limit rounds x m'⟩

end RillLang
