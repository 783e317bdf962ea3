import RillLang.Proofs.Env
import RillLang.Proofs.Machine.StaysOpen

/-!
# Balanced scopes

Every scope that is opened is closed again, however the run ends, and no name is bound
anywhere but by a declaration in its own scope.  The exception is a run that the nesting limit
stops: it may leave scopes open, no more of them than closing one takes units of room, and what is
below them is as it would be without them.

* `Eval.evaluate_names` — evaluating an expression changes no names.
* `Exec.execute_and_block_names` — a statement that succeeds adds the name it declares, one
  that fails adds none, and a block changes no names.  The step is `Exec.inScope_names`:
  what happens in a scope is forgotten with it, as long as the scopes around it keep their
  names.
* `scopes_balanced` — all of this together, and what it means for a whole program.
* `interpret_nested` — blocks nested beyond the limit leave a scope open in a fresh process, with
  all that was declared in it.
-/

namespace RillLang

open Ending

/-! ## Expressions -/

namespace Eval

/-- The contract of expressions that leave the names of every scope alone. -/
def keepsNames (names : List (List String)) : Contract where
  expr := fun _ => True
  env := (·.names = names)
  value := fun _ => True
  fault := fun _ => True

theorem keepsNames_sound (names : List (List String)) : (keepsNames names).Sound :=
  Contract.onEnv_sound
    (fun _ => ⟨trivial, fun _ _ _ henv hassign => (Env.names_of_assign? hassign).trans henv⟩)
    (fun _ => trivial) (fun _ => ⟨trivial, trivial⟩)

/-- Evaluation keeps the names of every scope. -/
theorem evaluate_names (room : Nat) (e : Node) (env : Env) :
    Leaves (evaluate room e) env (fun env' => env'.names = env.names) :=
  (keepsNames_sound env.names).leaves trivial room rfl

end Eval

/-! ## Statements and blocks -/

/-- The name of a declaration. -/
def Node.declared : Node → List String
  | .letStmt _ x _ => [x]
  | _ => []

namespace Exec

theorem eval_names (room : Nat) (e : Node) (m : Machine) :
    Leaves (eval (Eval.evaluate room e)) m (fun m' => m'.env.names = m.env.names) :=
  ends_eval.2 (Eval.evaluate_names room e m.env)

/-- What a statement does to the names: on success a declaration adds its name, and
nothing else changes any. -/
def DeclaresOnly (most : Nat) (statement : Node → Exec Unit) : Prop :=
  ∀ s m, Ends (statement s) m (fun _ m' => Env.Adds s.declared m.env m'.env)
    (StopsOver most (·.names = m.env.names))

variable {most : Nat}

theorem DeclaresOnly.mono {most' : Nat} {statement : Node → Exec Unit}
    (h : DeclaresOnly most statement) (hle : most ≤ most') : DeclaresOnly most' statement :=
  fun s m => (h s m).imp (fun _ _ hadds => hadds) (fun _ _ hstop => hstop.mono hle)

theorem sequence_outer {statement : Node → Exec Unit} (h : DeclaresOnly most statement)
    (ss : List Node) (m : Machine) :
    LeavesOver most (sequence statement ss) m
      (fun env => env.outer.map Scope.names = m.env.outer.map Scope.names) := by
  refine ends_sequence
    (fun _ m' => m'.env.outer.map Scope.names = m.env.outer.map Scope.names) ?_ rfl
  intro s rest m' hm'
  exact (h s m').imp (fun _ _ hadds => hadds.outer.trans hm')
    (fun _ _ hstop => hstop.imp fun _ hnames => (List.cons.inj hnames).2.trans hm')

/-- Statements that only declare leave the scope they were opened in to be closed, if not one that
stayed open over it. -/
theorem sequence_pop? {statement : Node → Exec Unit} (h : DeclaresOnly most statement)
    (ss : List Node) (m : Machine) :
    Leaves (sequence statement ss) ⟨m.env.push, m.printed⟩
      (fun m' => ∃ env, m'.env.pop? = some env) := by
  refine Ends.imp (sequence_outer h ss _) (fun _ m' hm' => ?_) ?_
  · obtain ⟨env, hpop, -⟩ := Env.exists_pop? hm'
    exact ⟨env, hpop⟩
  · rintro fault m' ⟨left, env, heq, henv, -⟩
    obtain ⟨outer, hpop, -⟩ := Env.exists_pop? henv
    rw [heq]
    exact Env.exists_pop?_under hpop left

/-- A statement other than a declaration keeps all names when it does so in both endings. -/
theorem declaresOnly_of_names {s : Node} {c : Exec Unit} {m : Machine} (hs : s.declared = [])
    (h : LeavesOver most c m (·.names = m.env.names)) :
    Ends c m (fun _ m' => Env.Adds s.declared m.env m'.env)
      (StopsOver most (·.names = m.env.names)) := by
  rw [hs]
  exact Ends.imp h (fun _ _ hnames => .of_names hnames) (fun _ _ hstop => hstop)

theorem whileLoop_names {condition : Eval Int} {body : Exec Unit}
    (hcondition : ∀ m, Leaves (eval condition) m (fun m' => m'.env.names = m.env.names))
    (hbody : ∀ m, LeavesOver most body m (·.names = m.env.names)) (rounds : Nat) (m : Machine) :
    LeavesOver most (whileLoop condition body rounds) m (·.names = m.env.names) := by
  refine ends_whileLoop (fun m' => m'.env.names = m.env.names) ?_ ?_
    (fun _ hm' => stopsOver_of hm') rounds rfl
  · exact fun m' hm' =>
      (hcondition m').ends (fun _ _ h => h.trans hm') (fun _ _ h => stopsOver_of (h.trans hm'))
  · exact fun m' hm' => (hbody m').imp fun _ h => h.trans hm'

section Closing

variable [Closing]

/-- A scope whose body keeps the names around it leaves all names as they were. -/
theorem inScope_names {room : Nat} {body : Exec Unit} {m : Machine}
    (h : LeavesOver (min room Closing.room) body ⟨m.env.push, m.printed⟩
      (fun env => env.outer.map Scope.names = m.env.names)) :
    LeavesOver (min (room + 1) Closing.room) (inScope room body) m
      (·.names = m.env.names) :=
  leavesOver_inScope h fun _ hnames => Env.exists_pop? hnames

/-- Execution is balanced: a statement declares only, and a block keeps all names. -/
theorem execute_and_block_names (rounds room : Nat) :
    DeclaresOnly (min room Closing.room) (execute rounds room) ∧
      ∀ ss m, LeavesOver (min room Closing.room) (block rounds room ss) m
        (·.names = m.env.names) := by
  induction room with
  | zero => exact ⟨fun _ m => ends_throw.2 (stopsOver_of rfl),
      fun _ m => ends_throw.2 (stopsOver_of rfl)⟩
  | succ room ih =>
      obtain ⟨hexecute, hblock⟩ := ih
      have heval := eval_names room
      have hle : min room Closing.room ≤ min (room + 1) Closing.room := by omega
      have hblock (ss : List Node) (m : Machine) :
          LeavesOver (min (room + 1) Closing.room) (block rounds room ss) m
            (·.names = m.env.names) := (hblock ss m).mono hle
      refine ⟨fun s m => ?_, fun ss m => inScope_names (sequence_outer hexecute ss _)⟩
      cases s with
      | letStmt line x e =>
          rw [execute, ends_bind]
          refine (heval e m).ends (fun v m' hm' => ends_define.2 ?_) (fun _ _ h => stopsOver_of h)
          exact (Env.Adds.of_names hm').trans (Env.adds_define m'.env x v)
      | printStmt line e =>
          refine declaresOnly_of_names rfl (ends_bind.2 ?_)
          exact (heval e m).ends (fun _ _ h => ends_print.2 h) (fun _ _ h => stopsOver_of h)
      | exprStmt line e =>
          refine declaresOnly_of_names rfl (ends_bind.2 ?_)
          exact (heval e m).ends (fun _ _ h => ends_pure.2 h) (fun _ _ h => stopsOver_of h)
      | ifStmt line c t f =>
          refine declaresOnly_of_names rfl (ends_ifStmt ?_)
          refine (heval c m).ends (fun _ mid hmid => ?_) (fun _ _ h => stopsOver_of h)
          rw [← hmid]
          exact ⟨hblock t mid, fun body _ => hblock body mid, fun _ => rfl⟩
      | whileStmt line c b =>
          exact declaresOnly_of_names rfl (whileLoop_names (heval c) (hblock b) rounds m)
      | block line b => exact declaresOnly_of_names rfl (hblock b m)
      | _ => exact ends_throw.2 (stopsOver_of rfl)

end Closing

/-- The name that a statement declares when it is executed: that of a declaration whose
initializer has a value. -/
def declaredBy : Nat → Node → Env → List String
  | room + 1, .letStmt _ x e, env =>
    match Eval.evaluate room e env with
    | .ok _ _ => [x]
    | .error _ _ => []
  | _, _, _ => []

/-- A statement adds the name it declares, and changes no other. -/
theorem execute_adds [Closing] (rounds room : Nat) (s : Node) (m : Machine) :
    LeavesOver Closing.room (execute rounds room s) m
      (Env.Adds (declaredBy room s m.env) m.env) := by
  have hdeclares := (execute_and_block_names rounds room).1.mono (Nat.min_le_right ..) s m
  have hother (hs : s.declared = []) (hby : declaredBy room s m.env = []) :
      LeavesOver Closing.room (execute rounds room s) m
        (Env.Adds (declaredBy room s m.env) m.env) := by
    rw [hs] at hdeclares
    rw [hby]
    exact hdeclares.imp (fun _ _ h => h)
      (fun _ _ h => h.imp fun _ hnames => .of_names hnames)
  cases room with
  | zero => exact stopsOver_of (.of_names rfl)
  | succ room =>
      cases s with
      | letStmt line x e =>
          unfold Ends at hdeclares
          unfold LeavesOver Ends
          rw [execute_letStmt] at hdeclares ⊢
          rw [declaredBy]
          cases heval : Eval.evaluate room e m.env with
          | ok v env =>
              rw [heval] at hdeclares
              exact hdeclares
          | error fault env =>
              rw [heval] at hdeclares
              exact hdeclares.imp fun _ hnames => .of_names hnames
      | _ => exact hother rfl rfl

/-- Statements that all succeed add the names of the declarations among them. -/
theorem sequence_adds {statement : Node → Exec Unit} (h : DeclaresOnly most statement)
    {ss : List Node} {m m' : Machine} (hok : sequence statement ss m = .ok () m') :
    Env.Adds (ss.flatMap Node.declared) m.env m'.env := by
  induction ss generalizing m with
  | nil =>
      cases hok
      exact .of_names rfl
  | cons s ss ih =>
      obtain ⟨u, mid, hs, hss⟩ := bind_eq_ok.1 hok
      rw [List.flatMap_cons]
      exact ((h s m).of_ok hs).trans (ih hss)

/-- Statements that stop at one of them add the names of the declarations before it. -/
theorem sequence_adds_of_error {statement : Node → Exec Unit} (h : DeclaresOnly most statement)
    {done : List Node} {s : Node} {m mid m' : Machine} {fault : Fault}
    (hdone : sequence statement done m = .ok () mid) (hs : statement s mid = .error fault m') :
    StopsOver most (Env.Adds (done.flatMap Node.declared) m.env) fault m' := by
  refine ((h s mid).of_error hs).imp fun env hnames => ?_
  have hadds := (sequence_adds h hdone).trans (.of_names hnames)
  rwa [List.append_nil] at hadds

end Exec

open Exec

/-- **Scopes are balanced on every way out, but for scopes that stay open.**  However it ends,
evaluating an expression leaves the scopes and their names as they were.  So does executing a
block, and a statement adds at most the name it declares; only that, when the nesting limit stops
them, there may be scopes left open on top, up to as many as closing one takes units of room.  So
a program leaves as many scopes as it found, and adds to the innermost one the names of its
declarations before the first statement that fails; and below any scopes that stay open the
same holds.  If closing takes no room, none stay open. -/
theorem scopes_balanced [Closing] (rounds : Nat) :
    (∀ room e env, Leaves (Eval.evaluate room e) env
      (fun env' => env'.depth = env.depth ∧ env'.names = env.names)) ∧
    (∀ room ss m, LeavesOver Closing.room (block rounds room ss) m
      (fun env => env.depth = m.env.depth ∧ env.names = m.env.names)) ∧
    (∀ room s m, LeavesOver Closing.room (execute rounds room s) m
      (fun env => env.depth = m.env.depth ∧
        Env.Adds (declaredBy room s m.env) m.env env)) ∧
    (∀ limit (p : Program) m, ∃ done rest mid, p.statements = done ++ rest ∧
      Program.interpret limit rounds ⟨done⟩ m = .ok () mid ∧
      (rest = [] ∧ p.interpret limit rounds m = .ok () mid ∨
        ∃ s rest' fault m', rest = s :: rest' ∧ execute rounds limit s mid = .error fault m' ∧
          p.interpret limit rounds m = .error fault m') ∧
      LeavesOver Closing.room (p.interpret limit rounds) m
        (fun env => env.depth = m.env.depth ∧
          Env.Adds (done.flatMap Node.declared) m.env env)) := by
  refine ⟨fun room e env => ?_, fun room ss m => ?_, fun room s m => ?_, fun limit p m => ?_⟩
  · exact (Eval.evaluate_names room e env).imp fun _ h => ⟨Env.depth_of_names h, h⟩
  · have hblock := ((execute_and_block_names rounds room).2 ss m).mono (Nat.min_le_right ..)
    exact hblock.imp fun _ h => ⟨Env.depth_of_names h, h⟩
  · exact (execute_adds rounds room s m).imp fun _ h => ⟨h.depth_eq, h⟩
  · have hdeclares : DeclaresOnly Closing.room (execute rounds limit) :=
      (execute_and_block_names rounds limit).1.mono (Nat.min_le_right ..)
    obtain ⟨done, rest, mid, hp, hdone, hrest⟩ :=
      sequence_split (execute rounds limit) p.statements m
    refine ⟨done, rest, mid, hp, hdone, hrest, ?_⟩
    unfold LeavesOver Ends
    rcases hrest with ⟨-, hok⟩ | ⟨s, rest', fault, m', -, hs, herror⟩
    · rw [show p.interpret limit rounds m = .ok () mid from hok]
      have hadds := sequence_adds hdeclares hdone
      exact ⟨hadds.depth_eq, hadds⟩
    · rw [show p.interpret limit rounds m = .error fault m' from herror]
      exact (sequence_adds_of_error hdeclares hdone hs).imp fun _ hadds =>
        ⟨hadds.depth_eq, hadds⟩

/-! ## Blocks nested beyond the limit -/

/-- A block in some blocks around it. -/
def Node.nested (body : List Node) : Nat → Node
  | 0 => .block 0 body
  | n + 1 => .block 0 [nested body n]

section Fresh

variable [Closing]

/-- Where closing takes a unit of room, the innermost block that can be entered has none for it.
The blocks around it close a scope each, so that the scope left over in the end is that of the
outermost one. -/
theorem Exec.execute_nested (hclosing : Closing.room = 1) (body : List Node) (rounds n more : Nat)
    (m : Machine) :
    execute rounds (2 * (n + 1)) (.nested body (n + 1 + more)) m =
      .error .nestingTooDeep ⟨m.env.push, m.printed⟩ := by
  rw [Nat.add_right_comm n 1 more]
  induction n generalizing m with
  | zero =>
      -- the block is entered with its last unit, and there is none for what stands in it
      have hbody : sequence (execute rounds 0) [.nested body (0 + more)]
          ⟨m.env.push, m.printed⟩ = .error .nestingTooDeep ⟨m.env.push, m.printed⟩ :=
        bind_of_error rfl
      have hopen : StaysOpen 0 .nestingTooDeep := ⟨hclosing ▸ Nat.one_pos, by rintro ⟨⟩⟩
      exact inScope_of_staysOpen hbody hopen
  | succ n ih =>
      have hbody : sequence (execute rounds (2 * (n + 1))) [.nested body (n + 1 + more)]
          ⟨m.env.push, m.printed⟩ = .error .nestingTooDeep ⟨m.env.push.push, m.printed⟩ := by
        rw [Nat.add_right_comm n 1 more]
        exact bind_of_error (ih ⟨m.env.push, m.printed⟩)
      have hclosed : ¬ StaysOpen (2 * (n + 1)) .nestingTooDeep := by
        rintro ⟨hlt, -⟩
        omega
      have hscope := inScope_of_error hbody hclosed (Env.pop?_push m.env.push)
      exact hscope

/-- A block declares a name, and then blocks are nested in it beyond the limit: its scope is still
open afterwards. -/
theorem interpret_nested (hclosing : Closing.room = 1) (x : String) (v : Int) (body : List Node)
    (rounds n more : Nat) (m : Machine) :
    Program.interpret (2 * (n + 2)) rounds
        ⟨[.block 0 [.letStmt 0 x (.literal 0 v), .nested body (n + 1 + more)]]⟩ m =
      .error .nestingTooDeep ⟨⟨[(x, v)], m.env.scopes⟩, m.printed⟩ := by
  have hbody : sequence (execute rounds (2 * (n + 1)))
      [.letStmt 0 x (.literal 0 v), .nested body (n + 1 + more)] ⟨m.env.push, m.printed⟩ =
        .error .nestingTooDeep ⟨(m.env.push.define x v).push, m.printed⟩ := by
    refine (bind_of_ok (execute_letStmt rounds (2 * n + 1) 0 x (.literal 0 v) _)).trans ?_
    exact bind_of_error (execute_nested hclosing body rounds n more _)
  have hclosed : ¬ StaysOpen (2 * (n + 1)) .nestingTooDeep := by
    rintro ⟨hlt, -⟩
    omega
  have hscope := inScope_of_error hbody hclosed (Env.pop?_push (m.env.push.define x v))
  exact bind_of_error hscope

end Fresh

/-- Six hundred blocks under a limit of a thousand, in a fresh process: the run starts with the
global scope and ends with two scopes, and the name that was declared in the block has its value
outside of it. -/
theorem nested_blocks_stay_open :
    let p : Program :=
      ⟨[.block 0 [.letStmt 0 "secret" (.literal 0 7), .nested [.printStmt 0 (.literal 0 1)] 600]]⟩
    ∃ m, @Program.interpret .fresh 1000 1 p .fresh = .error .nestingTooDeep m ∧
      Machine.fresh.env.depth = 1 ∧ m.env.depth = 2 ∧ m.env.get? "secret" = some 7 :=
  ⟨⟨⟨[("secret", 7)], [[]]⟩, #[]⟩,
    @interpret_nested .fresh rfl "secret" 7 [.printStmt 0 (.literal 0 1)] 1 498 101 .fresh,
    rfl, rfl, rfl⟩

end RillLang
