import RillLang.Proofs.Machine.Balance
import RillLang.Tree.Names

/-!
# What a run can change

Every binding has a place: the scope that holds it, counted from the inside out.  The home of
a name is the place of the innermost scope that binds it, and that is the only place where an
assignment changes anything.

* `writes_confined` — an expression or a block changes no binding around it but those of
  names it assigns, each at the home that the name has around it; and evaluating prints
  nothing.
* `block_shadows` — a block that declares a name before it assigns it leaves every binding of
  the name around it alone.

`Env.Writes` compares the environments before and after an expression or a block.  A
statement may add a name to the innermost scope, and from then on the scopes around have lost
the home of that name; `Env.WritesAround` is what is left to say about those.
-/

namespace RillLang

open Ending

theorem Node.forall_mem_assignedList {ss : List Node} {p : String → Prop} :
    (∀ x ∈ Node.assignedList ss, p x) ↔ ∀ s ∈ ss, ∀ x ∈ s.assigned, p x := by
  induction ss with
  | nil => simp [assignedList]
  | cons s ss ih => rw [assignedList, List.forall_mem_append, List.forall_mem_cons, ih]

/-! ## Bindings and homes -/

namespace Env

/-- The value that the scope at a place gives a name, if it binds it. -/
def bindingIn? (scopes : List Scope) (i : Nat) (x : String) : Option Int :=
  scopes[i]?.bind (Scope.get? · x)

/-- The value that the scope at a place of an environment gives a name, if it binds it. -/
def binding? (env : Env) (i : Nat) (x : String) : Option Int := bindingIn? env.scopes i x

/-- The place of the first of some scopes that binds a name. -/
def homeIn? (scopes : List Scope) (x : String) : Option Nat :=
  scopes.findIdx? fun scope => (scope.get? x).isSome

/-- The place of the innermost scope that binds a name. -/
def home? (env : Env) (x : String) : Option Nat := homeIn? env.scopes x

theorem homeIn?_cons (scope : Scope) (scopes : List Scope) (x : String) :
    homeIn? (scope :: scopes) x =
      if (scope.get? x).isSome then some 0 else (homeIn? scopes x).map (· + 1) :=
  List.findIdx?_cons

/-- Where a name is at home depends on the names of the scopes alone. -/
theorem homeIn?_eq (scopes : List Scope) (x : String) :
    homeIn? scopes x = (scopes.map Scope.names).findIdx? fun names => decide (x ∈ names) := by
  induction scopes with
  | nil => rfl
  | cons scope scopes ih =>
      rw [homeIn?_cons, ih, List.map_cons, List.findIdx?_cons]
      simp only [Scope.isSome_get?, decide_eq_true_eq]

theorem home?_of_names {env env' : Env} (h : env'.names = env.names) (x : String) :
    env'.home? x = env.home? x := by
  have hscopes : env'.scopes.map Scope.names = env.scopes.map Scope.names := h
  rw [home?, home?, homeIn?_eq, homeIn?_eq, hscopes]

/-- A name is at home around the innermost scope when that does not bind it. -/
theorem home?_eq_succ {env : Env} {x : String} {i : Nat} :
    env.home? x = some (i + 1) ↔ x ∉ env.inner.names ∧ homeIn? env.outer x = some i := by
  rw [home?, scopes, homeIn?_cons, ← Scope.isSome_get?]
  by_cases hx : (env.inner.get? x).isSome = true
  · simp [hx]
  · simp [hx]

theorem home?_eq_zero {env : Env} {x : String} (h : x ∈ env.inner.names) :
    env.home? x = some 0 := by
  rw [home?, scopes, homeIn?_cons, if_pos ((Scope.isSome_get? _ x).2 h)]

/-- An assignment changes the one binding of its name at the home of the name. -/
theorem eq_home_of_assignIn? {scopes scopes' : List Scope} {x : String} {v : Int}
    (h : assignIn? scopes x v = some scopes') {i : Nat} {y : String}
    (hne : bindingIn? scopes' i y ≠ bindingIn? scopes i y) :
    y = x ∧ homeIn? scopes x = some i := by
  induction scopes generalizing scopes' i with
  | nil => cases h
  | cons scope rest ih =>
      rw [assignIn?] at h
      rw [homeIn?_cons]
      split at h
      case h_1 w hw =>
        cases h
        cases i with
        | zero =>
            have hy : y = x := Decidable.byContradiction fun hy =>
              hne (Scope.get?_set_of_ne scope v hy)
            exact ⟨hy, by rw [hw]; rfl⟩
        | succ i => exact (hne rfl).elim
      case h_2 hnone =>
        obtain ⟨rest', hrest, rfl⟩ := Option.map_eq_some_iff.1 h
        cases i with
        | zero => exact (hne rfl).elim
        | succ i =>
            obtain ⟨hy, hhome⟩ := ih hrest hne
            exact ⟨hy, by rw [hnone, hhome]; rfl⟩

/-! ## Environments before and after -/

/-- The environments differ in bindings of allowed names only, each at the home that the name
had before. -/
structure Writes (allowed : String → Prop) (before after : Env) : Prop where
  /-- Every scope binds the names it bound before. -/
  names : after.names = before.names
  /-- A binding that is not as before is that of an allowed name, at its home. -/
  home : ∀ i x, after.binding? i x ≠ before.binding? i x → allowed x ∧ before.home? x = some i

/-- Around the innermost scope, the environments differ in bindings of allowed names only, each
at the home that the name had before.  The innermost scope may have new names. -/
structure WritesAround (allowed : String → Prop) (before after : Env) : Prop where
  /-- No scope but the innermost one has new names. -/
  adds : ∃ added, Adds added before after
  /-- A binding that is not as before is that of an allowed name, at its home. -/
  home : ∀ i x, after.binding? (i + 1) x ≠ before.binding? (i + 1) x →
    allowed x ∧ before.home? x = some (i + 1)

section Writes

variable {allowed : String → Prop} {a b c : Env}

theorem Writes.refl (env : Env) : Writes allowed env env := ⟨rfl, fun _ _ hne => (hne rfl).elim⟩

theorem Writes.trans (hab : Writes allowed a b) (hbc : Writes allowed b c) :
    Writes allowed a c := by
  refine ⟨hbc.names.trans hab.names, fun i x hne => ?_⟩
  by_cases hb : b.binding? i x = a.binding? i x
  · rw [← hb] at hne
    rw [← home?_of_names hab.names]
    exact hbc.home i x hne
  · exact hab.home i x hb

theorem writes_of_assign? {x : String} {v : Int} (hx : allowed x) (h : a.assign? x v = some b) :
    Writes allowed a b := by
  have hscopes := assignIn?_scopes a x v
  rw [h] at hscopes
  refine ⟨names_of_assign? h, fun i y hne => ?_⟩
  obtain ⟨rfl, hhome⟩ := eq_home_of_assignIn? hscopes hne
  exact ⟨hx, hhome⟩

theorem Writes.around (h : Writes allowed a b) : WritesAround allowed a b :=
  ⟨⟨[], .of_names h.names⟩, fun i x hne => h.home (i + 1) x hne⟩

theorem writesAround_define (env : Env) (x : String) (v : Int) :
    WritesAround allowed env (env.define x v) :=
  ⟨⟨[x], adds_define env x v⟩, fun _ _ hne => (hne rfl).elim⟩

/-- Names that are added to the innermost scope can only take homes away from the scopes
around it. -/
theorem Adds.home?_eq_succ {added : List String} (h : Adds added a b) {x : String} {i : Nat}
    (hb : b.home? x = some (i + 1)) : a.home? x = some (i + 1) := by
  obtain ⟨hinner, houter⟩ := Env.home?_eq_succ.1 hb
  refine Env.home?_eq_succ.2 ⟨fun hx => hinner ((h.inner x).2 (.inl hx)), ?_⟩
  rwa [homeIn?_eq, ← h.outer, ← homeIn?_eq]

theorem WritesAround.trans (hab : WritesAround allowed a b) (hbc : WritesAround allowed b c) :
    WritesAround allowed a c := by
  obtain ⟨xs, hadds⟩ := hab.adds
  obtain ⟨ys, hadds'⟩ := hbc.adds
  refine ⟨⟨xs ++ ys, hadds.trans hadds'⟩, fun i x hne => ?_⟩
  by_cases hb : b.binding? (i + 1) x = a.binding? (i + 1) x
  · rw [← hb] at hne
    obtain ⟨hx, hhome⟩ := hbc.home i x hne
    exact ⟨hx, hadds.home?_eq_succ hhome⟩
  · exact hab.home i x hb

/-- Nothing that is done where the innermost scope binds a name changes a binding of the name
around it. -/
theorem WritesAround.of_home?_eq_zero (h : WritesAround allowed a b) {x : String}
    (hx : a.home? x = some 0) : WritesAround (· ≠ x) a b := by
  refine ⟨h.adds, fun i y hne => ?_⟩
  obtain ⟨-, hhome⟩ := h.home i y hne
  refine ⟨?_, hhome⟩
  rintro rfl
  rw [hx] at hhome
  cases hhome

/-- What happens to the scopes around a new scope is what has happened when that is closed. -/
theorem WritesAround.pop? (h : WritesAround allowed a.push b) :
    ∃ env, b.pop? = some env ∧ Writes allowed a env := by
  obtain ⟨added, hadds⟩ := h.adds
  obtain ⟨inner, outer⟩ := b
  cases outer with
  | nil => cases hadds.outer
  | cons scope rest =>
      refine ⟨⟨scope, rest⟩, rfl, hadds.outer, fun i x hne => ?_⟩
      obtain ⟨hx, hhome⟩ := h.home i x hne
      exact ⟨hx, (home?_eq_succ.1 hhome).2⟩

end Writes

end Env

/-! ## Expressions -/

namespace Eval

variable {allowed : String → Prop}

/-- An expression that assigns allowed names only keeps to writing those. -/
theorem writesAllowed_sound (before : Env) :
    (Contract.onEnv (∀ x ∈ ·.assigned, allowed x) (Env.Writes allowed before)).Sound := by
  refine Contract.onEnv_sound (fun he => ?_) (fun he => he) List.forall_mem_append.1
  obtain ⟨hx, hothers⟩ := List.forall_mem_cons.1 he
  exact ⟨hothers, fun _ _ _ henv hassign => henv.trans (Env.writes_of_assign? hx hassign)⟩

/-- Evaluation writes the names it assigns, at their homes. -/
theorem evaluate_writes {e : Node} (he : ∀ x ∈ e.assigned, allowed x) (room : Nat) (env : Env) :
    Leaves (evaluate room e) env (Env.Writes allowed env) :=
  (writesAllowed_sound env).leaves he room (.refl env)

end Eval

/-! ## Statements and blocks -/

namespace Exec

variable {allowed : String → Prop} {most : Nat}

theorem eval_writes (room : Nat) (e : Node) (he : ∀ x ∈ e.assigned, allowed x) (m : Machine) :
    Leaves (eval (Eval.evaluate room e)) m (fun m' => Env.Writes allowed m.env m'.env) :=
  ends_eval.2 (Eval.evaluate_writes he room m.env)

theorem whileLoop_writes {condition : Eval Int} {body : Exec Unit}
    (hcondition : ∀ m, Leaves (eval condition) m (fun m' => Env.Writes allowed m.env m'.env))
    (hbody : ∀ m, LeavesOver most body m (Env.Writes allowed m.env)) (rounds : Nat)
    (m : Machine) :
    LeavesOver most (whileLoop condition body rounds) m (Env.Writes allowed m.env) := by
  refine ends_whileLoop (fun m' => Env.Writes allowed m.env m'.env) ?_ ?_
    (fun _ h => stopsOver_of h) rounds (.refl m.env)
  · exact fun m' hm' =>
      (hcondition m').ends (fun _ _ h => hm'.trans h) (fun _ _ h => stopsOver_of (hm'.trans h))
  · exact fun m' hm' => (hbody m').imp fun _ h => hm'.trans h

/-- A statement that assigns allowed names only writes those only, around the innermost
scope. -/
def WritesAllowed (allowed : String → Prop) (most : Nat) (statement : Node → Exec Unit) : Prop :=
  ∀ s m, (∀ x ∈ s.assigned, allowed x) →
    LeavesOver most (statement s) m (Env.WritesAround allowed m.env)

theorem sequence_writes {statement : Node → Exec Unit}
    (h : WritesAllowed allowed most statement) {ss : List Node}
    (hss : ∀ x ∈ Node.assignedList ss, allowed x) (m : Machine) :
    LeavesOver most (sequence statement ss) m (Env.WritesAround allowed m.env) := by
  refine ends_sequence_of (fun m' => Env.WritesAround allowed m.env m'.env)
    (fun s m' hs hm' => ?_) (Node.forall_mem_assignedList.1 hss) (Env.Writes.refl m.env).around
  exact (h s m' hs).imp fun _ hafter => hm'.trans hafter

section Closing

variable [Closing]

/-- A scope whose body writes allowed names around it writes allowed names. -/
theorem inScope_writes {room : Nat} {body : Exec Unit} {m : Machine}
    (h : LeavesOver (min room Closing.room) body ⟨m.env.push, m.printed⟩
      (Env.WritesAround allowed m.env.push)) :
    LeavesOver (min (room + 1) Closing.room) (inScope room body) m (Env.Writes allowed m.env) :=
  leavesOver_inScope h fun _ henv => henv.pop?

/-- Execution writes allowed names only: a statement around the innermost scope, and a block
everywhere, as its own scope goes away. -/
theorem execute_and_block_write (rounds room : Nat) :
    WritesAllowed allowed (min room Closing.room) (execute rounds room) ∧
      ∀ ss m, (∀ x ∈ Node.assignedList ss, allowed x) →
        LeavesOver (min room Closing.room) (block rounds room ss) m
          (Env.Writes allowed m.env) := by
  induction room with
  | zero => exact ⟨fun _ m _ => stopsOver_of (Env.Writes.refl m.env).around,
      fun _ m _ => stopsOver_of (.refl m.env)⟩
  | succ room ih =>
      obtain ⟨hexecute, hblock⟩ := ih
      have hle : min room Closing.room ≤ min (room + 1) Closing.room := by omega
      refine ⟨fun s m hs => ?_, fun ss m hss => inScope_writes (sequence_writes hexecute hss _)⟩
      cases s with
      | letStmt line x e =>
          refine ends_bind.2 ((eval_writes room e hs m).ends (fun v m' h => ?_)
            (fun _ _ h => stopsOver_of h.around))
          exact ends_define.2 (h.around.trans (Env.writesAround_define m'.env x v))
      | printStmt line e =>
          refine ends_bind.2 ((eval_writes room e hs m).ends (fun _ _ h => ?_)
            (fun _ _ h => stopsOver_of h.around))
          exact ends_print.2 h.around
      | exprStmt line e =>
          refine ends_bind.2 ((eval_writes room e hs m).ends (fun _ _ h => ?_)
            (fun _ _ h => stopsOver_of h.around))
          exact ends_pure.2 h.around
      | ifStmt line c t f =>
          obtain ⟨hct, hf⟩ := List.forall_mem_append.1 hs
          obtain ⟨hc, ht⟩ := List.forall_mem_append.1 hct
          refine ends_ifStmt ((eval_writes room c hc m).ends (fun _ mid hmid => ?_)
            (fun _ _ h => stopsOver_of h.around))
          refine ⟨?_, ?_, fun _ => hmid.around⟩
          · exact ((hblock t mid ht).mono hle).imp fun _ h => (hmid.trans h).around
          · rintro body rfl
            exact ((hblock body mid hf).mono hle).imp fun _ h => (hmid.trans h).around
      | whileStmt line c b =>
          obtain ⟨hc, hb⟩ := List.forall_mem_append.1 hs
          have hloop := whileLoop_writes (fun m => eval_writes room c hc m)
            (fun m => hblock b m hb) rounds m
          exact (hloop.mono hle).imp fun _ h => h.around
      | block line b => exact ((hblock b m hs).mono hle).imp fun _ h => h.around
      | _ => exact ends_throw.2 (stopsOver_of (Env.Writes.refl m.env).around)

/-- After a declaration the innermost scope is the home of the name. -/
theorem execute_letStmt_home? (rounds room : Nat) (line : Int) (x : String) (e : Node)
    (m : Machine) :
    Ends (execute rounds room (.letStmt line x e)) m (fun _ m' => m'.env.home? x = some 0)
      (fun _ _ => True) := by
  have hdeclares := (execute_and_block_names rounds room).1 (.letStmt line x e) m
  refine hdeclares.imp (fun _ m' hadds => ?_) (fun _ _ _ => trivial)
  exact Env.home?_eq_zero ((hadds.inner x).2 (.inr (List.mem_singleton_self x)))

/-- Statements that come to declare a name before they assign it write it nowhere around the
innermost scope. -/
theorem sequence_shadows {pre rest : List Node} {x : String} {e : Node}
    (hpre : x ∉ Node.assignedList pre) (he : x ∉ e.assigned) (line : Int) (rounds room : Nat)
    (m : Machine) :
    LeavesOver (min room Closing.room)
      (sequence (execute rounds room) (pre ++ .letStmt line x e :: rest)) m
      (Env.WritesAround (· ≠ x) m.env) := by
  have hpre' : ∀ y ∈ Node.assignedList pre, y ≠ x := fun y hy => ne_of_mem_of_not_mem hy hpre
  have he' : ∀ y ∈ (Node.letStmt line x e).assigned, y ≠ x :=
    fun y hy => ne_of_mem_of_not_mem hy he
  have hexecute : WritesAllowed (· ≠ x) (min room Closing.room) (execute rounds room) :=
    (execute_and_block_write rounds room).1
  refine ends_sequence_append.2 (Ends.imp (sequence_writes hexecute hpre' m)
    (fun _ mid hmid => ?_) (fun _ _ h => h))
  have hlet := Ends.and (hexecute (.letStmt line x e) mid he')
    (execute_letStmt_home? rounds room line x e mid)
  refine ends_bind.2 (hlet.imp (fun _ mid' h => ?_)
    (fun _ _ h => h.1.imp fun _ hafter => hmid.trans hafter))
  -- from here on the innermost scope keeps every assignment of the name to itself
  have hany : WritesAllowed (fun _ => True) (min room Closing.room) (execute rounds room) :=
    (execute_and_block_write rounds room).1
  have hrest : LeavesOver (min room Closing.room) (sequence (execute rounds room) rest) mid'
      (Env.WritesAround (fun _ => True) mid'.env) :=
    sequence_writes hany (fun _ _ => trivial) mid'
  exact hrest.imp fun _ hafter => (hmid.trans h.1).trans (hafter.of_home?_eq_zero h.2)

end Closing

end Exec

open Exec

/-- **Writes are confined.**  However it ends, an expression or a block changes a binding
around it only if it assigns the name, and only in the innermost scope around it that binds
the name; if the nesting limit stops it and scopes stay open, that is what it has done below
them.  And evaluating prints nothing: a print statement that fails has printed nothing,
and one that does not has printed a single value. -/
theorem writes_confined [Closing] (rounds : Nat) :
    (∀ room e env, Leaves (Eval.evaluate room e) env (Env.Writes (· ∈ e.assigned) env)) ∧
    (∀ room ss m, LeavesOver Closing.room (block rounds room ss) m
      (Env.Writes (· ∈ Node.assignedList ss) m.env)) ∧
    (∀ room e m, Leaves (eval (Eval.evaluate room e)) m (fun m' => m'.printed = m.printed)) ∧
    (∀ room line e m, Ends (execute rounds room (.printStmt line e)) m
      (fun _ m' => ∃ v, m'.printed = m.printed.push v) (fun _ m' => m'.printed = m.printed)) := by
  refine ⟨fun room e env => Eval.evaluate_writes (fun _ h => h) room env,
    fun room ss m => ((execute_and_block_write rounds room).2 ss m fun _ h => h).mono
      (Nat.min_le_right ..),
    fun room e m => eval_printed _ m, fun room line e m => ?_⟩
  cases room with
  | zero => exact ends_throw.2 rfl
  | succ room =>
      refine ends_bind.2 ((eval_printed _ m).ends (fun v m' hm' => ?_) (fun _ _ h => h))
      exact ends_print.2 ⟨v, by rw [hm']⟩

/-- **Shadowing isolates.**  A block that declares a name, and assigns it neither before the
declaration nor in its initializer, leaves the binding of the name in every scope around it
as it was: whatever follows the declaration, and however the block ends, also below the scopes
that stay open if the nesting limit stops it. -/
theorem block_shadows [Closing] {pre rest : List Node} {x : String} {e : Node}
    (hpre : x ∉ Node.assignedList pre) (he : x ∉ e.assigned) (line : Int) (rounds room : Nat)
    (m : Machine) :
    LeavesOver Closing.room (block rounds room (pre ++ .letStmt line x e :: rest)) m
      (fun env => env.depth = m.env.depth ∧ ∀ i, env.binding? i x = m.env.binding? i x) := by
  have hblock : LeavesOver (min room Closing.room)
      (block rounds room (pre ++ .letStmt line x e :: rest)) m
      (Env.Writes (· ≠ x) m.env) := by
    cases room with
    | zero => exact ends_throw.2 (stopsOver_of (.refl m.env))
    | succ room => exact inScope_writes (sequence_shadows hpre he line rounds room _)
  refine (hblock.mono (Nat.min_le_right ..)).imp fun env henv =>
    ⟨Env.depth_of_names henv.names, fun i => ?_⟩
  exact Decidable.byContradiction fun hne => (henv.home i x hne).1 rfl

/-- A block that reads the outer variable, declares it anew, counts the new one down in a loop
that declares it once more, and stops at a name that is not bound. -/
theorem block_shadows_countdown :
    let pre : List Node := [.exprStmt 1 (.assign 1 "y" (.reference 1 "x"))]
    let e : Node := .assign 2 "y" (.reference 2 "x")
    let rest : List Node := [.whileStmt 3 (.reference 3 "x")
        [.exprStmt 4 (.assign 4 "x"
          (.binary 4 (some (.binary .subtract)) (.reference 4 "x") (.literal 4 1))),
        .letStmt 5 "x" (.literal 5 7), .exprStmt 6 (.assign 6 "x" (.literal 6 8))],
      .exprStmt 8 (.assign 8 "x" (.reference 8 "z"))]
    let m : Machine := ⟨⟨[("x", 1)], [[("y", 2), ("x", 3)]]⟩, #[]⟩
    "x" ∉ Node.assignedList pre ∧ "x" ∉ e.assigned ∧ ∀ rounds room,
      Leaves (block rounds room (pre ++ .letStmt 2 "x" e :: rest)) m
        (fun m' => m'.env.depth = m.env.depth ∧
          ∀ i, m'.env.binding? i "x" = m.env.binding? i "x") := by
  intro pre e rest m
  have hpre : "x" ∉ Node.assignedList pre := by decide
  have he : "x" ∉ e.assigned := by decide
  exact ⟨hpre, he, fun rounds room => (block_shadows hpre he 2 rounds room m).leaves⟩

end RillLang
