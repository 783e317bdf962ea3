import RillLang.Proofs.Machine.Lookup
import RillLang.Proofs.Machine.Room

/-!
# A block that declares nothing is transparent

A block whose statements are no declarations can be left out: its statements, run where the
block stands, print the same, end the same way and leave the same scopes
(`block_transparent`).

Run without its block, a list of statements has a scope less.  `Env.Split` relates the two
environments, below the scopes that both runs have opened: the scope of the one is split into
an upper and a lower part in the other.  Every operation respects that, a declaration too,
which goes to the upper part; so it is a bisimulation.  As long as nothing is declared the
upper part stays empty, and then the lower part is the whole scope.  Only where the nesting limit
stops the statements, and scopes may stay open, is the scope that is closed not always that one.
-/

namespace RillLang

open Ending

/-! ## Split scopes -/

theorem Scope.set_ne_nil (s : Scope) (x : String) (v : Int) : s.set x v ≠ [] := by
  cases s with
  | nil => exact List.cons_ne_nil _ _
  | cons b rest =>
      obtain ⟨y, w⟩ := b
      rw [set]
      split
      case isTrue => exact List.cons_ne_nil _ _
      case isFalse => exact List.cons_ne_nil _ _

theorem Scope.get?_set (s : Scope) (x : String) (v : Int) (y : String) :
    (s.set x v).get? y = if y = x then some v else s.get? y := by
  split
  case isTrue h => rw [h, get?_set_self]
  case isFalse h => exact get?_set_of_ne s v h

/-- A scope without names is empty. -/
theorem Scope.eq_nil_of_names {s : Scope} (h : ∀ x, x ∉ s.names) : s = [] := by
  cases s with
  | nil => rfl
  | cons b rest => exact (h b.1 (List.mem_cons_self ..)).elim

namespace Env

/-- An assignment goes to the innermost scope if that binds the variable, and to the scopes
around it if it does not. -/
theorem assign?_mk (inner : Scope) (outer : List Scope) (x : String) (v : Int) :
    (⟨inner, outer⟩ : Env).assign? x v =
      match inner.get? x with
      | some _ => some ⟨inner.set x v, outer⟩
      | none => (assignIn? outer x v).map (⟨inner, ·⟩) := by
  rw [assign?, scopes, assignIn?]
  cases inner.get? x with
  | some w => rfl
  | none => cases assignIn? outer x v <;> rfl

/-- The innermost scope of the first environment is the upper scope of the second laid over
the lower one, below some scopes that they have in common. -/
inductive Split : Nat → Env → Env → Prop
  | base {inner upper lower : Scope} {outer : List Scope} :
      (∀ x, inner.get? x = (upper.get? x).or (lower.get? x)) → (upper = [] → lower = inner) →
      Split 0 ⟨inner, outer⟩ ⟨upper, lower :: outer⟩
  | cover {n : Nat} {env env' : Env} (scope : Scope) :
      Split n env env' → Split (n + 1) (env.cover scope) (env'.cover scope)

/-- An environment is split by a new scope. -/
theorem split_push (env : Env) : Split 0 env env.push := .base (fun _ => rfl) (fun _ => rfl)

namespace Split

variable {n : Nat} {env env' : Env}

theorem get? (h : Split n env env') (x : String) : env'.get? x = env.get? x := by
  induction h with
  | @base inner upper lower outer h _ =>
      simp only [Env.get?, scopes, getIn?, h x]
      cases upper.get? x <;> rfl
  | cover scope _ ih => rw [get?_cover, get?_cover, ih]

theorem define (h : Split n env env') (x : String) (v : Int) :
    Split n (env.define x v) (env'.define x v) := by
  cases h with
  | @base inner upper lower outer h _ =>
      refine .base (fun y => ?_) fun hnil => (Scope.set_ne_nil upper x v hnil).elim
      rw [Scope.get?_set, Scope.get?_set, h y]
      split <;> rfl
  | cover scope h => exact .cover (scope.set x v) h

/-- Where the first environment assigns a name in its innermost scope, the second does so in
the upper part if that binds it, and else in the lower part. -/
theorem assign?_base {inner upper lower : Scope} {outer : List Scope}
    (h : ∀ y, inner.get? y = (upper.get? y).or (lower.get? y)) (hnil : upper = [] → lower = inner)
    {x : String} {v : Int} {after : Env}
    (hassign : (⟨inner, outer⟩ : Env).assign? x v = some after) :
    ∃ after', (⟨upper, lower :: outer⟩ : Env).assign? x v = some after' ∧
      Split 0 after after' := by
  have hx := h x
  rw [assign?_mk] at hassign ⊢
  rw [assignIn?]
  cases hupper : upper.get? x with
  | some w =>
      rw [hx, hupper] at hassign
      cases hassign
      refine ⟨_, rfl, .base (fun y => ?_) fun hset => (Scope.set_ne_nil upper x v hset).elim⟩
      rw [Scope.get?_set, Scope.get?_set, h y]
      split <;> rfl
  | none =>
      cases hlower : lower.get? x with
      | some w =>
          rw [hx, hupper, hlower] at hassign
          cases hassign
          refine ⟨_, rfl, .base (fun y => ?_) fun hupper => by rw [hnil hupper]⟩
          rw [Scope.get?_set, Scope.get?_set, h y]
          by_cases hy : y = x
          · simp [hy, hupper]
          · simp [hy]
      | none =>
          rw [hx, hupper, hlower] at hassign
          obtain ⟨outer', houter, rfl⟩ := Option.map_eq_some_iff.1 hassign
          exact ⟨⟨upper, lower :: outer'⟩, by rw [houter]; rfl, .base h hnil⟩

theorem assign? (h : Split n env env') {x : String} {v : Int} {after : Env}
    (hassign : env.assign? x v = some after) :
    ∃ after', env'.assign? x v = some after' ∧ Split n after after' := by
  induction h generalizing after with
  | base h hnil => exact assign?_base h hnil hassign
  | cover scope hsplit ih =>
      exact exists_assign?_cover hsplit (fun scope _ _ h => .cover scope h) (fun _ => ih) hassign

/-- If the upper part is still empty, closing it gives the first environment back. -/
theorem pop?_of_inner_eq_nil (h : Split 0 env env') (hinner : env'.inner = []) :
    env'.pop? = some env := by
  cases h with
  | base _ hnil =>
      rw [pop?, hnil hinner]

end Split

/-- No operation tells a scope from a split one. -/
def splitBisimulation : Bisimulation id where
  rel := Split
  get? := fun h x => h.get? x
  assign? := fun h hassign => h.assign? hassign
  define := fun h x v => h.define x v
  push := fun h => .cover [] h
  pop? := fun h => by
    cases h with
    | cover scope h => exact ⟨_, _, rfl, rfl, h⟩

end Env

/-! ## Statements that declare nothing -/

namespace Exec

/-- Statements that declare nothing leave an empty innermost scope empty. -/
theorem sequence_inner_eq_nil {most : Nat} {statement : Node → Exec Unit}
    (h : DeclaresOnly most statement) {ss : List Node} (hss : ∀ s ∈ ss, s.declared = [])
    {m : Machine} (hm : m.env.inner = []) :
    LeavesOver most (sequence statement ss) m (·.inner = []) := by
  refine ends_sequence_of (fun m' => m'.env.inner = []) (fun s m' hs hm' => ?_) hss hm
  refine (h s m').imp (fun _ after hadds => Scope.eq_nil_of_names fun x hx => ?_)
    (fun _ after hstop => hstop.imp fun env hnames => Scope.eq_nil_of_names fun x hx => ?_)
  · have hmem := (hadds.inner x).1 hx
    rw [hs, hm'] at hmem
    simp [Scope.names] at hmem
  · rw [(List.cons.inj hnames).1, hm'] at hx
    simp [Scope.names] at hx

section Closing

variable [Closing] {ss : List Node} (hss : ∀ s ∈ ss, s.declared = []) (rounds room : Nat)

include hss

/-- Statements that declare nothing run in a scope of their own as they do without, unless the
nesting limit stops them there and scopes may stay open.  If there is room to close the scope, the
limit stops them without it as well. -/
theorem inScope_sequence (m : Machine) :
    inScope room (sequence (execute rounds room) ss) m = sequence (execute rounds room) ss m ∨
      0 < Closing.room ∧
        (∃ m', inScope room (sequence (execute rounds room) ss) m =
          .error .nestingTooDeep m') ∧
        (Closing.room ≤ room →
          ∃ m', sequence (execute rounds room) ss m = .error .nestingTooDeep m') := by
  have hstart : Env.splitBisimulation.machine 0 m ⟨m.env.push, m.printed⟩ :=
    ⟨Env.split_push m.env, rfl⟩
  have halike := Env.splitBisimulation.coupled_sequence
    ((Env.splitBisimulation.coupled_execute_and_block rounds room).1 0) ss _ _ hstart
  rw [Node.renameList_id] at halike
  have hdeclares := (execute_and_block_names rounds room).1
  have hinner := sequence_inner_eq_nil hdeclares hss (m := ⟨m.env.push, m.printed⟩) rfl
  have hpop := sequence_pop? hdeclares ss m
  generalize hrun : sequence (execute rounds room) ss m = ending,
    hbody : sequence (execute rounds room) ss ⟨m.env.push, m.printed⟩ = ending' at halike
  cases halike with
  | @ok u after after' hafter =>
      obtain ⟨hsplit, hprinted⟩ := hafter
      refine .inl ?_
      simp only [inScope, hbody, hsplit.pop?_of_inner_eq_nil (hinner.of_ok hbody), hprinted]
  | @error fault after after' hstopped =>
      obtain ⟨k, -, ⟨hsplit, hprinted⟩, hk⟩ := hstopped
      rw [Fault.rename_id] at hbody
      by_cases hopen : StaysOpen room fault
      · exact .inr ⟨Nat.zero_lt_of_lt hopen.1, ⟨after', inScope_of_staysOpen hbody hopen⟩,
          fun hle => absurd hopen.1 (Nat.not_lt.2 hle)⟩
      · by_cases hleft : fault = .nestingTooDeep ∧ 0 < Closing.room
        · obtain ⟨rfl, hclosing⟩ := hleft
          obtain ⟨env, hpop⟩ := hpop.of_error hbody
          exact .inr ⟨hclosing, ⟨_, inScope_of_error hbody hopen hpop⟩, fun _ => ⟨after, rfl⟩⟩
        · -- no scope stayed open, so what is closed is the scope of the statements
          obtain rfl : k = 0 := Decidable.byContradiction fun hne => hleft (hk hne)
          have hempty := (hinner.of_error hbody).of_closed fun h => hleft ⟨h.1, by omega⟩
          refine .inl ((inScope_of_error hbody hopen (hsplit.pop?_of_inner_eq_nil hempty)).trans ?_)
          rw [hprinted]

/-- The scope only adds endings that the nesting limit cuts short. -/
theorem inScope_agrees_sequence :
    AgreesUnless .nestingTooDeep (inScope room (sequence (execute rounds room) ss))
      (sequence (execute rounds room) ss) :=
  fun m => (inScope_sequence hss rounds room m).imp_right fun h => h.2.1

/-- Where there is room to close it, the scope takes no other endings away. -/
theorem sequence_agrees_inScope (hroom : Closing.room ≤ room) :
    AgreesUnless .nestingTooDeep (sequence (execute rounds room) ss)
      (inScope room (sequence (execute rounds room) ss)) :=
  fun m => (inScope_sequence hss rounds room m).imp Eq.symm fun h => h.2.2 hroom

end Closing

end Exec

open Exec

/-- **A block that declares nothing is transparent.**  Its statements print the same in the
block and without it, end the same way, and leave the same scopes.  The block takes two units
of room more, and as many as closing its scope takes: with so much more it is the same run, unless
closing takes some and the nesting limit cuts the statements short; and with the same room it is,
unless the nesting limit cuts the block short. -/
theorem block_transparent [Closing] {ss : List Node} (hss : ∀ s ∈ ss, s.declared = [])
    (line : Int) (rounds limit : Nat) (m : Machine) :
    (execute rounds (limit + 2 + Closing.room) (.block line ss) m =
        sequence (execute rounds limit) ss m ∨
      0 < Closing.room ∧
        ∃ m', sequence (execute rounds limit) ss m = .error .nestingTooDeep m') ∧
    (execute rounds limit (.block line ss) m = sequence (execute rounds limit) ss m ∨
      ∃ m', execute rounds limit (.block line ss) m = .error .nestingTooDeep m') := by
  constructor
  · rw [Nat.add_right_comm limit 2]
    rcases Nat.eq_zero_or_pos Closing.room with hnone | hclosing
    · rw [hnone]
      rcases inScope_sequence hss rounds limit m with heq | ⟨hclosing, -⟩
      · exact .inl heq
      · exact absurd hnone (Nat.ne_of_gt hclosing)
    · have hagrees := (sequence_agrees rounds limit Closing.room ss).trans
        (sequence_agrees_inScope hss rounds (limit + Closing.room) (Nat.le_add_left ..))
      exact (hagrees m).imp Eq.symm fun hcut => ⟨hclosing, hcut⟩
  · match limit with
    | 0 => exact .inr ⟨m, rfl⟩
    | 1 => exact .inr ⟨m, rfl⟩
    | room + 2 =>
        exact ((inScope_agrees_sequence hss rounds room).trans (sequence_agrees rounds room 2 ss)) m

/-- A block without declarations of its own: it assigns through a block that shadows the
variable, repeats a body that declares, and divides by zero. -/
theorem block_transparent_division :
    let ss : List Node := [.block 1 [.letStmt 1 "x" (.literal 1 5), .exprStmt 1
        (.assign 1 "y" (.reference 1 "x"))],
      .whileStmt 2 (.reference 2 "x") [.letStmt 2 "z" (.reference 2 "x"), .exprStmt 2
        (.assign 2 "x" (.binary 2 (some (.binary .subtract)) (.reference 2 "z") (.literal 2 1)))],
      .printStmt 3 (.binary 3 (some (.binary .divide)) (.reference 3 "y") (.reference 3 "x"))]
    let m : Machine := ⟨⟨[("x", 2)], [[("y", 0)]]⟩, #[]⟩
    (∀ s ∈ ss, s.declared = []) ∧ ∀ rounds limit,
      execute rounds (limit + 2) (.block 0 ss) m = sequence (execute rounds limit) ss m ∧
      (execute rounds limit (.block 0 ss) m = sequence (execute rounds limit) ss m ∨
        ∃ m', execute rounds limit (.block 0 ss) m = .error .nestingTooDeep m') := by
  intro ss m
  have hss : ∀ s ∈ ss, s.declared = [] := by simp [ss, Node.declared]
  refine ⟨hss, fun rounds limit => ?_⟩
  obtain ⟨hmore, hsame⟩ := block_transparent hss 0 rounds limit m
  exact ⟨hmore.resolve_right fun h => Nat.lt_irrefl 0 h.1, hsame⟩

end RillLang
