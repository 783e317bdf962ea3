import RillLang.Proofs.Machine.Rules

/-!
# Scopes that stay open

A block closes its scope however it ends, but to close a scope after a fault may take room
(`Closing`), and at the end of its room a block may not have it.  Then its scope stays open, and
the run stops because of the nesting limit.  The blocks around it still close one scope each: the
innermost one that is open, whichever that is.  So scopes are left over, on top of what the run
would have left without them.

* `Env.under` — an environment with scopes on top of it.
* `Exec.LeavesOver` — the computation leaves an environment of a kind, or the nesting limit stops
  it with no more than some number of scopes left open over one.
* `Exec.leavesOver_inScope` — the rule for scopes.
-/

namespace RillLang

open Ending

namespace Env

/-- The environment under scopes that are on top of it, the innermost first. -/
def under (env : Env) : List Scope → Env
  | [] => env
  | scope :: left => ⟨scope, left ++ env.scopes⟩

theorem under_nil (env : Env) : env.under [] = env := rfl

/-- The innermost scope is the first to be closed. -/
theorem pop?_under_cons (env : Env) (scope : Scope) (left : List Scope) :
    (env.under (scope :: left)).pop? = some (env.under left) := by
  cases left with
  | nil => rfl
  | cons above left => rfl

/-- There is a scope to be closed when there is one without the scopes on top. -/
theorem exists_pop?_under {env outer : Env} (h : env.pop? = some outer) (left : List Scope) :
    ∃ env', (env.under left).pop? = some env' := by
  cases left with
  | nil => exact ⟨outer, h⟩
  | cons scope left => exact ⟨env.under left, pop?_under_cons env scope left⟩

/-- Scopes on top of an environment are on top of the scopes around its innermost one, with that
one below them. -/
theorem under_eq_of_pop? {env outer : Env} (h : env.pop? = some outer) (left : List Scope) :
    env.under left = outer.under (left ++ [env.inner]) := by
  obtain ⟨inner, scopes⟩ := env
  cases scopes with
  | nil => cases h
  | cons scope rest =>
      cases h
      cases left with
      | nil => rfl
      | cons above left => simp [under, scopes]

end Env

namespace Exec

/-- What a run leaves that has stopped: an environment of the kind; or, if it was the nesting limit
that stopped it, such an environment with scopes left open over it, up to some number of them. -/
def StopsOver (most : Nat) (kind : Env → Prop) (fault : Fault) (m : Machine) : Prop :=
  ∃ left env, m.env = env.under left ∧ kind env ∧ left.length ≤ most ∧
    (left ≠ [] → fault = .nestingTooDeep)

/-- The computation leaves an environment of the kind, or is stopped by the nesting limit and
leaves scopes open over one, up to some number of them. -/
def LeavesOver {α : Type} (most : Nat) (c : Exec α) (m : Machine) (kind : Env → Prop) : Prop :=
  Ends c m (fun _ m' => kind m'.env) (StopsOver most kind)

variable {α : Type} {most : Nat} {kind kind' : Env → Prop} {fault : Fault} {m : Machine}
  {c : Exec α}

/-- No scope need be left open. -/
theorem stopsOver_of (h : kind m.env) : StopsOver most kind fault m :=
  ⟨[], m.env, rfl, h, Nat.zero_le most, fun hleft => (hleft rfl).elim⟩

theorem StopsOver.imp (h : StopsOver most kind fault m) (hkind : ∀ env, kind env → kind' env) :
    StopsOver most kind' fault m := by
  obtain ⟨left, env, heq, henv, hleft⟩ := h
  exact ⟨left, env, heq, hkind env henv, hleft⟩

theorem StopsOver.mono {most' : Nat} (h : StopsOver most kind fault m) (hle : most ≤ most') :
    StopsOver most' kind fault m := by
  obtain ⟨left, env, heq, henv, hlength, hfault⟩ := h
  exact ⟨left, env, heq, henv, Nat.le_trans hlength hle, hfault⟩

/-- No scope was left open if it was not the nesting limit that stopped the run, or if none
may be. -/
theorem StopsOver.of_closed (h : StopsOver most kind fault m)
    (hclosed : ¬ (fault = .nestingTooDeep ∧ 0 < most)) : kind m.env := by
  obtain ⟨left, env, heq, henv, hlength, hfault⟩ := h
  cases left with
  | nil => exact heq ▸ henv
  | cons scope left =>
      exact (hclosed ⟨hfault (List.cons_ne_nil scope left), Nat.zero_lt_of_lt hlength⟩).elim

/-- A scope that was to be closed is one more of those that are left open, over what closing it
would have uncovered. -/
theorem stopsOver_of_pop? {left : List Scope} {env outer : Env} (heq : m.env = env.under left)
    (hpop : env.pop? = some outer) (houter : kind outer) (hlength : left.length < most) :
    StopsOver most kind .nestingTooDeep m := by
  refine ⟨left ++ [env.inner], outer, heq.trans (Env.under_eq_of_pop? hpop left), houter, ?_,
    fun _ => rfl⟩
  rw [List.length_append, List.length_singleton]
  exact hlength

theorem LeavesOver.imp (h : LeavesOver most c m kind) (hkind : ∀ env, kind env → kind' env) :
    LeavesOver most c m kind' :=
  Ends.imp h (fun _ _ => hkind _) (fun _ _ hstop => hstop.imp hkind)

theorem LeavesOver.mono {most' : Nat} (h : LeavesOver most c m kind) (hle : most ≤ most') :
    LeavesOver most' c m kind :=
  Ends.imp h (fun _ _ henv => henv) (fun _ _ hstop => hstop.mono hle)

/-- Where no scope may be left open, the computation leaves an environment of the kind. -/
theorem LeavesOver.leaves (h : LeavesOver 0 c m kind) : Leaves c m (fun m' => kind m'.env) :=
  Ends.imp h (fun _ _ henv => henv)
    (fun _ _ hstop => hstop.of_closed fun hleft => Nat.lt_irrefl 0 hleft.2)

/-- A scope is closed, or it is one more of those that are left open. -/
theorem leavesOver_inScope [Closing] {room : Nat} {body : Exec Unit}
    (h : LeavesOver (min room Closing.room) body ⟨m.env.push, m.printed⟩ kind')
    (hkind : ∀ env, kind' env → ∃ outer, env.pop? = some outer ∧ kind outer) :
    LeavesOver (min (room + 1) Closing.room) (inScope room body) m kind := by
  refine ends_inScope.2 (Ends.imp h (fun _ m' henv => ?_) ?_)
  · obtain ⟨outer, hpop, houter⟩ := hkind m'.env henv
    rw [hpop]
    exact houter
  · rintro fault m' ⟨left, env, heq, henv, hlength, hfault⟩
    obtain ⟨outer, hpop, houter⟩ := hkind env henv
    by_cases hopen : StaysOpen room fault
    · rw [if_pos hopen]
      -- there is a unit of room for each scope that stays open
      have hroom : room < Closing.room := hopen.1
      exact stopsOver_of_pop? heq hpop houter (by omega)
    · rw [if_neg hopen]
      cases left with
      | nil =>
          rw [Env.under_nil] at heq
          rw [heq, hpop]
          exact stopsOver_of houter
      | cons scope left =>
          rw [List.length_cons] at hlength
          rw [heq, Env.pop?_under_cons, hfault (List.cons_ne_nil scope left)]
          exact stopsOver_of_pop? rfl hpop houter (by omega)

end Exec

end RillLang
