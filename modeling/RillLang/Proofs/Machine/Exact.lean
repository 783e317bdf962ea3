import Mathlib.Data.List.Forall2
import RillLang.Proofs.Machine.Plain
import RillLang.Proofs.Machine.Words
import RillLang.Proofs.Word
import RillLang.Tree.Polynomial

/-!
# Wrapping at every step is wrapping once

`Eval.evaluate` wraps the result of every operator, and an assignment stores what was wrapped.
`Eval.exact` computes in the unbounded integers and wraps nothing.  The evaluation of a polynomial
ends the same way in both, with congruent values and with environments that differ by multiples of
`modulus` only (`evaluate_congruent_exact`).

The two environments drift apart from the first assignment on.  So the simulation starts from
environments that are congruent (`Env.Congruent`), and every operation keeps them so:
`Env.Congruent.get?` for what is read and `Env.Congruent.assign?` for what is stored.
-/

namespace RillLang

open Ending Word

/-! ## Congruent environments -/

/-- The scopes bind the same names, in the same order, to values that differ by multiples of
`modulus`. -/
def Scope.Congruent (s s' : Scope) : Prop :=
  List.Forall₂ (fun b b' => b.1 = b'.1 ∧ b.2 ≡ b'.2 [ZMOD modulus]) s s'

/-- The environments have as many scopes, and these bind the same names to congruent values. -/
def Env.Congruent (env env' : Env) : Prop := List.Forall₂ Scope.Congruent env.scopes env'.scopes

namespace Scope.Congruent

variable {s s' : Scope}

theorem refl (s : Scope) : s.Congruent s :=
  List.forall₂_same.2 fun _ _ => ⟨rfl, Int.ModEq.refl _⟩

theorem get? (h : s.Congruent s') (x : String) :
    Option.Rel (· ≡ · [ZMOD modulus]) (s.get? x) (s'.get? x) := by
  induction h with
  | nil => exact .none
  | @cons b b' rest rest' hb _ ih =>
      obtain ⟨y, w⟩ := b
      obtain ⟨y', w'⟩ := b'
      obtain ⟨rfl, hw⟩ := hb
      by_cases hy : y = x
      · simp only [Scope.get?, if_pos hy]
        exact .some hw
      · simpa only [Scope.get?, if_neg hy] using ih

theorem set (h : s.Congruent s') (x : String) {v v' : Int} (hv : v ≡ v' [ZMOD modulus]) :
    (s.set x v).Congruent (s'.set x v') := by
  induction h with
  | nil => exact .cons ⟨rfl, hv⟩ .nil
  | @cons b b' rest rest' hb hrest ih =>
      obtain ⟨y, w⟩ := b
      obtain ⟨y', w'⟩ := b'
      obtain ⟨rfl, hw⟩ := hb
      by_cases hy : y = x
      · simp only [Scope.set, if_pos hy]
        exact .cons ⟨rfl, hv⟩ hrest
      · simp only [Scope.set, if_neg hy]
        exact .cons ⟨rfl, hw⟩ ih

end Scope.Congruent

namespace Env

theorem getIn?_congruent {scopes scopes' : List Scope}
    (h : List.Forall₂ Scope.Congruent scopes scopes') (x : String) :
    Option.Rel (· ≡ · [ZMOD modulus]) (getIn? scopes x) (getIn? scopes' x) := by
  induction h with
  | nil => exact .none
  | @cons scope scope' rest rest' hscope _ ih =>
      rw [getIn?, getIn?]
      have hget := hscope.get? x
      generalize scope.get? x = value, scope'.get? x = value' at hget
      cases hget with
      | some hv => exact .some hv
      | none => exact ih

/-- Congruent scopes bind the variable at the same depth, so that it is assigned there in both. -/
theorem assignIn?_congruent {scopes scopes' : List Scope}
    (h : List.Forall₂ Scope.Congruent scopes scopes') (x : String) {v v' : Int}
    (hv : v ≡ v' [ZMOD modulus]) :
    Option.Rel (List.Forall₂ Scope.Congruent) (assignIn? scopes x v) (assignIn? scopes' x v') := by
  induction h with
  | nil => exact .none
  | @cons scope scope' rest rest' hscope hrest ih =>
      rw [assignIn?, assignIn?]
      have hget := hscope.get? x
      generalize scope.get? x = value, scope'.get? x = value' at hget
      cases hget with
      | some _ => exact .some (.cons (hscope.set x hv) hrest)
      | none =>
          generalize assignIn? rest x v = after, assignIn? rest' x v' = after' at ih
          cases ih with
          | some hafter => exact .some (.cons hscope hafter)
          | none => exact .none

namespace Congruent

variable {env env' : Env}

theorem refl (env : Env) : env.Congruent env :=
  List.forall₂_same.2 fun scope _ => Scope.Congruent.refl scope

theorem get? (h : env.Congruent env') (x : String) :
    Option.Rel (· ≡ · [ZMOD modulus]) (env.get? x) (env'.get? x) :=
  getIn?_congruent h x

theorem assign? (h : env.Congruent env') (x : String) {v v' : Int}
    (hv : v ≡ v' [ZMOD modulus]) :
    Option.Rel Congruent (env.assign? x v) (env'.assign? x v') := by
  have hscopes := assignIn?_congruent h x hv
  rw [assignIn?_scopes, assignIn?_scopes] at hscopes
  generalize env.assign? x v = after, env'.assign? x v' = after' at hscopes
  cases after with
  | some after =>
      cases after' with
      | some after' =>
          cases hscopes with
          | some hafter => exact .some hafter
      | none => cases hscopes
  | none =>
      cases after' with
      | some after' => cases hscopes
      | none => exact .none

end Congruent

end Env

/-! ## Congruent evaluations -/

namespace Eval

/-- Two endings of one kind, with congruent values or with the same fault, that leave congruent
environments. -/
inductive CongruentEnds : EStateM.Result Fault Env Int → EStateM.Result Fault Env Int → Prop
  | ok {v v' : Int} {env env' : Env} :
      v ≡ v' [ZMOD modulus] → env.Congruent env' → CongruentEnds (.ok v env) (.ok v' env')
  | error {fault : Fault} {env env' : Env} :
      env.Congruent env' → CongruentEnds (.error fault env) (.error fault env')

/-- From congruent environments the two evaluations have congruent endings. -/
def Congruent (c c' : Eval Int) : Prop :=
  ∀ env env', env.Congruent env' → CongruentEnds (c env) (c' env')

theorem congruent_pure {v v' : Int} (hv : v ≡ v' [ZMOD modulus]) :
    Congruent (pure v) (pure v') :=
  fun _ _ henv => .ok hv henv

theorem Congruent.bind {x x' : Eval Int} {f f' : Int → Eval Int} (hx : Congruent x x')
    (hf : ∀ v v', v ≡ v' [ZMOD modulus] → Congruent (f v) (f' v')) :
    Congruent (x >>= f) (x' >>= f') := by
  intro env env' henv
  have hfirst := hx env env' henv
  rw [bind_apply, bind_apply]
  generalize x env = first, x' env' = first' at hfirst
  cases hfirst with
  | ok hv hmid => exact hf _ _ hv _ _ hmid
  | error hmid => exact .error hmid

theorem congruent_get (x : String) : Congruent (get x) (get x) := by
  intro env env' henv
  unfold get
  have hget := henv.get? x
  generalize env.get? x = value, env'.get? x = value' at hget
  cases hget with
  | some hv => exact .ok hv henv
  | none => exact .error henv

/-- What is stored may differ by a multiple of `modulus`. -/
theorem congruent_assign (x : String) {v v' : Int} (hv : v ≡ v' [ZMOD modulus]) :
    Congruent (do assign x v; return v) (do assign x v'; return v') := by
  intro env env' henv
  rw [bind_apply, bind_apply]
  unfold assign
  have hassign := henv.assign? x hv
  generalize env.assign? x v = after, env'.assign? x v' = after' at hassign
  cases hassign with
  | some hafter => exact .ok hv hafter
  | none => exact .error henv

/-! ## Polynomials -/

theorem congruent_negate {v v' : Int} (hv : v ≡ v' [ZMOD modulus]) :
    Congruent (ofExcept (applyUnary (some .negate) v)) (pure (-v')) :=
  congruent_pure ((wrap_modEq _).trans hv.neg)

/-- A sum, a difference or a product depends on its operands modulo `modulus` only. -/
theorem congruent_binary {op : BinaryOperator}
    (hop : op ∈ [BinaryOperator.add, .subtract, .multiply])
    {l l' r r' : Int} (hl : l ≡ l' [ZMOD modulus]) (hr : r ≡ r' [ZMOD modulus]) :
    Congruent (ofExcept (applyBinary (some (.binary op)) l r))
      (ofExcept (applyExact (some (.binary op)) l' r')) := by
  cases op with
  | add => exact congruent_pure ((wrap_modEq _).trans (hl.add hr))
  | subtract => exact congruent_pure ((wrap_modEq _).trans (hl.sub hr))
  | multiply => exact congruent_pure ((wrap_modEq _).trans (hl.mul hr))
  | _ => simp at hop

/-- The simulation, by induction on the polynomial.  Its operands are evaluated one after the other,
so that the environments of the second may have drifted apart already. -/
theorem congruent_plain_exact {e : Node} (he : e.Polynomial) : Congruent (plain e) (exact e) := by
  induction he with
  | literal line v => exact congruent_pure (Int.ModEq.refl v)
  | reference line x => exact congruent_get x
  | assign line x _ ih => exact ih.bind fun _ _ hv => congruent_assign x hv
  | negate line _ ih => exact ih.bind fun _ _ hv => congruent_negate hv
  | binary line hop _ _ ihl ihr =>
      exact ihl.bind fun _ _ hl => ihr.bind fun _ _ hr => congruent_binary hop hl hr

/-! ## Words -/

/-- The contract of expressions whose literals are words, on environments of words: the value is a
word. -/
def wordLiterals : Contract where
  expr := fun e => ∀ v ∈ e.literals, InRange v
  env := Env.AllWords
  value := InRange
  fault := fun _ => True

theorem wordLiterals_sound : wordLiterals.Sound where
  nestingTooDeep := trivial
  literal := fun he => he _ (List.mem_singleton_self _)
  reference := fun _ _ henv => ends_get (fun _ hget => ⟨henv.get? hget, henv⟩)
    (fun _ => ⟨trivial, henv⟩)
  assign := fun he => ⟨he, fun v hv env henv => by
    rw [ends_bind]
    exact ends_assign (fun env' hassign => ⟨hv, henv.assign? hv hassign⟩)
      (fun _ => ⟨trivial, henv⟩)⟩
  unary := fun he => ⟨he, fun _ _ =>
    Contract.keeps_ofExcept (fun _ => applyUnary_inRange) (fun _ _ => trivial)⟩
  binary := fun he => ⟨(List.forall_mem_append.1 he).1, (List.forall_mem_append.1 he).2,
    fun _ _ _ _ => Contract.keeps_ofExcept (fun _ => applyBinary_inRange) (fun _ _ => trivial)⟩
  other := fun _ _ => trivial

/-- A word that is congruent to an integer is that integer wrapped. -/
theorem CongruentEnds.eq_wrap {v : Int} {env : Env} {ending : EStateM.Result Fault Env Int}
    (h : CongruentEnds (.ok v env) ending) (hv : InRange v) :
    ∃ u env', ending = .ok u env' ∧ v = wrap u := by
  cases h with
  | @ok v u env env' hcongruent _ =>
      exact ⟨u, env', rfl, by rw [← wrap_congr hcongruent, wrap_eq_self hv]⟩

end Eval

open Eval

/-- **Wrapping at every step is wrapping once.**  Whatever the environment, evaluating a
polynomial either uses up its room or ends as the exact evaluation does: both have a value or both
have the same fault, the values are congruent modulo `2^64`, and the environments that are left
bind the same names in the same scopes to congruent values.  For every polynomial there is a room
from which on nothing is used up.  If the literals and the variables are words, then the value is
the exact one wrapped. -/
theorem evaluate_congruent_exact {e : Node} (he : e.Polynomial) :
    (∀ room env, CongruentEnds (evaluate room e env) (exact e env) ∨
      ∃ env', evaluate room e env = .error .nestingTooDeep env') ∧
    (∃ need, ∀ room env, CongruentEnds (evaluate (room + need) e env) (exact e env)) ∧
    ∀ room env v after, (∀ w ∈ e.literals, InRange w) → env.AllWords →
      evaluate room e env = .ok v after →
        ∃ u after', exact e env = .ok u after' ∧ v = wrap u := by
  obtain ⟨need, hneed⟩ := exists_plainFrom e
  have hcongruent (env : Env) : CongruentEnds (plain e env) (exact e env) :=
    congruent_plain_exact he env env (Env.Congruent.refl env)
  have hcut (room : Nat) (env : Env) : CongruentEnds (evaluate room e env) (exact e env) ∨
      ∃ env', evaluate room e env = .error .nestingTooDeep env' := by
    rcases evaluate_agrees room need e env with heq | hcut
    · rw [heq, (hneed room).1]
      exact .inl (hcongruent env)
    · exact .inr hcut
  refine ⟨hcut, ⟨need, fun room env => ?_⟩, fun room env v after hliterals henv hvalue => ?_⟩
  · rw [(hneed room).1]
    exact hcongruent env
  · -- the value is known modulo `2^64`, and that it is a word fixes it
    have hv : InRange v :=
      ((wordLiterals_sound.evaluate hliterals room env henv).of_ok hvalue).1
    rcases hcut room env with hends | ⟨env', herror⟩
    · rw [hvalue] at hends
      exact hends.eq_wrap hv
    · rw [hvalue] at herror
      cases herror

/-- A variable is assigned a sum far beyond the words and read again: what was stored is `3` on one
side and `2^64 + 3` on the other. -/
theorem evaluate_congruent_exact_drift :
    let e : Node := .binary 1 (some (.binary .multiply))
      (.assign 1 "y" (.binary 1 (some (.binary .add)) (.binary 1 (some (.binary .multiply))
        (.literal 1 4611686018427387904) (.literal 1 4)) (.reference 1 "y")))
      (.unary 1 (some .negate) (.reference 1 "y"))
    let env : Env := ⟨[("x", 0)], [[("y", 3)]]⟩
    e.Polynomial ∧ evaluate 9 e env = .ok (-9) env ∧
      exact e env = .ok (-(modulus + 3) ^ 2) ⟨[("x", 0)], [[("y", modulus + 3)]]⟩ ∧
      (∀ w ∈ e.literals, InRange w) ∧ env.AllWords ∧ -9 = wrap (-(modulus + 3) ^ 2) := by
  intro e env
  have he : e.Polynomial := .binary 1 (by simp) (.assign 1 "y" (.binary 1 (by simp)
    (.binary 1 (by simp) (.literal 1 _) (.literal 1 4)) (.reference 1 "y")))
    (.negate 1 (.reference 1 "y"))
  have hvalue : evaluate 9 e env = .ok (-9) env := rfl
  have hexact : exact e env =
      .ok (-(modulus + 3) ^ 2) ⟨[("x", 0)], [[("y", modulus + 3)]]⟩ := rfl
  have hliterals : ∀ w ∈ e.literals, InRange w := by decide
  have henv : env.AllWords := by simp [env, Env.AllWords, Env.scopes, Scope.AllWords]; decide
  obtain ⟨u, after', hu, hwrap⟩ :=
    (evaluate_congruent_exact he).2.2 9 env (-9) env hliterals henv hvalue
  rw [hexact] at hu
  cases hu
  exact ⟨he, hvalue, hexact, hliterals, henv, hwrap⟩

end RillLang
