import RillLang.Machine.Plain
import RillLang.Proofs.Machine.Room
import RillLang.Proofs.Machine.Spine

/-!
# Chains evaluate plainly

`Eval.evaluate` collects the left side of a chain of binary nodes and then applies the links
in order; `Eval.plain` goes down both sides of each node.  They are the same evaluation: the
same value or fault, and the same effects (`evaluate_eq_plain`).

Taken apart at its outermost link, the evaluation along a spine is the plain one of that
node.  So an expression that is given room enough is evaluated plainly
(`Eval.exists_plainFrom`).  With less room its evaluation is cut short or goes the same way.
-/

namespace RillLang

open Ending

/-- A node of no form of an expression. -/
theorem Node.isExpression_eq_false {e : Node} (hliteral : ∀ line v, e = .literal line v → False)
    (hreference : ∀ line x, e = .reference line x → False)
    (hassign : ∀ line x e', e = .assign line x e' → False)
    (hunary : ∀ line op e', e = .unary line op e' → False)
    (hbinary : ∀ line op l r, e = .binary line op l r → False) : e.isExpression = false := by
  cases e with
  | literal line v => exact (hliteral line v rfl).elim
  | reference line x => exact (hreference line x rfl).elim
  | assign line x e => exact (hassign line x e rfl).elim
  | unary line op e => exact (hunary line op e rfl).elim
  | binary line op l r => exact (hbinary line op l r rfl).elim
  | _ => rfl

namespace Eval

/-- In every room that is not smaller than `need` the expression is evaluated plainly, by
itself and along its spine. -/
def PlainFrom (need : Nat) (e : Node) : Prop :=
  ∀ room, evaluate (room + need) e = plain e ∧ alongSpine (room + need) e = plain e

theorem plainFrom_of_evaluate {need : Nat} {e : Node}
    (hbinary : ∀ line op l r, e ≠ .binary line op l r)
    (h : ∀ room, evaluate (room + need) e = plain e) : PlainFrom need e :=
  fun room => ⟨h room, (alongSpine_of_ne hbinary _).trans (h room)⟩

theorem PlainFrom.assign {need : Nat} {e : Node} (h : PlainFrom need e) (line : Int)
    (x : String) : PlainFrom (need + 1) (.assign line x e) := by
  refine plainFrom_of_evaluate (by rintro _ _ _ _ ⟨⟩) fun room => ?_
  rw [← Nat.add_assoc, evaluate, (h room).1, plain]

theorem PlainFrom.unary {need : Nat} {e : Node} (h : PlainFrom need e) (line : Int)
    (op : Option Operator) : PlainFrom (need + 1) (.unary line op e) := by
  refine plainFrom_of_evaluate (by rintro _ _ _ _ ⟨⟩) fun room => ?_
  rw [← Nat.add_assoc, evaluate, (h room).1, plain]

/-- The left operand goes on along the spine, and the right one is evaluated by itself. -/
theorem PlainFrom.binary {need need' : Nat} {l r : Node} (hl : PlainFrom need l)
    (hr : PlainFrom need' r) (line : Int) (op : Option Operator) :
    PlainFrom (need + need' + 2) (.binary line op l r) := by
  have hspine (room : Nat) :
      alongSpine (room + (need + need')) (.binary line op l r) = plain (.binary line op l r) := by
    have hleft := (hl (room + need')).2
    have hright := (hr (room + need)).1
    rw [Nat.add_assoc, Nat.add_comm need'] at hleft
    rw [Nat.add_assoc] at hright
    rw [alongSpine_binary, hleft, hright, plain]
  refine fun room => ⟨?_, ?_⟩
  · rw [← Nat.add_assoc, evaluate_binary]
    exact hspine room
  · rw [Nat.add_comm _ 2, ← Nat.add_assoc]
    exact hspine (room + 2)

theorem plainFrom_of_not_isExpression {e : Node} (h : e.isExpression = false) :
    PlainFrom 1 e := by
  cases e with
  | literal | reference | assign | unary | binary => cases h
  | _ => exact plainFrom_of_evaluate (by rintro _ _ _ _ ⟨⟩) fun _ => rfl

/-- Every expression is evaluated plainly from some room on. -/
theorem exists_plainFrom (e : Node) : ∃ need, PlainFrom need e := by
  induction e using plain.induct with
  | case1 line v => exact ⟨1, plainFrom_of_evaluate (by rintro _ _ _ _ ⟨⟩) fun _ => rfl⟩
  | case2 line x => exact ⟨1, plainFrom_of_evaluate (by rintro _ _ _ _ ⟨⟩) fun _ => rfl⟩
  | case3 line x e ih =>
      obtain ⟨need, hneed⟩ := ih
      exact ⟨need + 1, hneed.assign line x⟩
  | case4 line op e ih =>
      obtain ⟨need, hneed⟩ := ih
      exact ⟨need + 1, hneed.unary line op⟩
  | case5 line op l r ihl ihr =>
      obtain ⟨need, hneed⟩ := ihl
      obtain ⟨need', hneed'⟩ := ihr
      exact ⟨need + need' + 2, hneed.binary hneed' line op⟩
  | case6 e hliteral hreference hassign hunary hbinary =>
      exact ⟨1, plainFrom_of_not_isExpression
        (Node.isExpression_eq_false hliteral hreference hassign hunary hbinary)⟩

end Eval

/-- **Chains evaluate plainly.**  Whatever the tree, whatever the environment and whatever the
room, an evaluation either uses up its room or ends as the plain one does: with the same
value or the same fault, and with the same scopes.  And for every tree there is a room from
which on nothing is used up, so that the two are the same on every environment. -/
theorem evaluate_eq_plain (e : Node) :
    (∀ room env, Eval.evaluate room e env = Eval.plain e env ∨
      ∃ env', Eval.evaluate room e env = .error .nestingTooDeep env') ∧
    ∃ need, ∀ room env, Eval.evaluate (room + need) e env = Eval.plain e env := by
  obtain ⟨need, hneed⟩ := Eval.exists_plainFrom e
  refine ⟨fun room env => ?_, need, fun room env => by rw [(hneed room).1]⟩
  have hagree := Eval.evaluate_agrees room need e env
  rwa [(hneed room).1] at hagree

end RillLang
