import RillLang.Proofs.Machine.Rules

/-!
# Spines of binary nodes

A binary node is evaluated together with the binary nodes down its left side: their leftmost
operand first, and then each link in turn, all in the same room.  `alongSpine` is that
evaluation, for a node of any kind.  It can be taken apart at the outermost link, as if a
binary node were evaluated by itself (`alongSpine_binary`).
-/

namespace RillLang.Eval

open Ending

/-- Evaluates the leftmost operand of a node and then the links of its spine. -/
def alongSpine (room : Nat) (e : Node) : Eval Int := do
  let left ← evaluate room (spine e []).1
  fold (evaluate room) (spine e []).2 left

/-- By itself a binary node is evaluated along its spine, in a smaller room. -/
theorem evaluate_binary (room : Nat) (line : Int) (op : Option Operator) (l r : Node) :
    evaluate (room + 2) (.binary line op l r) = alongSpine room (.binary line op l r) := rfl

/-- A node that is not binary is its own leftmost operand, and has no links. -/
theorem alongSpine_of_ne {e : Node} (h : ∀ line op l r, e ≠ .binary line op l r) (room : Nat) :
    alongSpine room e = evaluate room e := by
  have hspine : spine e [] = (e, []) := by
    cases e with
    | binary line op l r => exact absurd rfl (h line op l r)
    | _ => rfl
  rw [alongSpine, hspine]
  exact bind_pure (evaluate room e)

/-- Links that come after a node come after those of its spine. -/
theorem spine_append (e : Node) (links more : List Link) :
    spine e (links ++ more) = ((spine e links).1, (spine e links).2 ++ more) := by
  fun_induction spine e links with
  | case1 line op l r links ih =>
      rw [spine, ← List.cons_append]
      exact ih
  | case2 e links h =>
      cases e with
      | binary line op l r => exact absurd rfl (h line op l r)
      | _ => rfl

theorem fold_append (operand : Node → Eval Int) (links more : List Link) (left : Int) :
    fold operand (links ++ more) left = (fold operand links left >>= fold operand more) := by
  induction links generalizing left with
  | nil => rfl
  | cons link links ih =>
      obtain ⟨op, r⟩ := link
      simp only [List.cons_append, fold, ih, bind_assoc]

/-- A binary node evaluates its left operand along the spine, then its right operand, and
then applies its operator. -/
theorem alongSpine_binary (room : Nat) (line : Int) (op : Option Operator) (l r : Node) :
    alongSpine room (.binary line op l r) = (do
      let left ← alongSpine room l
      let right ← evaluate room r
      ofExcept (applyBinary op left right)) := by
  have hlast (left : Int) : fold (evaluate room) [(op, r)] left = (do
      let right ← evaluate room r
      ofExcept (applyBinary op left right)) := by
    simp only [fold]
    exact bind_congr fun right => bind_pure _
  have hspine := spine_append l [] [(op, r)]
  rw [List.nil_append] at hspine
  rw [alongSpine, alongSpine, spine, hspine, bind_assoc]
  refine bind_congr fun left => ?_
  rw [fold_append]
  exact bind_congr hlast

end RillLang.Eval
