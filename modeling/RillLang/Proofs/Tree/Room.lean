import RillLang.Proofs.Tree.Reader

/-!
# More room changes nothing that was read

The room only decides whether a reader is cut short.  A reader that is not cut short
with some room does the same with any larger room: it returns the same tree, or
refuses for the same reason at the same token.  As every reader calls others with one
unit less, one more unit is added to all of them at once (`WithinNext`).

* `statement_within` — a statement, for any two amounts of room.
* `program_within` — a whole program.
-/

namespace RillLang.Reader

variable {α β : Type}

/-- The second reader does what the first one does wherever the first is not cut short
by the nesting limit. -/
def Within (r r' : Reader α) : Prop :=
  ∀ tokens, (∀ rest, r tokens ≠ .error .tooDeep rest) → r' tokens = r tokens

theorem within_refl (r : Reader α) : Within r r := fun _ _ => rfl

theorem Within.trans {r r' r'' : Reader α} (h : Within r r') (h' : Within r' r'') :
    Within r r'' := by
  intro tokens hne
  have heq : r' tokens = r tokens := h tokens hne
  rw [h' tokens (by rwa [heq]), heq]

/-- A reader that is cut short at once is within every reader. -/
theorem within_refuse (r : Reader α) : Within (refuse .tooDeep) r :=
  fun tokens hne => absurd rfl (hne tokens)

theorem Within.eq_ok {r r' : Reader α} (h : Within r r') {tokens rest : List Token} {a : α}
    (hr : r tokens = .ok a rest) : r' tokens = .ok a rest := by
  rw [h tokens (by simp [hr]), hr]

theorem Within.eq_error {r r' : Reader α} (h : Within r r') {tokens rest : List Token}
    {reject : Reject} (hr : r tokens = .error reject rest) (hne : reject ≠ .tooDeep) :
    r' tokens = .error reject rest := by
  rw [h tokens (by simp [hr, hne]), hr]

theorem Within.bind {r r' : Reader α} {f f' : α → Reader β} (h : Within r r')
    (hf : ∀ a, Within (f a) (f' a)) : Within (r >>= f) (r' >>= f') := by
  intro tokens hne
  cases hr : r tokens with
  | ok a mid =>
      rw [Ending.bind_of_ok hr] at hne ⊢
      rw [Ending.bind_of_ok (h.eq_ok hr)]
      exact hf a mid hne
  | error reject mid =>
      have hreject : reject ≠ .tooDeep := by
        rintro rfl
        exact hne mid (Ending.bind_of_error hr)
      rw [Ending.bind_of_error hr, Ending.bind_of_error (h.eq_error hr hreject)]

/-! ## The constructs and the repetitions -/

section Constructs

variable {r r' : Reader Node} {body body' : Reader (List Node)}

theorem Within.parenthesised (h : Within r r') : Within (parenthesised r) (parenthesised r') :=
  (within_refl _).bind fun _ => h.bind fun _ => within_refl _

theorem Within.letStatement (h : Within r r') : Within (letStatement r) (letStatement r') :=
  (within_refl _).bind fun _ => (within_refl _).bind fun _ => (within_refl _).bind fun _ =>
    h.bind fun _ => within_refl _

theorem Within.printStatement (h : Within r r') :
    Within (printStatement r) (printStatement r') :=
  (within_refl _).bind fun _ => h.parenthesised.bind fun _ => within_refl _

theorem Within.expressionStatement (h : Within r r') :
    Within (expressionStatement r) (expressionStatement r') :=
  (within_refl _).bind fun _ => h.bind fun _ => within_refl _

theorem Within.elseBranch (h : Within body body') :
    Within (elseBranch body) (elseBranch body') := by
  intro tokens hne
  rw [elseBranch_eq] at hne ⊢
  rw [elseBranch_eq]
  by_cases hk : kindAt tokens = .mark .elseWord
  · rw [if_pos hk] at hne ⊢
    rw [if_pos hk]
    exact (within_refl _).bind (fun _ => h.bind fun _ => within_refl _) tokens hne
  · rw [if_neg hk, if_neg hk]

/-- Repeating an item: the rounds are the same, and each item reads the same. -/
theorem Within.itemsOnto (h : Within r r') (stop : Kind → Bool) (rounds : Nat) :
    ∀ done, Within (itemsOnto stop r done rounds) (itemsOnto stop r' done rounds) := by
  induction rounds with
  | zero =>
      intro done tokens _
      rw [Reader.itemsOnto, Reader.itemsOnto]
  | succ rounds ih =>
      intro done tokens hne
      rw [Reader.itemsOnto] at hne ⊢
      rw [Reader.itemsOnto]
      split
      · rfl
      · rename_i hstop
        rw [if_neg hstop] at hne
        cases hr : r tokens with
        | ok node rest =>
            simp only [hr] at hne
            simp only [h.eq_ok hr]
            exact ih (node :: done) rest hne
        | error reject rest =>
            have hreject : reject ≠ .tooDeep := by
              rintro rfl
              simp [hr] at hne
            simp only [h.eq_error hr hreject]

theorem Within.items (h : Within r r') (rounds : Nat) (stop : Kind → Bool) :
    Within (items rounds stop r) (items rounds stop r') :=
  h.itemsOnto stop rounds []

theorem Within.chainOnto (h : Within r r') (operator? : Mark → Option BinaryOperator)
    (rounds : Nat) :
    ∀ left, Within (chainOnto operator? r left rounds) (chainOnto operator? r' left rounds) := by
  induction rounds with
  | zero =>
      intro left tokens _
      rw [Reader.chainOnto, Reader.chainOnto]
  | succ rounds ih =>
      intro left tokens hne
      rw [Reader.chainOnto] at hne ⊢
      rw [Reader.chainOnto]
      split
      · rfl
      · rename_i op line rest hop
        simp only [hop] at hne
        cases hr : r rest with
        | ok right rest' =>
            simp only [hr] at hne
            simp only [h.eq_ok hr]
            exact ih _ rest' hne
        | error reject rest' =>
            have hreject : reject ≠ .tooDeep := by
              rintro rfl
              simp [hr] at hne
            simp only [h.eq_error hr hreject]

theorem Within.chain (h : Within r r') (rounds : Nat)
    (operator? : Mark → Option BinaryOperator) :
    Within (chain rounds operator? r) (chain rounds operator? r') :=
  h.bind fun left => h.chainOnto operator? rounds left

end Constructs

/-! ## One more unit -/

/-- Every reader with this much room is within the same reader with one unit more. -/
structure WithinNext (rounds room : Nat) : Prop where
  statement : Within (statement rounds room) (statement rounds (room + 1))
  conditional : Within (conditional rounds room) (conditional rounds (room + 1))
  loop : Within (loop rounds room) (loop rounds (room + 1))
  block : Within (block rounds room) (block rounds (room + 1))
  expression : Within (expression rounds room) (expression rounds (room + 1))
  assignment : Within (assignment rounds room) (assignment rounds (room + 1))
  tier (t : Tier) : Within (tier rounds room t) (tier rounds (room + 1) t)
  operand (t : Tier) : Within (operand rounds room t) (operand rounds (room + 1) t)
  unary : Within (unary rounds room) (unary rounds (room + 1))
  primary : Within (primary rounds room) (primary rounds (room + 1))

theorem withinNext_zero (rounds : Nat) : WithinNext rounds 0 where
  statement := by rw [Reader.statement]; exact within_refuse _
  conditional := by rw [Reader.conditional]; exact within_refuse _
  loop := by rw [Reader.loop]; exact within_refuse _
  block := by rw [Reader.block]; exact within_refuse _
  expression := by rw [Reader.expression]; exact within_refuse _
  assignment := by rw [Reader.assignment]; exact within_refuse _
  tier t := by rw [Reader.tier]; exact within_refuse _
  operand t := by rw [Reader.operand]; exact within_refuse _
  unary := by rw [Reader.unary]; exact within_refuse _
  primary := by rw [Reader.primary]; exact within_refuse _

section Step

variable {rounds room : Nat} (ih : WithinNext rounds room)

include ih

theorem within_statement :
    Within (statement rounds (room + 1)) (statement rounds (room + 1 + 1)) := by
  intro tokens hne
  rw [statement_eq] at hne ⊢
  rw [statement_eq]
  split at hne
  · exact ih.expression.letStatement tokens hne
  · exact ih.expression.printStatement tokens hne
  · exact ih.conditional tokens hne
  · exact ih.loop tokens hne
  · exact (within_refl _).bind (fun _ => ih.block.bind fun _ => within_refl _) tokens hne
  · exact ih.expression.expressionStatement tokens hne

theorem within_conditional :
    Within (conditional rounds (room + 1)) (conditional rounds (room + 1 + 1)) := by
  rw [conditional, conditional]
  exact (within_refl _).bind fun _ => ih.expression.parenthesised.bind fun _ =>
    ih.block.bind fun _ => ih.block.elseBranch.bind fun _ => within_refl _

theorem within_loop : Within (loop rounds (room + 1)) (loop rounds (room + 1 + 1)) := by
  rw [loop, loop]
  exact (within_refl _).bind fun _ => ih.expression.parenthesised.bind fun _ =>
    ih.block.bind fun _ => within_refl _

theorem within_block : Within (block rounds (room + 1)) (block rounds (room + 1 + 1)) := by
  rw [block, block]
  exact (within_refl _).bind fun _ => (ih.statement.items rounds closesBlock).bind fun _ =>
    within_refl _

theorem within_assignment :
    Within (assignment rounds (room + 1)) (assignment rounds (room + 1 + 1)) := by
  intro tokens hne
  rcases assignment_cases tokens with ⟨name, line, sign, rest, -, -, heq⟩ | ⟨-, heq⟩
  · rw [heq] at hne ⊢
    rw [heq]
    exact ih.assignment.bind (fun _ => within_refl _) rest hne
  · rw [heq] at hne ⊢
    rw [heq]
    exact ih.tier .equality tokens hne

theorem within_operand (t : Tier) :
    Within (operand rounds (room + 1) t) (operand rounds (room + 1 + 1) t) := by
  rw [operand, operand]
  cases t.tighter with
  | some tighter => exact ih.tier tighter
  | none => exact ih.unary

theorem within_unary : Within (unary rounds (room + 1)) (unary rounds (room + 1 + 1)) := by
  intro tokens hne
  rcases unary_cases tokens with ⟨sign, rest, -, -, heq⟩ | ⟨-, heq⟩
  · rw [heq] at hne ⊢
    rw [heq]
    exact ih.unary.bind (fun _ => within_refl _) rest hne
  · rw [heq] at hne ⊢
    rw [heq]
    exact ih.primary tokens hne

theorem within_primary : Within (primary rounds (room + 1)) (primary rounds (room + 1 + 1)) := by
  intro tokens hne
  rcases primary_cases tokens with ⟨value, line, rest, -, heq⟩ | ⟨name, line, rest, -, heq⟩ |
    ⟨-, heq⟩ | ⟨-, heq⟩
  · rw [heq, heq]
  · rw [heq, heq]
  · rw [heq] at hne ⊢
    rw [heq]
    exact ih.expression.parenthesised tokens hne
  · rw [heq, heq]

theorem withinNext_succ : WithinNext rounds (room + 1) where
  statement := within_statement ih
  conditional := within_conditional ih
  loop := within_loop ih
  block := within_block ih
  expression := by rw [expression, expression]; exact ih.assignment
  assignment := within_assignment ih
  tier t := by rw [tier, tier]; exact (ih.operand t).chain rounds t.operator?
  operand := within_operand ih
  unary := within_unary ih
  primary := within_primary ih

end Step

theorem withinNext (rounds room : Nat) : WithinNext rounds room := by
  induction room with
  | zero => exact withinNext_zero rounds
  | succ room ih => exact withinNext_succ ih

/-! ## Any larger room -/

theorem statement_within (rounds : Nat) {room room' : Nat} (h : room ≤ room') :
    Within (statement rounds room) (statement rounds room') := by
  induction h with
  | refl => exact within_refl _
  | step _ ih => exact ih.trans (withinNext rounds _).statement

/-- A program that is not cut short under one limit is read the same under any larger
one. -/
theorem program_within (rounds : Nat) {limit limit' : Nat} (h : limit ≤ limit') :
    Within (program rounds limit) (program rounds limit') :=
  ((statement_within rounds h).items rounds closesProgram).bind fun _ => within_refl _

end RillLang.Reader
