import RillLang.Proofs.Tree.Exactness

/-!
# Room enough to read any tokens

However the tokens stand, a limit of twelve for each of them, and thirteen more, is never used
up (`Program.ofTokens_ne_tooDeep`): they are a program, or they are refused because a token does
not fit.

Between two tokens the readers call one another at most twelve deep, from the expression to the
primary expression that a parenthesis opens.  So a reader that has room for so many tokens has
room for one token less after each token that is taken.

* `Ample` — how many tokens a reader has room for; `ample_mark_bind`, `ample_name_bind` and
  `Ample.bind` follow the way readers are put together.
* `ampleAt` — all readers at once, by induction on the room.
-/

namespace RillLang

namespace Reader

open Grammar Ending

variable {α β : Type}

/-- On so many tokens or fewer the nesting limit does not cut the reader short. -/
def Ample (count : Nat) (r : Reader α) : Prop :=
  ∀ tokens, tokens.length ≤ count → ∀ rest, r tokens ≠ .error .tooDeep rest

section Rules

variable {count : Nat}

theorem ample_pure (a : α) : Ample count (pure a) := by
  rintro tokens - rest ⟨⟩

/-- After a mark there is one token less. -/
theorem ample_mark_bind {m : Mark} {f : Int → Reader α}
    (hf : ∀ line fewer, fewer < count → Ample fewer (f line)) :
    Ample count (takeMark m >>= f) := by
  intro tokens hlength rest herror
  rcases bind_eq_error.1 herror with hmark | ⟨line, mid, hmark, hrest⟩
  · cases (takeMark_eq_error.1 hmark).1
  · obtain ⟨t, rfl, -, -⟩ := takeMark_eq_ok.1 hmark
    exact hf line mid.length hlength mid (Nat.le_refl _) rest hrest

/-- After a name there is one token less. -/
theorem ample_name_bind {f : String → Reader α}
    (hf : ∀ x fewer, fewer < count → Ample fewer (f x)) : Ample count (takeName >>= f) := by
  intro tokens hlength rest herror
  rcases bind_eq_error.1 herror with hname | ⟨x, mid, hname, hrest⟩
  · cases (takeName_eq_error.1 hname).1
  · obtain ⟨name, line, rfl, -⟩ := takeName_eq_ok.1 hname
    exact hf x mid.length hlength mid (Nat.le_refl _) rest hrest

theorem ample_nextLine_bind {f : Int → Reader α} (hf : ∀ line, Ample count (f line)) :
    Ample count (nextLine >>= f) := by
  intro tokens hlength rest herror
  obtain ⟨line, hline⟩ := exists_nextLine tokens
  rw [bind_of_ok hline] at herror
  exact hf line tokens hlength rest herror

/-- A phrase that was read leaves no more tokens than there were. -/
theorem Ample.bind {r : Reader α} {f : α → Reader β} {phrase : List Token → α → Prop}
    (hr : Ample count r) (htakes : Takes r phrase) (hf : ∀ a, Ample count (f a)) :
    Ample count (r >>= f) := by
  intro tokens hlength rest herror
  rcases bind_eq_error.1 herror with hfirst | ⟨a, mid, hfirst, hrest⟩
  · exact hr tokens hlength rest hfirst
  · obtain ⟨ts, rfl, -⟩ := htakes hfirst
    rw [List.length_append] at hlength
    exact hf a mid (by omega) rest hrest

/-- A phrase, and a mark that closes it. -/
theorem Ample.bind_mark {r : Reader α} {phrase : List Token → α → Prop} (hr : Ample count r)
    (htakes : Takes r phrase) (m : Mark) (g : α → β) :
    Ample count (r >>= fun a => takeMark m >>= fun _ => pure (g a)) :=
  hr.bind htakes fun _ => ample_mark_bind fun _ _ _ => ample_pure _

end Rules

/-! ## The constructs and the repetitions -/

section Constructs

variable {count : Nat} {r : Reader Node} {body : Reader (List Node)}

theorem ample_parenthesised (hr : ∀ fewer, fewer < count → Ample fewer r)
    (htakes : Takes r Expression) : Ample count (parenthesised r) :=
  ample_mark_bind fun _ fewer hfewer => (hr fewer hfewer).bind_mark htakes _ _

theorem ample_letStatement (hr : ∀ fewer, fewer < count → Ample fewer r)
    (htakes : Takes r Expression) : Ample count (letStatement r) :=
  ample_mark_bind fun _ _ h => ample_name_bind fun _ _ h' => ample_mark_bind fun _ fewer h'' =>
    (hr fewer (by omega)).bind_mark htakes _ _

theorem ample_printStatement (hr : ∀ fewer, fewer < count → Ample fewer r)
    (htakes : Takes r Expression) : Ample count (printStatement r) :=
  ample_mark_bind fun _ _ h =>
    (ample_parenthesised (fun fewer h' => hr fewer (by omega)) htakes).bind_mark
      (takes_parenthesised htakes) _ _

theorem ample_expressionStatement (hr : Ample count r) (htakes : Takes r Expression) :
    Ample count (expressionStatement r) :=
  ample_nextLine_bind fun _ => hr.bind_mark htakes _ _

theorem ample_elseBranch (hbody : ∀ fewer, fewer < count → Ample fewer body)
    (htakes : Takes body Block) : Ample count (elseBranch body) := by
  intro tokens hlength rest herror
  rw [elseBranch_eq] at herror
  split at herror
  · have hbranch : Ample count
        (takeMark .elseWord >>= fun _ => body >>= fun b => pure (some b)) :=
      ample_mark_bind fun _ fewer h => (hbody fewer h).bind htakes fun _ => ample_pure _
    exact hbranch tokens hlength rest herror
  · cases herror

theorem ample_itemsOnto (hr : Ample count r) (htakes : Takes r Statement) (stop : Kind → Bool)
    (rounds : Nat) : ∀ done, Ample count (itemsOnto stop r done rounds) := by
  induction rounds with
  | zero =>
      intro done tokens hlength rest herror
      rw [itemsOnto] at herror
      split at herror <;> cases herror
  | succ rounds ih =>
      intro done tokens hlength rest herror
      rw [itemsOnto] at herror
      split at herror
      · cases herror
      · cases hread : r tokens with
        | ok node rest' =>
            rw [hread] at herror
            obtain ⟨ts, rfl, -⟩ := htakes hread
            rw [List.length_append] at hlength
            exact ih (node :: done) rest' (by omega) rest herror
        | error reject rest' =>
            rw [hread] at herror
            cases herror
            exact hr tokens hlength rest hread

theorem ample_items (hr : Ample count r) (htakes : Takes r Statement) (rounds : Nat)
    (stop : Kind → Bool) : Ample count (items rounds stop r) :=
  ample_itemsOnto hr htakes stop rounds []

/-- Each operand but the first comes after an operator. -/
theorem ample_chainOnto {t : Tier} (hr : ∀ fewer, fewer < count → Ample fewer r)
    (htakes : Takes r (Operand t)) (rounds : Nat) :
    ∀ left, Ample count (chainOnto t.operator? r left rounds) := by
  induction rounds with
  | zero =>
      intro left tokens hlength rest herror
      rw [chainOnto] at herror
      split at herror <;> cases herror
  | succ rounds ih =>
      intro left tokens hlength rest herror
      rw [chainOnto] at herror
      split at herror
      · cases herror
      · rename_i op line rest' hop
        obtain ⟨m, sign, rfl, -⟩ := operatorAt_eq_some hop
        rw [List.length_cons] at hlength
        cases hread : r rest' with
        | ok right rest'' =>
            simp only [hread] at herror
            obtain ⟨ts, rfl, -⟩ := htakes hread
            rw [List.length_append] at hlength
            exact ih _ rest'' (by omega) rest herror
        | error reject rest'' =>
            simp only [hread] at herror
            cases herror
            exact hr rest'.length hlength rest' (Nat.le_refl _) rest hread

theorem ample_chain {t : Tier} (hr : Ample count r)
    (hfewer : ∀ fewer, fewer < count → Ample fewer r) (htakes : Takes r (Operand t))
    (rounds : Nat) : Ample count (chain rounds t.operator? r) :=
  hr.bind htakes fun left => ample_chainOnto hfewer htakes rounds left

end Constructs

/-! ## All readers at once -/

/-- How many tokens each reader has room for: with no token taken in between, each has room for
as many as the readers it calls, in one unit less. -/
structure AmpleAt (rounds room : Nat) : Prop where
  statement {count : Nat} : 12 * count + 13 ≤ room → Ample count (statement rounds room)
  conditional {count : Nat} : 12 * count + 1 ≤ room → Ample count (conditional rounds room)
  loop {count : Nat} : 12 * count + 1 ≤ room → Ample count (loop rounds room)
  block {count : Nat} : 12 * count + 2 ≤ room → Ample count (block rounds room)
  expression {count : Nat} : 12 * count + 12 ≤ room → Ample count (expression rounds room)
  assignment {count : Nat} : 12 * count + 11 ≤ room → Ample count (assignment rounds room)
  tier {count : Nat} (t : Tier) : 12 * count + 12 ≤ room + 2 * t.rank →
    Ample count (tier rounds room t)
  operand {count : Nat} (t : Tier) : 12 * count + 11 ≤ room + 2 * t.rank →
    Ample count (operand rounds room t)
  unary {count : Nat} : 12 * count + 2 ≤ room → Ample count (unary rounds room)
  primary {count : Nat} : 12 * count + 1 ≤ room → Ample count (primary rounds room)

/-- Without room there is room for no tokens, not even for none. -/
theorem ampleAt_zero (rounds : Nat) : AmpleAt rounds 0 where
  statement := by omega
  conditional := by omega
  loop := by omega
  block := by omega
  expression := by omega
  assignment := by omega
  tier t := by have hrank := t.rank_le; omega
  operand t := by have hrank := t.rank_le; omega
  unary := by omega
  primary := by omega

section Step

variable {rounds room count : Nat} (ih : AmpleAt rounds room)

include ih

theorem ample_statement (hroom : 12 * count + 13 ≤ room + 1) :
    Ample count (statement rounds (room + 1)) := by
  have htakes : Takes (expression rounds room) Expression := (soundAt rounds room).expression
  have hexpression : ∀ fewer, fewer ≤ count → Ample fewer (expression rounds room) :=
    fun fewer h => ih.expression (by omega)
  have hfewer : ∀ fewer, fewer < count → Ample fewer (expression rounds room) :=
    fun fewer h => hexpression fewer (Nat.le_of_lt h)
  have hblock : Ample count (nextLine >>= fun line => block rounds room >>= fun body =>
      pure (Node.block line body)) :=
    ample_nextLine_bind fun _ =>
      (ih.block (by omega)).bind (soundAt rounds room).block fun _ => ample_pure _
  intro tokens hlength rest herror
  rw [statement_eq] at herror
  split at herror
  · exact ample_letStatement hfewer htakes tokens hlength rest herror
  · exact ample_printStatement hfewer htakes tokens hlength rest herror
  · exact ih.conditional (by omega) tokens hlength rest herror
  · exact ih.loop (by omega) tokens hlength rest herror
  · exact hblock tokens hlength rest herror
  · exact ample_expressionStatement (hexpression count (Nat.le_refl _)) htakes tokens hlength rest
      herror

theorem ample_conditional (hroom : 12 * count + 1 ≤ room + 1) :
    Ample count (conditional rounds (room + 1)) := by
  have hs : SoundAt rounds room := soundAt rounds room
  rw [conditional]
  refine ample_mark_bind fun _ fewer h => ?_
  refine (ample_parenthesised (fun least h' => ih.expression (by omega)) hs.expression).bind
    (takes_parenthesised hs.expression) fun _ => ?_
  refine (ih.block (by omega)).bind hs.block fun _ => ?_
  exact (ample_elseBranch (fun least h' => ih.block (by omega)) hs.block).bind
    (takes_elseBranch hs.block) fun _ => ample_pure _

theorem ample_loop (hroom : 12 * count + 1 ≤ room + 1) :
    Ample count (loop rounds (room + 1)) := by
  have hs : SoundAt rounds room := soundAt rounds room
  rw [loop]
  refine ample_mark_bind fun _ fewer h => ?_
  refine (ample_parenthesised (fun least h' => ih.expression (by omega)) hs.expression).bind
    (takes_parenthesised hs.expression) fun _ => ?_
  exact (ih.block (by omega)).bind hs.block fun _ => ample_pure _

theorem ample_block (hroom : 12 * count + 2 ≤ room + 1) :
    Ample count (block rounds (room + 1)) := by
  have htakes : Takes (statement rounds room) Statement := (soundAt rounds room).statement
  rw [block]
  refine ample_mark_bind fun _ fewer h => ?_
  have hstatement : Ample fewer (statement rounds room) := ih.statement (by omega)
  have hitems := ample_items hstatement htakes rounds closesBlock
  exact hitems.bind_mark (fun h => (items_sound htakes h).imp fun _ hts => ⟨hts.1, hts.2.1⟩) _ _

theorem ample_assignment (hroom : 12 * count + 11 ≤ room + 1) :
    Ample count (assignment rounds (room + 1)) := by
  intro tokens hlength rest herror
  rcases assignment_cases tokens with ⟨name, line, sign, after, rfl, -, heq⟩ | ⟨-, heq⟩
  · have hvalue : Ample after.length (assignment rounds room >>= fun e =>
        pure (Node.assign line (identifierName name) e)) := by
      rw [List.length_cons, List.length_cons] at hlength
      exact (ih.assignment (by omega)).bind (soundAt rounds room).assignment fun _ => ample_pure _
    rw [heq] at herror
    exact hvalue after (Nat.le_refl _) rest herror
  · have hrank : Tier.equality.rank = 1 := rfl
    rw [heq] at herror
    exact ih.tier .equality (by omega) tokens hlength rest herror

theorem ample_operand (t : Tier) (hroom : 12 * count + 11 ≤ room + 1 + 2 * t.rank) :
    Ample count (operand rounds (room + 1) t) := by
  rw [operand]
  cases ht : t.tighter with
  | some tighter =>
      have hrank := Tier.rank_of_tighter ht
      exact ih.tier tighter (by omega)
  | none =>
      have hrank := t.rank_le
      exact ih.unary (by omega)

theorem ample_unary (hroom : 12 * count + 2 ≤ room + 1) :
    Ample count (unary rounds (room + 1)) := by
  intro tokens hlength rest herror
  rcases unary_cases tokens with ⟨sign, after, rfl, -, heq⟩ | ⟨-, heq⟩
  · have hoperand : Ample after.length (unary rounds room >>= fun e =>
        pure (Node.unary sign.line (some .negate) e)) := by
      rw [List.length_cons] at hlength
      exact (ih.unary (by omega)).bind (soundAt rounds room).unary fun _ => ample_pure _
    rw [heq] at herror
    exact hoperand after (Nat.le_refl _) rest herror
  · rw [heq] at herror
    exact ih.primary (by omega) tokens hlength rest herror

theorem ample_primary (hroom : 12 * count + 1 ≤ room + 1) :
    Ample count (primary rounds (room + 1)) := by
  have hparenthesised : Ample count (parenthesised (expression rounds room)) :=
    ample_parenthesised (fun fewer h => ih.expression (by omega)) (soundAt rounds room).expression
  intro tokens hlength rest herror
  rcases primary_cases tokens with ⟨value, line, after, -, heq⟩ | ⟨name, line, after, -, heq⟩ |
    ⟨-, heq⟩ | ⟨-, heq⟩
  · rw [heq] at herror
    cases herror
  · rw [heq] at herror
    cases herror
  · rw [heq] at herror
    exact hparenthesised tokens hlength rest herror
  · rw [heq] at herror
    cases herror

theorem ampleAt_succ : AmpleAt rounds (room + 1) where
  statement := ample_statement ih
  conditional := ample_conditional ih
  loop := ample_loop ih
  block := ample_block ih
  expression h := by rw [expression]; exact ih.assignment (by omega)
  assignment := ample_assignment ih
  tier t h := by
    rw [tier]
    exact ample_chain (ih.operand t (by omega)) (fun fewer h' => ih.operand t (by omega))
      ((soundAt rounds room).operand t) rounds
  operand := ample_operand ih
  unary := ample_unary ih
  primary := ample_primary ih

end Step

theorem ampleAt (rounds room : Nat) : AmpleAt rounds room := by
  induction room with
  | zero => exact ampleAt_zero rounds
  | succ room ih => exact ampleAt_succ ih

/-- Under a limit of twelve for each token, and thirteen more, no program is cut short. -/
theorem program_ample {count limit : Nat} (hlimit : 12 * count + 13 ≤ limit) (rounds : Nat) :
    Ample count (program rounds limit) := by
  have htakes : Takes (statement rounds limit) Statement := (soundAt rounds limit).statement
  have hitems := ample_items ((ampleAt rounds limit).statement hlimit) htakes rounds closesProgram
  exact hitems.bind (fun h => (items_sound htakes h).imp fun _ hts => ⟨hts.1, hts.2.1⟩)
    fun _ => ample_pure _

end Reader

/-- **A limit of twelve for each token, and thirteen more, is never reached.** -/
theorem Program.ofTokens_ne_tooDeep {limit : Nat} {tokens : List Token}
    (hlimit : 12 * (Token.beforeEnd tokens).length + 13 ≤ limit) (found : Token) :
    ofTokens limit tokens ≠ .error (.tooDeep found) := by
  by_cases hclosed : Token.Closed tokens
  · obtain ⟨closing, heq⟩ := exists_ofTokens_eq hclosed
    rw [heq limit]
    exact ofEnding_ne_tooDeep.2
      (fun rest => Reader.program_ample hlimit _ _ (Nat.le_refl _) rest) found
  · rw [ofTokens_of_not_closed limit hclosed]
    rintro ⟨⟩

end RillLang
