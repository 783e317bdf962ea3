import RillLang.Proofs.Tree.Reader

/-!
# How phrases begin

A reader chooses by the next token or two, so it chooses well only because the
phrases of the grammar begin differently.

* `Assignment.opens`, `Statement.opens` — the kinds of token an expression and a
  statement can begin with; in particular neither is empty.
* `Tiered.not_opensAssignment` — an expression that is no assignment does not begin
  with a name and an equals sign, whatever follows it, unless what follows begins
  with an equals sign.
-/

namespace RillLang.Grammar

open Reader (kindAt)

/-- The kinds of token an expression can begin with. -/
def OpensExpression : Kind → Prop
  | .number | .identifier | .mark .leftParen | .mark .minus => True
  | _ => False

/-- The kinds of token a statement can begin with. -/
def OpensStatement : Kind → Prop
  | .mark .letWord | .mark .printWord | .mark .ifWord | .mark .whileWord
  | .mark .leftBrace => True
  | k => OpensExpression k

/-- The tokens are not none, and the first of them has a kind of the class. -/
def BeginsWith (opens : Kind → Prop) (tokens : List Token) : Prop :=
  ∃ t rest, tokens = t :: rest ∧ opens t.kind

theorem BeginsWith.append {opens : Kind → Prop} {tokens : List Token}
    (h : BeginsWith opens tokens) (more : List Token) : BeginsWith opens (tokens ++ more) := by
  obtain ⟨t, rest, rfl, ht⟩ := h
  exact ⟨t, rest ++ more, rfl, ht⟩

theorem BeginsWith.kindAt {opens : Kind → Prop} {tokens : List Token}
    (h : BeginsWith opens tokens) : opens (kindAt tokens) := by
  obtain ⟨t, rest, rfl, ht⟩ := h
  exact ht

theorem BeginsWith.length_pos {opens : Kind → Prop} {tokens : List Token}
    (h : BeginsWith opens tokens) : 0 < tokens.length := by
  obtain ⟨t, rest, rfl, -⟩ := h
  exact Nat.succ_pos rest.length

theorem BeginsWith.ne_nil {opens : Kind → Prop} {tokens : List Token}
    (h : BeginsWith opens tokens) : tokens ≠ [] := by
  obtain ⟨t, rest, rfl, -⟩ := h
  exact List.cons_ne_nil t rest

/-- A phrase that begins with a mark of the class. -/
theorem beginsWith_mark {opens : Kind → Prop} {m : Mark} {t : Token} (h : IsMark m t)
    (hm : opens (.mark m)) (rest : List Token) : BeginsWith opens (t :: rest) :=
  ⟨t, rest, rfl, by rw [show t.kind = .mark m from h]; exact hm⟩

/-! ## Expressions -/

mutual

theorem Primary.opens {ts : List Token} {e : Node} :
    Primary ts e → BeginsWith OpensExpression ts
  | .number value line => ⟨_, [], rfl, trivial⟩
  | .name name line => ⟨_, [], rfl, trivial⟩
  | .parenthesised hopening _ _ => (beginsWith_mark hopening trivial _).append _

theorem Unary.opens {ts : List Token} {e : Node} :
    Unary ts e → BeginsWith OpensExpression ts
  | .primary h => h.opens
  | .negate hsign _ => beginsWith_mark hsign trivial _

theorem Tiered.opens {t : Tier} {ts : List Token} {e : Node} :
    Tiered t ts e → BeginsWith OpensExpression ts
  | .operand h => h.opens
  | .joined h _ _ _ => h.opens.append _

theorem Operand.opens {t : Tier} {ts : List Token} {e : Node} :
    Operand t ts e → BeginsWith OpensExpression ts
  | .tighter _ h => h.opens
  | .unary _ h => h.opens

end

theorem Assignment.opens {ts : List Token} {e : Node} :
    Assignment ts e → BeginsWith OpensExpression ts
  | .assign _ _ => ⟨_, _, rfl, trivial⟩
  | .tiered h => h.opens

/-! ## No assignment where there is none -/

theorem not_opensAssignment_mark {m : Mark} {t : Token} (h : IsMark m t) (rest : List Token) :
    ¬ OpensAssignment (t :: rest) := by
  rintro ⟨name, line, sign, rest', heq, -⟩
  cases heq
  cases h

/-- The mark of a binary operator is not an equals sign. -/
theorem ne_equal_of_operator? {t : Tier} {m : Mark} {op : BinaryOperator}
    (h : t.operator? m = some op) : m ≠ .equal := by
  rintro rfl
  cases t <;> cases h

mutual

theorem Primary.not_opensAssignment {ts : List Token} {e : Node} :
    Primary ts e → ∀ rest, kindAt rest ≠ .mark .equal → ¬ OpensAssignment (ts ++ rest)
  | .number value line, rest, _ => by
      rintro ⟨name, line', sign, rest', h, -⟩
      cases h
  | .name name line, rest, hrest => by
      rintro ⟨name', line', sign, rest', h, hsign⟩
      cases h
      exact hrest hsign
  | .parenthesised hopening _ _, rest, _ => not_opensAssignment_mark hopening _

theorem Unary.not_opensAssignment {ts : List Token} {e : Node} :
    Unary ts e → ∀ rest, kindAt rest ≠ .mark .equal → ¬ OpensAssignment (ts ++ rest)
  | .primary h, rest, hrest => h.not_opensAssignment rest hrest
  | .negate hsign _, rest, _ => not_opensAssignment_mark hsign _

/-- An expression that is no assignment does not begin like one. -/
theorem Tiered.not_opensAssignment {t : Tier} {ts : List Token} {e : Node} :
    Tiered t ts e → ∀ rest, kindAt rest ≠ .mark .equal → ¬ OpensAssignment (ts ++ rest)
  | .operand h, rest, hrest => h.not_opensAssignment rest hrest
  | .joined h hsign hop _, rest, _ => by
      rw [List.append_assoc]
      refine h.not_opensAssignment _ ?_
      intro heq
      exact ne_equal_of_operator? hop (Kind.mark.inj (Eq.trans (Eq.symm hsign) heq))

theorem Operand.not_opensAssignment {t : Tier} {ts : List Token} {e : Node} :
    Operand t ts e → ∀ rest, kindAt rest ≠ .mark .equal → ¬ OpensAssignment (ts ++ rest)
  | .tighter _ h, rest, hrest => h.not_opensAssignment rest hrest
  | .unary _ h, rest, hrest => h.not_opensAssignment rest hrest

end

/-! ## Statements -/

theorem Block.opens {ts : List Token} {body : List Node} :
    Block ts body → BeginsWith (.mark .leftBrace = ·) ts
  | .braces hopening _ _ => (beginsWith_mark hopening rfl _).append _

theorem OpensExpression.opensStatement {k : Kind} (h : OpensExpression k) : OpensStatement k := by
  unfold OpensStatement
  split <;> trivial

theorem Statement.opens {ts : List Token} {s : Node} (h : Statement ts s) :
    BeginsWith OpensStatement ts := by
  cases h with
  | letStmt hword _ _ _ => exact (beginsWith_mark hword trivial _).append _
  | printStmt hword _ _ _ _ => exact (beginsWith_mark hword trivial _).append _
  | exprStmt he _ =>
      obtain ⟨t, rest, hts, ht⟩ := he.opens
      cases hts
      exact ⟨_, _, rfl, ht.opensStatement⟩
  | block hb =>
      obtain ⟨t, rest, hts, ht⟩ := hb.opens
      cases hts
      exact ⟨_, _, rfl, by rw [← ht]; trivial⟩
  | ifStmt hword _ _ _ _ => exact (beginsWith_mark hword trivial _).append _
  | ifElse hword _ _ _ _ _ _ =>
      exact ((beginsWith_mark hword trivial _).append _).append _
  | whileStmt hword _ _ _ _ => exact (beginsWith_mark hword trivial _).append _

end RillLang.Grammar
