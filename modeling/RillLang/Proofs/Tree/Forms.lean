import RillLang.Proofs.Tree.Completeness

/-!
# What a reader hands the tokens to

The readers that look at the tokens before they choose are written here as a choice, by the
kind of the next token or two, among readers that take their tokens one after the other.

* `statement_eq_form`, `unary_eq_form`, `primary_eq_form` — the next kind chooses.
* `assignment_eq_form` — a name with an equals sign after it is told by two kinds.
* `elseBranch_eq_form`, `itemsOnto_succ_eq_form`, `chainOnto_succ_eq_form` — whether to go on.
-/

namespace RillLang.Reader

open Grammar Ending

/-! ## Going on -/

/-- What an `else` branch is read with, where the word comes and where it does not. -/
def elseForm (body : Reader (List Node)) : Bool → Reader (Option (List Node))
  | true => takeMark .elseWord >>= fun _ => body >>= fun ss => pure (some ss)
  | false => pure none

theorem elseBranch_eq_form (body : Reader (List Node)) (tokens : List Token) :
    elseBranch body tokens = elseForm body (decide (kindAt tokens = .mark .elseWord)) tokens := by
  rw [elseBranch_eq]
  by_cases hk : kindAt tokens = .mark .elseWord
  · rw [if_pos hk, decide_eq_true hk]
    rfl
  · rw [if_neg hk, decide_eq_false hk]
    rfl

section Items

variable {stop : Kind → Bool} {item : Reader Node}

/-- What items are read with where a token of the kind comes: nothing more, or an item and
the items after it. -/
def itemForm (stop : Kind → Bool) (item : Reader Node) (done : List Node) (rounds : Nat)
    (k : Kind) : Reader (List Node) :=
  if stop k then pure done.reverse
  else item >>= fun node => itemsOnto stop item (node :: done) rounds

theorem itemsOnto_succ_eq_form (done : List Node) (n : Nat) (tokens : List Token) :
    itemsOnto stop item done (n + 1) tokens =
      itemForm stop item done n (kindAt tokens) tokens := by
  rw [itemsOnto, itemForm]
  split
  · rfl
  · refine Eq.trans ?_ (bind_apply item _ tokens).symm
    cases item tokens <;> rfl

end Items

section Chain

variable {operator? : Mark → Option BinaryOperator} {operand : Reader Node}

/-- What operands are joined with where a token of the kind comes: nothing more, or an
operator, an operand and what comes after it. -/
def linkForm (operator? : Mark → Option BinaryOperator) (operand : Reader Node) (left : Node)
    (rounds : Nat) : Kind → Reader Node
  | .mark m =>
    match operator? m with
    | some op => takeMark m >>= fun line => operand >>= fun right =>
        chainOnto operator? operand (.binary line (some (.binary op)) left right) rounds
    | none => pure left
  | _ => pure left

theorem chainOnto_succ_eq_form (left : Node) (n : Nat) (tokens : List Token) :
    chainOnto operator? operand left (n + 1) tokens =
      linkForm operator? operand left n (kindAt tokens) tokens := by
  rcases tokens with _ | ⟨⟨lexeme, line⟩, rest⟩
  · rfl
  · cases lexeme with
    | mark m note =>
        have hm : IsMark m ⟨.mark m note, line⟩ := rfl
        rw [show kindAt (_ :: rest) = .mark m from hm, chainOnto, operatorAt_mark hm, linkForm]
        cases operator? m with
        | none => rfl
        | some op =>
            simp only [Option.map_some]
            rw [bind_of_ok (takeMark_cons hm rest)]
            refine Eq.trans ?_ (bind_apply operand _ rest).symm
            cases operand rest <;> rfl
    | _ => rfl

end Chain

/-! ## Statements and expressions -/

theorem exists_identifier {t : Token} (h : t.kind = .identifier) :
    ∃ name line, t = ⟨.identifier name, line⟩ := by
  obtain ⟨lexeme, line⟩ := t
  cases lexeme with
  | identifier name => exact ⟨name, line, rfl⟩
  | _ => cases h

/-- The reader of a statement that begins with a token of the kind. -/
def statementForm (rounds room : Nat) : Kind → Reader Node
  | .mark .letWord => letStatement (expression rounds room)
  | .mark .printWord => printStatement (expression rounds room)
  | .mark .ifWord => conditional rounds room
  | .mark .whileWord => loop rounds room
  | .mark .leftBrace =>
    nextLine >>= fun line => block rounds room >>= fun body => pure (.block line body)
  | _ => expressionStatement (expression rounds room)

theorem statement_eq_form (rounds room : Nat) (tokens : List Token) :
    statement rounds (room + 1) tokens = statementForm rounds room (kindAt tokens) tokens := by
  rw [statement_eq]
  cases kindAt tokens with
  | mark m => cases m <;> rfl
  | _ => rfl

/-- The reader of a unary expression that begins with a token of the kind. -/
def unaryForm (rounds room : Nat) (k : Kind) : Reader Node :=
  if k = .mark .minus then
    takeMark .minus >>= fun line => unary rounds room >>= fun e =>
      pure (.unary line (some .negate) e)
  else primary rounds room

theorem unary_eq_form (rounds room : Nat) (tokens : List Token) :
    unary rounds (room + 1) tokens = unaryForm rounds room (kindAt tokens) tokens := by
  unfold unaryForm
  rcases unary_cases tokens with ⟨sign, rest, rfl, hsign, heq⟩ | ⟨hminus, heq⟩
  · rw [heq, if_pos (show kindAt (sign :: rest) = .mark .minus from hsign),
      bind_of_ok (takeMark_cons hsign rest)]
  · rw [heq, if_neg hminus]

/-- The first two kinds are those of an assignment. -/
def seesAssignment (tokens : List Token) : Bool :=
  kindAt tokens == .identifier && kindAt tokens.tail == .mark .equal

theorem seesAssignment_iff {tokens : List Token} :
    seesAssignment tokens = true ↔ OpensAssignment tokens := by
  rw [seesAssignment, Bool.and_eq_true, beq_iff_eq, beq_iff_eq]
  constructor
  · rintro ⟨hname, hsign⟩
    rcases tokens with _ | ⟨t, _ | ⟨sign, rest⟩⟩
    · cases hname
    · cases hsign
    · obtain ⟨name, line, rfl⟩ := exists_identifier hname
      exact ⟨name, line, sign, rest, rfl, hsign⟩
  · rintro ⟨name, line, sign, rest, rfl, hsign⟩
    exact ⟨rfl, hsign⟩

/-- The reader of an assignment, where one is seen and where none is. -/
def assignmentForm (rounds room : Nat) : Bool → Reader Node
  | true => nextLine >>= fun line => takeName >>= fun name => takeMark .equal >>= fun _ =>
      assignment rounds room >>= fun e => pure (.assign line name e)
  | false => tier rounds room .equality

theorem assignment_eq_form (rounds room : Nat) (tokens : List Token) :
    assignment rounds (room + 1) tokens =
      assignmentForm rounds room (seesAssignment tokens) tokens := by
  rcases assignment_cases tokens with ⟨name, line, sign, rest, rfl, hsign, heq⟩ | ⟨hnone, heq⟩
  · have hline : nextLine (⟨.identifier name, line⟩ :: sign :: rest) =
        .ok line (⟨.identifier name, line⟩ :: sign :: rest) := rfl
    rw [heq, seesAssignment_iff.2 ⟨name, line, sign, rest, rfl, hsign⟩, assignmentForm,
      bind_of_ok hline, bind_of_ok (takeName_eq_ok.2 ⟨name, line, rfl, rfl⟩),
      bind_of_ok (takeMark_cons hsign rest)]
  · rw [heq, Bool.eq_false_iff.2 (mt seesAssignment_iff.1 hnone)]
    rfl

/-- A number or a name. -/
def takeAtom : Reader Node
  | ⟨.number value, line⟩ :: rest => .ok (.literal line value) rest
  | ⟨.identifier name, line⟩ :: rest => .ok (.reference line (identifierName name)) rest
  | tokens => .error (.unexpected (.phrase "expression")) tokens

theorem takeAtom_eq_error {tokens : List Token}
    (h : ¬ (kindAt tokens = .number ∨ kindAt tokens = .identifier)) :
    takeAtom tokens = .error (.unexpected (.phrase "expression")) tokens := by
  rcases tokens with _ | ⟨⟨lexeme, line⟩, rest⟩
  · rfl
  · cases lexeme with
    | number value => exact absurd (.inl rfl) h
    | identifier name => exact absurd (.inr rfl) h
    | _ => rfl

/-- The reader of a primary expression that begins with a token of the kind. -/
def primaryForm (rounds room : Nat) (k : Kind) : Reader Node :=
  if k = .mark .leftParen then parenthesised (expression rounds room) else takeAtom

theorem primary_eq_form (rounds room : Nat) (tokens : List Token) :
    primary rounds (room + 1) tokens = primaryForm rounds room (kindAt tokens) tokens := by
  unfold primaryForm
  rcases primary_cases tokens with ⟨value, line, rest, rfl, heq⟩ | ⟨name, line, rest, rfl, heq⟩ |
    ⟨hparen, heq⟩ | ⟨hother, heq⟩
  · rw [heq, if_neg (by rintro ⟨⟩)]
    rfl
  · rw [heq, if_neg (by rintro ⟨⟩)]
    rfl
  · rw [heq, if_pos hparen]
  · simp only [List.mem_cons, List.not_mem_nil, or_false, not_or] at hother
    rw [heq, if_neg hother.2.2, takeAtom_eq_error (not_or.2 ⟨hother.1, hother.2.1⟩)]

end RillLang.Reader
