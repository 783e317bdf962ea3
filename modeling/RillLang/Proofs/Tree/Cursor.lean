import RillLang.Proofs.Tree.Exactness
import RillLang.Proofs.Tree.Lookahead
import RillLang.Proofs.Tree.Refusal
import RillLang.Tree.Cursor

/-!
# A parse with a cursor does what the readers do

The readers take tokens from the front of a list that ends before the first end of the
input; a parse with a cursor moves along the whole list.  `Walk.At` relates the two: the
reader has the tokens from the cursor up to the first end.  From related places each
function of the parser ends as its reader does, in related places (`Walk.followsAt`).

* `Input` — a token list cut at its first end-of-input token.
* `Walk.peek_eq`, `Walk.advance_eq`, `Walk.peekNext_eq` — what the cursor sees, and that it
  sees something.
* `Walk.follows_braces` — a block, where the reader and the parse notice differently that a
  brace is missing.
-/

namespace RillLang

open Ending Grammar

/-- A token list cut at its first end-of-input token. -/
structure Input where
  /-- The tokens before the first end. -/
  before : List Token
  /-- The first end-of-input token. -/
  closing : Token
  /-- The tokens after it. -/
  after : List Token
  /-- No token before it is an end. -/
  open_before : ∀ t ∈ before, t.isEnd = false
  /-- It is an end. -/
  isEnd_closing : closing.isEnd = true

namespace Input

/-- The whole list. -/
def tokens (i : Input) : List Token := i.before ++ i.closing :: i.after

theorem exists_of_closed {tokens : List Token} (h : Token.Closed tokens) :
    ∃ i : Input, i.tokens = tokens := by
  obtain ⟨before, closing, after, rfl, hbefore, hclosing⟩ := h.exists_split
  exact ⟨⟨before, closing, after, hbefore, hclosing⟩, rfl⟩

theorem beforeEnd_tokens (i : Input) : Token.beforeEnd i.tokens = i.before :=
  Token.beforeEnd_append i.open_before i.isEnd_closing i.after

/-- Up to the first end there is a token everywhere: the next one of those before the end,
or the end. -/
theorem getElem?_tokens (i : Input) {index : Nat} (h : index ≤ i.before.length) :
    i.tokens[index]? = some ((i.before.drop index).headD i.closing) := by
  rw [List.headD_eq_head?_getD, List.head?_drop, tokens]
  rcases Nat.lt_or_eq_of_le h with hlt | rfl
  · rw [List.getElem?_append_left hlt, List.getElem?_eq_getElem hlt]
    rfl
  · simp

theorem length_before_lt (i : Input) : i.before.length < i.tokens.length := by
  simp [tokens]

/-- The kind of the next token; after the tokens before the end it is that of the end. -/
theorem kind_headD (i : Input) (ts : List Token) :
    (ts.headD i.closing).kind = Reader.kindAt ts := by
  cases ts with
  | nil => exact eq_of_beq i.isEnd_closing
  | cons t rest => rfl

end Input

namespace Walk

open Reader (kindAt)

variable {i : Input}

/-- The cursor stands in the list before these tokens, the last of which is the one before
the first end. -/
structure At (i : Input) (ts : List Token) (c : Cursor) : Prop where
  /-- The cursor is in this list. -/
  tokens_eq : c.tokens = i.tokens
  /-- The tokens are those from the cursor up to the first end. -/
  drop_eq : i.before.drop c.position = ts
  /-- The cursor has not passed the first end. -/
  inside : c.Inside

theorem At.position_le {ts : List Token} {c : Cursor} (h : At i ts c) :
    c.position ≤ i.before.length := by
  have hle := h.inside.position_le
  rwa [h.tokens_eq, i.beforeEnd_tokens] at hle

/-- Passing a token before the first end. -/
theorem At.next {t : Token} {rest : List Token} {c : Cursor} (h : At i (t :: rest) c) :
    At i rest c.next := by
  have hlt : c.position < i.before.length := by
    have hlength := congrArg List.length h.drop_eq
    rw [List.length_drop, List.length_cons] at hlength
    omega
  refine ⟨h.tokens_eq, ?_, ?_, ?_⟩
  · have htail := congrArg List.tail h.drop_eq
    rwa [List.tail_drop] at htail
  · show c.position + 1 ≤ (Token.beforeEnd c.tokens).length
    rw [h.tokens_eq, i.beforeEnd_tokens]
    exact hlt
  · show (c.position + 1) :: c.visited = _
    rw [h.inside.visited_eq]
    exact (List.reverse_concat ..).symm.trans (congrArg List.reverse List.range_succ.symm)

theorem At.isEnd_eq_false {t : Token} {rest : List Token} {c : Cursor} (h : At i (t :: rest) c) :
    t.isEnd = false := by
  have hmem : t ∈ i.before.drop c.position := h.drop_eq ▸ List.mem_cons_self ..
  exact i.open_before t (List.mem_of_mem_drop hmem)

/-! ## The helpers of the cursor -/

theorem look_eq {c : Cursor} {ts : List Token} (h : At i ts c) {index : Nat}
    (hindex : index ≤ i.before.length) :
    look index c = .ok ((i.before.drop index).headD i.closing) c := by
  rw [look, h.tokens_eq, i.getElem?_tokens hindex]

theorem peek_eq {c : Cursor} {ts : List Token} (h : At i ts c) :
    peek c = .ok (ts.headD i.closing) c := by
  rw [← h.drop_eq]
  exact look_eq h h.position_le

theorem peekNext_eq {c : Cursor} {t : Token} {rest : List Token} (h : At i (t :: rest) c) :
    peekNext c = .ok (rest.headD i.closing) c := by
  have hnext := h.next
  have hle : c.position + 1 ≤ i.before.length := hnext.position_le
  have hindex : min (c.position + 1) (c.tokens.length - 1) = c.position + 1 := by
    have hlt := i.length_before_lt
    rw [h.tokens_eq]
    omega
  rw [peekNext, hindex, ← hnext.drop_eq]
  exact look_eq h hle

theorem check_eq {c : Cursor} {ts : List Token} (h : At i ts c) (k : Kind) :
    check k c = .ok (kindAt ts == k) c := by
  rw [check, bind_of_ok (peek_eq h), i.kind_headD]
  rfl

theorem advance_eq {c : Cursor} {t : Token} {rest : List Token} (h : At i (t :: rest) c) :
    advance c = .ok t c.next := by
  rw [advance, bind_of_ok (peek_eq h)]
  show (if t.isEnd = true then _ else _ : Walk Token) c = _
  rw [h.isEnd_eq_false]
  rfl

/-- A token of another kind is not passed. -/
theorem expect_of_ne {c : Cursor} {ts : List Token} (h : At i ts c) {k : Kind}
    (hk : kindAt ts ≠ k) : expect k c = .error (.reject (.unexpected (.kind k))) c := by
  rw [expect, bind_of_ok (peek_eq h), i.kind_headD, if_neg hk]
  rfl

theorem expect_of_eq {c : Cursor} {t : Token} {rest : List Token} (h : At i (t :: rest) c)
    {k : Kind} (hk : t.kind = k) : expect k c = .ok t c.next := by
  rw [expect, bind_of_ok (peek_eq h), List.headD_cons, if_pos hk]
  exact advance_eq h

theorem seesAssignment_eq {ts : List Token} {c : Cursor} (hat : At i ts c) :
    seesAssignment c = .ok (Reader.seesAssignment ts) c := by
  rw [seesAssignment, bind_of_ok (check_eq hat _), Reader.seesAssignment]
  cases ts with
  | nil => rfl
  | cons t rest =>
      by_cases hk : kindAt (t :: rest) = .identifier
      · rw [if_pos (beq_iff_eq.2 hk), bind_of_ok (peekNext_eq hat), i.kind_headD, hk]
        rfl
      · rw [if_neg (by simpa using hk), beq_false_of_ne hk]
        rfl

/-! ## Following a reader -/

section Follows

variable {α : Type}

/-- From a cursor that stands before the tokens of the reader, the parse ends as the reader
does, and with a cursor that stands before the tokens the reader left. -/
abbrev Follows (i : Input) (r : Reader α) (w : Walk α) : Prop :=
  Coupled (At i) (fun _ => At i) .reject r w

theorem follows_halt (reject : Reject) :
    Follows i (Reader.refuse reject : Reader α) (halt reject) :=
  fun _ _ h => .error h

theorem follows_expectMark (m : Mark) : Follows i (Reader.takeMark m) (expectMark m) := by
  intro ts c h
  by_cases hk : kindAt ts = .mark m
  · cases ts with
    | nil => cases hk
    | cons t rest =>
        rw [Reader.takeMark_cons (m := m) hk, expectMark, bind_of_ok (expect_of_eq h hk)]
        exact .ok h.next
  · rw [Reader.takeMark_eq_error.2 ⟨rfl, rfl, hk⟩, expectMark, bind_of_error (expect_of_ne h hk)]
    exact .error h

theorem follows_expectName : Follows i Reader.takeName expectName := by
  intro ts c h
  by_cases hk : kindAt ts = .identifier
  · cases ts with
    | nil => cases hk
    | cons t rest =>
        obtain ⟨name, line, rfl⟩ := Reader.exists_identifier hk
        rw [Reader.takeName_eq_ok.2 ⟨name, line, rfl, rfl⟩, expectName,
          bind_of_ok (expect_of_eq (k := .identifier) h rfl)]
        exact .ok h.next
  · rw [Reader.takeName_eq_error.2 ⟨rfl, rfl, hk⟩, expectName, bind_of_error (expect_of_ne h hk)]
    exact .error h

/-! ## Constructs, given their parts -/

section Constructs

variable {r : Reader Node} {w : Walk Node} {body : Reader (List Node)} {walk : Walk (List Node)}

theorem follows_parenthesised (h : Follows i r w) :
    Follows i (Reader.parenthesised r) (parenthesised w) :=
  (follows_expectMark _).bind fun _ => h.bind fun e => (follows_expectMark _).bind fun _ =>
    coupled_pure e

theorem follows_letStatement (h : Follows i r w) :
    Follows i (Reader.letStatement r) (letStatement w) :=
  (follows_expectMark _).bind fun _ => follows_expectName.bind fun _ =>
    (follows_expectMark _).bind fun _ => h.bind fun _ => (follows_expectMark _).bind fun _ =>
      coupled_pure _

theorem follows_printStatement (h : Follows i r w) :
    Follows i (Reader.printStatement r) (printStatement w) :=
  (follows_expectMark _).bind fun _ => (follows_parenthesised h).bind fun _ =>
    (follows_expectMark _).bind fun _ => coupled_pure _

/-- The line of the next token is also there where the next token is the end; but no
expression is read there. -/
theorem follows_expressionStatement (h : Follows i r w) (htakes : Reader.Takes r Expression) :
    Follows i (Reader.expressionStatement r) (expressionStatement w) := by
  intro ts c hat
  obtain ⟨line, hline⟩ := Reader.exists_nextLine ts
  rw [Reader.expressionStatement, expressionStatement, bind_of_ok hline, bind_of_ok (peek_eq hat),
    bind_apply, bind_apply]
  have hexpr := h ts c hat
  cases hr : r ts with
  | error reject rest =>
      rw [hr] at hexpr
      generalize w c = ending at hexpr
      cases hexpr with
      | error hrest => exact .error hrest
  | ok e rest =>
      rw [hr] at hexpr
      obtain ⟨us, rfl, hus⟩ := htakes hr
      obtain ⟨t, us, rfl, -⟩ := hus.opens
      cases hline
      generalize w c = ending at hexpr
      cases hexpr with
      | ok hrest =>
          exact ((follows_expectMark .semicolon).bind fun _ => coupled_pure _) _ _ hrest

theorem follows_elseBranch (h : Follows i body walk) :
    Follows i (Reader.elseBranch body) (elseBranch walk) := by
  intro ts c hat
  rw [Reader.elseBranch_eq, elseBranch, bind_of_ok (check_eq hat _)]
  by_cases hk : kindAt ts = .mark .elseWord
  · cases ts with
    | nil => cases hk
    | cons t rest =>
        rw [if_pos hk, if_pos (beq_iff_eq.2 hk), bind_of_ok (Reader.takeMark_cons hk rest),
          bind_of_ok (advance_eq hat)]
        exact (h.bind fun _ => coupled_pure _) rest c.next hat.next
  · rw [if_neg hk, if_neg (by simpa using hk)]
    exact .ok hat

/-! ## The repetitions -/

section Statements

variable {stop : Kind} {guarded : Walk Unit} {ts : List Token} {c : Cursor}

theorem statementsOnto_stop (hat : At i ts c) (hk : kindAt ts = stop) (done : List Node)
    (rounds : Nat) : statementsOnto stop guarded w done rounds c = .ok done.reverse c := by
  rw [statementsOnto.eq_def, bind_of_ok (check_eq hat stop), if_pos (beq_iff_eq.2 hk)]
  rfl

variable (hat : At i ts c) (hk : kindAt ts ≠ stop)

include hat hk

theorem statementsOnto_refused {h : Halt} {c' : Cursor} (hguarded : guarded c = .error h c')
    (done : List Node) (rounds : Nat) :
    statementsOnto stop guarded w done rounds c = .error h c' := by
  rw [statementsOnto.eq_def, bind_of_ok (check_eq hat stop), if_neg (by simpa using hk),
    bind_of_error hguarded]

variable (hguarded : guarded c = .ok () c)

include hguarded

theorem statementsOnto_zero (done : List Node) :
    statementsOnto stop guarded w done 0 c = .error (.reject .stalled) c := by
  rw [statementsOnto, bind_of_ok (check_eq hat stop), if_neg (by simpa using hk),
    bind_of_ok hguarded]
  rfl

theorem statementsOnto_succ (done : List Node) (rounds : Nat) :
    statementsOnto stop guarded w done (rounds + 1) c =
      (w >>= fun s => statementsOnto stop guarded w (s :: done) rounds) c := by
  rw [statementsOnto, bind_of_ok (check_eq hat stop), if_neg (by simpa using hk),
    bind_of_ok hguarded]

end Statements

/-- The statements of a program. -/
theorem follows_statementsOnto_program (h : Follows i r w) (rounds : Nat) : ∀ done,
    Follows i (Reader.itemsOnto Reader.closesProgram r done rounds)
      (statementsOnto .endOfInput (pure ()) w done rounds) := by
  induction rounds with
  | zero =>
      intro done ts c hat
      rw [Reader.itemsOnto]
      by_cases hk : kindAt ts = .endOfInput
      · rw [statementsOnto_stop hat hk, hk]
        exact .ok hat
      · have hguarded : (pure () : Walk Unit) c = .ok () c := rfl
        rw [if_neg (by simpa [Reader.closesProgram] using hk), statementsOnto_zero hat hk hguarded]
        exact .error hat
  | succ rounds ih =>
      intro done ts c hat
      rw [Reader.itemsOnto_succ_eq_form, Reader.itemForm]
      by_cases hk : kindAt ts = .endOfInput
      · rw [statementsOnto_stop hat hk, hk]
        exact .ok hat
      · have hguarded : (pure () : Walk Unit) c = .ok () c := rfl
        rw [if_neg (by simpa [Reader.closesProgram] using hk), statementsOnto_succ hat hk hguarded]
        exact (h.bind fun s => ih (s :: done)) ts c hat

theorem refuseEnd_of_nil {c : Cursor} (h : At i [] c) :
    refuseEnd c = .error (.reject (.unexpected (.kind (.mark .rightBrace)))) c := by
  rw [refuseEnd, bind_of_ok (check_eq h _)]
  rfl

theorem refuseEnd_of_ne {c : Cursor} {ts : List Token} (h : At i ts c)
    (hk : kindAt ts ≠ .endOfInput) : refuseEnd c = .ok () c := by
  rw [refuseEnd, bind_of_ok (check_eq h _), if_neg (by simpa using hk)]
  rfl

/-- Before the end there is no other end. -/
theorem At.eq_nil {ts : List Token} {c : Cursor} (h : At i ts c) (hk : kindAt ts = .endOfInput) :
    ts = [] := by
  cases ts with
  | nil => rfl
  | cons t rest =>
      have hend : t.isEnd = true := beq_iff_eq.2 hk
      rw [h.isEnd_eq_false] at hend
      cases hend

/-- The two endings are alike; or the reader stopped at the end, to miss the closing brace
there, and the parse refused the end for it. -/
def EndsBlock (i : Input) (ending : EStateM.Result Reject (List Token) (List Node))
    (ending' : EStateM.Result Halt Cursor (List Node)) : Prop :=
  Alike (At i) (fun _ => At i) .reject ending ending' ∨
    ∃ ss c, At i [] c ∧ ending = .ok ss [] ∧
      ending' = .error (.reject (.unexpected (.kind (.mark .rightBrace)))) c

/-- Where the statements of a block stop. -/
theorem endsBlock_of_closesBlock {ts : List Token} {c : Cursor} (hat : At i ts c)
    (hstop : Reader.closesBlock (kindAt ts) = true) (done : List Node) (rounds : Nat) :
    EndsBlock i (Reader.itemsOnto Reader.closesBlock r done rounds ts)
      (statementsOnto (.mark .rightBrace) refuseEnd w done rounds c) := by
  rw [Reader.itemsOnto_stop hstop]
  by_cases hbrace : kindAt ts = .mark .rightBrace
  · rw [statementsOnto_stop hat hbrace]
    exact .inl (.ok hat)
  · have hend : kindAt ts = .endOfInput := by
      simpa [Reader.closesBlock, hbrace] using hstop
    obtain rfl := hat.eq_nil hend
    rw [statementsOnto_refused hat hbrace (refuseEnd_of_nil hat)]
    exact .inr ⟨_, c, hat, rfl, rfl⟩

theorem endsBlock_statementsOnto (h : Follows i r w) {rounds : Nat} {done : List Node}
    {ts : List Token} {c : Cursor} (hat : At i ts c) :
    EndsBlock i (Reader.itemsOnto Reader.closesBlock r done rounds ts)
      (statementsOnto (.mark .rightBrace) refuseEnd w done rounds c) := by
  induction rounds generalizing done ts c with
  | zero =>
      by_cases hstop : Reader.closesBlock (kindAt ts) = true
      · exact endsBlock_of_closesBlock hat hstop done 0
      · obtain ⟨hbrace, hend⟩ : kindAt ts ≠ .mark .rightBrace ∧ kindAt ts ≠ .endOfInput := by
          simpa [Reader.closesBlock] using hstop
        rw [Reader.itemsOnto, if_neg hstop,
          statementsOnto_zero hat hbrace (refuseEnd_of_ne hat hend)]
        exact .inl (.error hat)
  | succ rounds ih =>
      by_cases hstop : Reader.closesBlock (kindAt ts) = true
      · exact endsBlock_of_closesBlock hat hstop done (rounds + 1)
      · obtain ⟨hbrace, hend⟩ : kindAt ts ≠ .mark .rightBrace ∧ kindAt ts ≠ .endOfInput := by
          simpa [Reader.closesBlock] using hstop
        rw [Reader.itemsOnto, if_neg hstop,
          statementsOnto_succ hat hbrace (refuseEnd_of_ne hat hend), bind_apply]
        have hs := h ts c hat
        generalize r ts = ending, w c = ending' at hs
        cases hs with
        | ok hmid => exact ih hmid
        | error hmid => exact .inl (.error hmid)

/-- A block, given its statements. -/
theorem follows_braces (h : Follows i r w) (rounds : Nat) :
    Follows i
      (Reader.takeMark .leftBrace >>= fun _ => Reader.items rounds Reader.closesBlock r >>=
        fun ss => Reader.takeMark .rightBrace >>= fun _ => pure ss)
      (expectMark .leftBrace >>= fun _ =>
        statementsOnto (.mark .rightBrace) refuseEnd w [] rounds >>= fun ss =>
          expectMark .rightBrace >>= fun _ => pure ss) := by
  refine (follows_expectMark _).bind fun _ ts c hat => ?_
  rw [bind_apply, bind_apply, Reader.items]
  rcases endsBlock_statementsOnto h hat with halike | ⟨ss, c', hat', hreader, hwalk⟩
  · generalize Reader.itemsOnto Reader.closesBlock r [] rounds ts = ending,
      statementsOnto (.mark .rightBrace) refuseEnd w [] rounds c = ending' at halike
    cases halike with
    | ok hmid => exact ((follows_expectMark .rightBrace).bind fun _ => coupled_pure _) _ _ hmid
    | error hmid => exact .error hmid
  · rw [hreader, hwalk]
    exact .error hat'

/-! ## Operators and operands -/

/-- The operator of the next token is found by its kind. -/
theorem operatorAt_cons (operator? : Mark → Option BinaryOperator) (t : Token)
    (rest : List Token) : Reader.operatorAt operator? (t :: rest) =
      (operatorOf operator? t).map fun op => (op, t.line, rest) := by
  obtain ⟨lexeme, line⟩ := t
  cases lexeme <;> rfl

theorem operatorAt_of_none {operator? : Mark → Option BinaryOperator} {ts : List Token}
    (h : operatorOf operator? (ts.headD i.closing) = none) :
    Reader.operatorAt operator? ts = none := by
  cases ts with
  | nil => rfl
  | cons t rest =>
      rw [List.headD_cons] at h
      rw [operatorAt_cons, h]
      rfl

theorem operatorAt_of_some {operator? : Mark → Option BinaryOperator} {ts : List Token}
    {op : BinaryOperator} (h : operatorOf operator? (ts.headD i.closing) = some op) :
    ∃ t rest, ts = t :: rest ∧ Reader.operatorAt operator? ts = some (op, t.line, rest) := by
  cases ts with
  | nil =>
      have hkind : i.closing.kind = .endOfInput := i.kind_headD []
      rw [List.headD_nil, operatorOf, hkind] at h
      cases h
  | cons t rest =>
      rw [List.headD_cons] at h
      exact ⟨t, rest, rfl, by rw [operatorAt_cons, h]; rfl⟩

theorem follows_chainOnto (h : Follows i r w) (operator? : Mark → Option BinaryOperator)
    (rounds : Nat) : ∀ left,
      Follows i (Reader.chainOnto operator? r left rounds) (chainOnto operator? w left rounds) := by
  induction rounds with
  | zero =>
      intro left ts c hat
      rw [Reader.chainOnto, chainOnto, bind_of_ok (peek_eq hat)]
      cases hop : operatorOf operator? (ts.headD i.closing) with
      | none =>
          rw [operatorAt_of_none hop]
          exact .ok hat
      | some op =>
          obtain ⟨t, rest, rfl, hreader⟩ := operatorAt_of_some hop
          rw [hreader]
          exact .error hat
  | succ rounds ih =>
      intro left ts c hat
      rw [Reader.chainOnto, chainOnto, bind_of_ok (peek_eq hat)]
      cases hop : operatorOf operator? (ts.headD i.closing) with
      | none =>
          rw [operatorAt_of_none hop]
          exact .ok hat
      | some op =>
          obtain ⟨t, rest, rfl, hreader⟩ := operatorAt_of_some hop
          simp only [hreader]
          rw [bind_of_ok (advance_eq hat), bind_apply]
          have hs := h rest c.next hat.next
          generalize r rest = ending, w c.next = ending' at hs
          cases hs with
          | ok hmid => exact ih _ _ _ hmid
          | error hmid => exact .error hmid

theorem follows_chain (h : Follows i r w) (rounds : Nat)
    (operator? : Mark → Option BinaryOperator) :
    Follows i (Reader.chain rounds operator? r) (chain rounds operator? w) :=
  h.bind fun left => follows_chainOnto h operator? rounds left

end Constructs

/-! ## All functions at once -/

/-- With this much room every function of the parser follows its reader. -/
structure FollowsAt (i : Input) (rounds room : Nat) : Prop where
  statement : Follows i (Reader.statement rounds room) (statement rounds room)
  conditional : Follows i (Reader.conditional rounds room) (conditional rounds room)
  loop : Follows i (Reader.loop rounds room) (loop rounds room)
  block : Follows i (Reader.block rounds room) (block rounds room)
  expression : Follows i (Reader.expression rounds room) (expression rounds room)
  assignment : Follows i (Reader.assignment rounds room) (assignment rounds room)
  tier (t : Tier) : Follows i (Reader.tier rounds room t) (tier rounds room t)
  operand (t : Tier) : Follows i (Reader.operand rounds room t) (operand rounds room t)
  unary : Follows i (Reader.unary rounds room) (unary rounds room)
  primary : Follows i (Reader.primary rounds room) (primary rounds room)

theorem followsAt_zero (i : Input) (rounds : Nat) : FollowsAt i rounds 0 where
  statement := by rw [Reader.statement, statement]; exact follows_halt _
  conditional := by rw [Reader.conditional, conditional]; exact follows_halt _
  loop := by rw [Reader.loop, loop]; exact follows_halt _
  block := by rw [Reader.block, block]; exact follows_halt _
  expression := by rw [Reader.expression, expression]; exact follows_halt _
  assignment := by rw [Reader.assignment, assignment]; exact follows_halt _
  tier t := by rw [Reader.tier, tier]; exact follows_halt _
  operand t := by rw [Reader.operand, operand]; exact follows_halt _
  unary := by rw [Reader.unary, unary]; exact follows_halt _
  primary := by rw [Reader.primary, primary]; exact follows_halt _

section Step

variable {rounds room : Nat} (ih : FollowsAt i rounds room)

include ih

theorem follows_statement :
    Follows i (Reader.statement rounds (room + 1)) (statement rounds (room + 1)) := by
  have hexpr : Follows i (Reader.expression rounds room) (expression rounds room) := ih.expression
  have htakes : Reader.Takes (Reader.expression rounds room) Expression :=
    (Reader.soundAt rounds room).expression
  intro ts c hat
  rw [Reader.statement_eq, statement, bind_of_ok (peek_eq hat), i.kind_headD]
  cases hk : kindAt ts with
  | mark m =>
      cases m with
      | letWord => exact follows_letStatement hexpr ts c hat
      | printWord => exact follows_printStatement hexpr ts c hat
      | ifWord => exact ih.conditional ts c hat
      | whileWord => exact ih.loop ts c hat
      | leftBrace =>
          cases ts with
          | nil => cases hk
          | cons t rest => exact (ih.block.bind fun _ => coupled_pure _) (t :: rest) c hat
      | _ => exact follows_expressionStatement hexpr htakes ts c hat
  | _ => exact follows_expressionStatement hexpr htakes ts c hat

theorem follows_conditional :
    Follows i (Reader.conditional rounds (room + 1)) (conditional rounds (room + 1)) := by
  rw [Reader.conditional, conditional]
  exact (follows_expectMark _).bind fun _ => (follows_parenthesised ih.expression).bind fun _ =>
    ih.block.bind fun _ => (follows_elseBranch ih.block).bind fun _ => coupled_pure _

theorem follows_loop : Follows i (Reader.loop rounds (room + 1)) (loop rounds (room + 1)) := by
  rw [Reader.loop, loop]
  exact (follows_expectMark _).bind fun _ => (follows_parenthesised ih.expression).bind fun _ =>
    ih.block.bind fun _ => coupled_pure _

theorem follows_block : Follows i (Reader.block rounds (room + 1)) (block rounds (room + 1)) := by
  rw [Reader.block, block]
  exact follows_braces ih.statement rounds

theorem follows_assignment :
    Follows i (Reader.assignment rounds (room + 1)) (assignment rounds (room + 1)) := by
  intro ts c hat
  rw [assignment, bind_of_ok (seesAssignment_eq hat)]
  rcases Reader.assignment_cases ts with ⟨name, line, sign, rest, rfl, hsign, heq⟩ | ⟨hnone, heq⟩
  · have hsees := Reader.seesAssignment_iff.2 ⟨name, line, sign, rest, rfl, hsign⟩
    rw [heq, if_pos hsees, bind_of_ok (advance_eq hat), bind_of_ok (advance_eq hat.next)]
    exact (ih.assignment.bind fun _ => coupled_pure _) rest _ hat.next.next
  · rw [heq, if_neg (mt Reader.seesAssignment_iff.1 hnone)]
    exact ih.tier .equality ts c hat

theorem follows_operand (t : Tier) :
    Follows i (Reader.operand rounds (room + 1) t) (operand rounds (room + 1) t) := by
  rw [Reader.operand, operand]
  cases t.tighter with
  | some tighter => exact ih.tier tighter
  | none => exact ih.unary

theorem follows_unary : Follows i (Reader.unary rounds (room + 1)) (unary rounds (room + 1)) := by
  intro ts c hat
  rw [unary, bind_of_ok (check_eq hat _)]
  rcases Reader.unary_cases ts with ⟨sign, rest, rfl, hsign, heq⟩ | ⟨hminus, heq⟩
  · have hk : kindAt (sign :: rest) = .mark .minus := hsign
    rw [heq, if_pos (beq_iff_eq.2 hk), bind_of_ok (advance_eq hat)]
    exact (ih.unary.bind fun _ => coupled_pure _) rest _ hat.next
  · rw [heq, if_neg (by simpa using hminus)]
    exact ih.primary ts c hat

theorem follows_primary :
    Follows i (Reader.primary rounds (room + 1)) (primary rounds (room + 1)) := by
  intro ts c hat
  rw [primary, bind_of_ok (peek_eq hat)]
  rcases Reader.primary_cases ts with ⟨value, line, rest, rfl, heq⟩ |
    ⟨name, line, rest, rfl, heq⟩ | ⟨hparen, heq⟩ | ⟨hother, heq⟩
  · rw [heq, List.headD_cons]
    dsimp only
    rw [bind_of_ok (advance_eq hat)]
    exact .ok hat.next
  · rw [heq, List.headD_cons]
    dsimp only
    rw [bind_of_ok (advance_eq hat)]
    exact .ok hat.next
  · cases ts with
    | nil => cases hparen
    | cons t rest =>
        have hmark : IsMark .leftParen t := hparen
        rw [heq, Reader.parenthesised, bind_of_ok (Reader.takeMark_cons hmark rest)]
        obtain ⟨note, ht⟩ := hmark.exists_note
        rw [List.headD_cons, ht]
        dsimp only
        rw [bind_of_ok (advance_eq (t := t) hat)]
        exact (ih.expression.bind fun _ => (follows_expectMark _).bind fun _ =>
          coupled_pure _) rest _ hat.next
  · rw [heq]
    rw [← i.kind_headD] at hother
    generalize ts.headD i.closing = t at hother
    obtain ⟨lexeme, line⟩ := t
    cases lexeme with
    | mark m note =>
        cases m with
        | leftParen => simp [Token.kind, Lexeme.kind] at hother
        | _ => exact .error hat
    | endOfInput note => exact .error hat
    | _ => simp [Token.kind, Lexeme.kind] at hother

theorem followsAt_succ : FollowsAt i rounds (room + 1) where
  statement := follows_statement ih
  conditional := follows_conditional ih
  loop := follows_loop ih
  block := follows_block ih
  expression := by rw [Reader.expression, expression]; exact ih.assignment
  assignment := follows_assignment ih
  tier t := by rw [Reader.tier, tier]; exact follows_chain (ih.operand t) rounds t.operator?
  operand := follows_operand ih
  unary := follows_unary ih
  primary := follows_primary ih

end Step

/-- However much room there is, every function of the parser follows its reader. -/
theorem followsAt (i : Input) (rounds room : Nat) : FollowsAt i rounds room := by
  induction room with
  | zero => exact followsAt_zero i rounds
  | succ room ih => exact followsAt_succ ih

end Follows

end Walk

end RillLang
