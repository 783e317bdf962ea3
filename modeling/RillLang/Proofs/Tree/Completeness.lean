import RillLang.Proofs.Tree.Opening

/-!
# Every phrase of the grammar is read

A reader that is given the tokens of a phrase, followed by something that cannot
belong to the phrase, returns the tree of the phrase and leaves what follows.  It
needs as many rounds as the phrase has tokens, and twelve units of room for each
token, which is what a parenthesis takes.

What may follow differs with the phrase: no operator of the same or a tighter tier
after operands of a tier (`Stops`), no operator and no equals sign after an expression
(`EndsExpression`), and no `else` after a statement.  A tier is left-recursive in the
grammar and a loop in the reader; `Tiered.read_chain` joins the two by saying where the
loop stands after each derivation.
-/

namespace RillLang

/-- The rank of a tier: tighter tiers have a higher one. -/
def Tier.rank : Tier → Nat
  | equality => 1 | comparison => 2 | term => 3 | factor => 4

theorem Tier.rank_of_tighter {t t' : Tier} (h : t.tighter = some t') : t'.rank = t.rank + 1 := by
  cases t <;> cases h <;> rfl

theorem Tier.rank_le (t : Tier) : t.rank ≤ 4 := by cases t <;> decide

/-- No mark is an operator of two tiers. -/
theorem Tier.operator?_eq_none {t t' : Tier} {m : Mark} {op : BinaryOperator}
    (h : t.operator? m = some op) (hne : t'.rank ≠ t.rank) : t'.operator? m = none := by
  cases t <;> cases m <;> cases h <;> cases t' <;> first | rfl | exact absurd rfl hne

namespace Reader

open Grammar Ending

/-! ## What may follow a phrase -/

/-- No operator of a tier of this rank or a higher one comes first. -/
def Stops (rank : Nat) (tokens : List Token) : Prop :=
  ∀ t : Tier, rank ≤ t.rank → operatorAt t.operator? tokens = none

/-- Neither an operator nor an equals sign comes first. -/
def EndsExpression (tokens : List Token) : Prop :=
  Stops 1 tokens ∧ kindAt tokens ≠ .mark .equal

theorem Stops.mono {rank rank' : Nat} {tokens : List Token} (h : Stops rank tokens)
    (hle : rank ≤ rank') : Stops rank' tokens :=
  fun t ht => h t (Nat.le_trans hle ht)

theorem operatorAt_mark {m : Mark} {t : Token} (h : IsMark m t)
    (operator? : Mark → Option BinaryOperator) (rest : List Token) :
    operatorAt operator? (t :: rest) = (operator? m).map fun op => (op, t.line, rest) := by
  obtain ⟨note, ht⟩ := h.exists_note
  rw [ht]
  rfl

theorem stops_of_operator? {t : Tier} {m : Mark} {op : BinaryOperator} {sign : Token}
    (hsign : IsMark m sign) (hop : t.operator? m = some op) (rest : List Token) :
    Stops (t.rank + 1) (sign :: rest) := by
  intro t' ht'
  rw [operatorAt_mark hsign, Tier.operator?_eq_none hop (by omega)]
  rfl

/-- An expression may end before a closing parenthesis or a semicolon. -/
theorem endsExpression_mark {m : Mark} {t : Token} (h : IsMark m t)
    (hm : m = .rightParen ∨ m = .semicolon) (rest : List Token) : EndsExpression (t :: rest) := by
  refine ⟨fun t' _ => ?_, fun hk => ?_⟩
  · rw [operatorAt_mark h]
    rcases hm with rfl | rfl <;> cases t' <;> rfl
  · have hequal : m = .equal := Kind.mark.inj (Eq.trans (Eq.symm h) hk)
    rcases hm with rfl | rfl <;> cases hequal

/-! ## The constructs, given their parts -/

/-- The reader returns the tree of the phrase wherever an expression may end after it. -/
def ReadsExpression (reader : Reader Node) (ts : List Token) (e : Node) : Prop :=
  ∀ rest, EndsExpression rest → reader (ts ++ rest) = .ok e rest

theorem parenthesised_read {expression : Reader Node} {opening closing : Token}
    {inner : List Token} {e : Node} (hopening : IsMark .leftParen opening)
    (hinner : ReadsExpression expression inner e) (hclosing : IsMark .rightParen closing)
    (rest : List Token) :
    parenthesised expression (opening :: (inner ++ closing :: rest)) = .ok e rest := by
  rw [parenthesised, bind_of_ok (takeMark_cons hopening _),
    bind_of_ok (hinner _ (endsExpression_mark hclosing (.inl rfl) rest)),
    bind_of_ok (takeMark_cons hclosing rest)]
  rfl

theorem elseBranch_read {block : Reader (List Node)} {otherwise : Token} {tokens rest : List Token}
    {body : List Node} (hotherwise : IsMark .elseWord otherwise)
    (hbody : block tokens = .ok body rest) :
    elseBranch block (otherwise :: tokens) = .ok (some body) rest := by
  have hk : kindAt (otherwise :: tokens) = .mark .elseWord := hotherwise
  rw [elseBranch_eq, if_pos hk, bind_of_ok (takeMark_cons hotherwise tokens), bind_of_ok hbody]
  rfl

theorem elseBranch_none (block : Reader (List Node)) {tokens : List Token}
    (h : kindAt tokens ≠ .mark .elseWord) : elseBranch block tokens = .ok none tokens := by
  rw [elseBranch_eq, if_neg h]

theorem primary_read_parenthesised {rounds room : Nat} {opening closing : Token}
    {inner : List Token} {e : Node} (hopening : IsMark .leftParen opening)
    (hinner : ReadsExpression (expression rounds room) inner e)
    (hclosing : IsMark .rightParen closing) (rest : List Token) :
    primary rounds (room + 1) (opening :: inner ++ [closing] ++ rest) = .ok e rest := by
  obtain ⟨note, hnote⟩ := hopening.exists_note
  rw [hnote, List.append_assoc, List.cons_append, primary]
  exact parenthesised_read (isMark_mk _ _ _) hinner hclosing rest

theorem unary_eq_primary {tokens : List Token} (h : kindAt tokens ≠ .mark .minus)
    (rounds room : Nat) : unary rounds (room + 1) tokens = primary rounds room tokens := by
  rcases unary_cases tokens with ⟨sign, rest, rfl, hsign, -⟩ | ⟨-, heq⟩
  · exact absurd hsign h
  · exact heq rounds room

theorem unary_read_negate {rounds room : Nat} {sign : Token} {tokens rest : List Token}
    {e : Node} (hsign : IsMark .minus sign) (he : unary rounds room tokens = .ok e rest) :
    unary rounds (room + 1) (sign :: tokens) = .ok (.unary sign.line (some .negate) e) rest := by
  rcases unary_cases (sign :: tokens) with ⟨sign', rest', heq, -, hunary⟩ | ⟨hne, -⟩
  · cases heq
    rw [hunary, bind_of_ok he]
    rfl
  · exact absurd hsign hne

theorem assignment_eq_tier {tokens : List Token} (h : ¬ OpensAssignment tokens)
    (rounds room : Nat) :
    assignment rounds (room + 1) tokens = tier rounds room .equality tokens := by
  rcases assignment_cases tokens with ⟨name, line, sign, rest, htokens, hsign, -⟩ | ⟨-, heq⟩
  · exact absurd ⟨name, line, sign, rest, htokens, hsign⟩ h
  · exact heq rounds room

theorem assignment_read_assign {rounds room : Nat} {name : Option String} {line : Int}
    {sign : Token} {tokens rest : List Token} {e : Node} (hsign : IsMark .equal sign)
    (he : assignment rounds room tokens = .ok e rest) :
    assignment rounds (room + 1) (⟨.identifier name, line⟩ :: sign :: tokens) =
      .ok (.assign line (identifierName name) e) rest := by
  rcases assignment_cases (⟨.identifier name, line⟩ :: sign :: tokens) with
    ⟨name', line', sign', rest', heq, -, hassign⟩ | ⟨hne, -⟩
  · cases heq
    rw [hassign, bind_of_ok he]
    rfl
  · exact absurd ⟨name, line, sign, tokens, rfl, hsign⟩ hne

/-! ## The forms of a statement, given their parts -/

section Forms

variable {rounds room : Nat} {e : Node} {ts rest : List Token}

theorem statement_read_let {word sign semicolon : Token} {name : Option String} {line : Int}
    (hword : IsMark .letWord word) (hsign : IsMark .equal sign)
    (he : ReadsExpression (expression rounds room) ts e)
    (hsemicolon : IsMark .semicolon semicolon) :
    statement rounds (room + 1)
        (word :: ⟨.identifier name, line⟩ :: sign :: (ts ++ semicolon :: rest)) =
      .ok (.letStmt word.line (identifierName name) e) rest := by
  rw [statement_eq, show kindAt (_ :: _) = .mark .letWord from hword]
  show letStatement (expression rounds room) _ = _
  rw [letStatement, bind_of_ok (takeMark_cons hword _),
    bind_of_ok (takeName_eq_ok.2 ⟨name, line, rfl, rfl⟩), bind_of_ok (takeMark_cons hsign _),
    bind_of_ok (he _ (endsExpression_mark hsemicolon (.inr rfl) rest)),
    bind_of_ok (takeMark_cons hsemicolon rest)]
  rfl

theorem statement_read_print {word opening closing semicolon : Token}
    (hword : IsMark .printWord word) (hopening : IsMark .leftParen opening)
    (he : ReadsExpression (expression rounds room) ts e) (hclosing : IsMark .rightParen closing)
    (hsemicolon : IsMark .semicolon semicolon) :
    statement rounds (room + 1) (word :: opening :: (ts ++ closing :: semicolon :: rest)) =
      .ok (.printStmt word.line e) rest := by
  rw [statement_eq, show kindAt (_ :: _) = .mark .printWord from hword]
  show printStatement (expression rounds room) _ = _
  rw [printStatement, bind_of_ok (takeMark_cons hword _),
    bind_of_ok (parenthesised_read hopening he hclosing _),
    bind_of_ok (takeMark_cons hsemicolon rest)]
  rfl

/-- A token that begins an expression chooses none of the other forms. -/
theorem statement_eq_expression {tokens : List Token} (h : OpensExpression (kindAt tokens)) :
    statement rounds (room + 1) tokens =
      expressionStatement (expression rounds room) tokens := by
  rw [statement_eq]
  revert h
  cases kindAt tokens with
  | mark m => cases m <;> first | exact fun _ => rfl | exact fun h => absurd h id
  | _ => exact fun _ => rfl

theorem statement_read_expression {t semicolon : Token} (ht : OpensExpression t.kind)
    (he : ReadsExpression (expression rounds room) (t :: ts) e)
    (hsemicolon : IsMark .semicolon semicolon) :
    statement rounds (room + 1) (t :: (ts ++ semicolon :: rest)) =
      .ok (.exprStmt t.line e) rest := by
  have hline : nextLine (t :: (ts ++ semicolon :: rest)) =
      .ok t.line (t :: ts ++ semicolon :: rest) := rfl
  have hopens : OpensExpression (kindAt (t :: (ts ++ semicolon :: rest))) := ht
  rw [statement_eq_expression hopens, expressionStatement, bind_of_ok hline,
    bind_of_ok (he _ (endsExpression_mark hsemicolon (.inr rfl) rest)),
    bind_of_ok (takeMark_cons hsemicolon rest)]
  rfl

theorem statement_read_block {t : Token} {tokens : List Token} {body : List Node}
    (ht : IsMark .leftBrace t) (hbody : block rounds room (t :: tokens) = .ok body rest) :
    statement rounds (room + 1) (t :: tokens) = .ok (.block t.line body) rest := by
  have hline : nextLine (t :: tokens) = .ok t.line (t :: tokens) := rfl
  rw [statement_eq, show kindAt (_ :: _) = .mark .leftBrace from ht]
  show (nextLine >>= fun line => block rounds room >>= fun body =>
    pure (Node.block line body)) (t :: tokens) = _
  rw [bind_of_ok hline, bind_of_ok hbody]
  rfl

theorem statement_read_if {word : Token} {c : Node} {tokens mid mid' : List Token}
    {thenBranch : List Node} {branch : Option (List Node)} (hword : IsMark .ifWord word)
    (hc : parenthesised (expression rounds room) tokens = .ok c mid)
    (hthen : block rounds room mid = .ok thenBranch mid')
    (hbranch : elseBranch (block rounds room) mid' = .ok branch rest) :
    statement rounds (room + 2) (word :: tokens) =
      .ok (.ifStmt word.line c thenBranch branch) rest := by
  rw [statement_eq, show kindAt (_ :: _) = .mark .ifWord from hword]
  show conditional rounds (room + 1) _ = _
  rw [conditional, bind_of_ok (takeMark_cons hword _), bind_of_ok hc, bind_of_ok hthen,
    bind_of_ok hbranch]
  rfl

theorem statement_read_while {word : Token} {c : Node} {tokens mid : List Token}
    {body : List Node} (hword : IsMark .whileWord word)
    (hc : parenthesised (expression rounds room) tokens = .ok c mid)
    (hbody : block rounds room mid = .ok body rest) :
    statement rounds (room + 2) (word :: tokens) = .ok (.whileStmt word.line c body) rest := by
  rw [statement_eq, show kindAt (_ :: _) = .mark .whileWord from hword]
  show loop rounds (room + 1) _ = _
  rw [loop, bind_of_ok (takeMark_cons hword _), bind_of_ok hc, bind_of_ok hbody]
  rfl

theorem block_read {opening closing : Token} {tokens : List Token} {body : List Node}
    (hopening : IsMark .leftBrace opening)
    (hbody : items rounds closesBlock (statement rounds room) tokens = .ok body (closing :: rest))
    (hclosing : IsMark .rightBrace closing) :
    block rounds (room + 1) (opening :: tokens) = .ok body rest := by
  rw [block, bind_of_ok (takeMark_cons hopening tokens), bind_of_ok hbody,
    bind_of_ok (takeMark_cons hclosing rest)]
  rfl

end Forms

/-! ## The repetitions -/

section Items

variable {stop : Kind → Bool} {item : Reader Node}

theorem itemsOnto_stop {tokens : List Token} (h : stop (kindAt tokens) = true)
    (done : List Node) (rounds : Nat) :
    itemsOnto stop item done rounds tokens = .ok done.reverse tokens := by
  unfold itemsOnto
  rw [if_pos h]

theorem itemsOnto_item {tokens rest : List Token} {node : Node}
    (h : stop (kindAt tokens) = false) (hitem : item tokens = .ok node rest)
    (done : List Node) (rounds : Nat) :
    itemsOnto stop item done (rounds + 1) tokens =
      itemsOnto stop item (node :: done) rounds rest := by
  rw [itemsOnto, if_neg (by simp [h]), hitem]

end Items

section Chain

variable {operator? : Mark → Option BinaryOperator} {operand : Reader Node}

theorem chain_of_operand {tokens rest : List Token} {left : Node}
    (h : operand tokens = .ok left rest) (rounds : Nat) :
    chain rounds operator? operand tokens = chainOnto operator? operand left rounds rest :=
  bind_of_ok h

theorem chainOnto_stop {tokens : List Token} (h : operatorAt operator? tokens = none)
    (left : Node) (rounds : Nat) :
    chainOnto operator? operand left rounds tokens = .ok left tokens := by
  rw [chainOnto, h]

theorem chainOnto_link {m : Mark} {op : BinaryOperator} {sign : Token} {tokens rest : List Token}
    {right : Node} (hsign : IsMark m sign) (hop : operator? m = some op)
    (hright : operand tokens = .ok right rest) (left : Node) (rounds : Nat) :
    chainOnto operator? operand left (rounds + 1) (sign :: tokens) =
      chainOnto operator? operand (.binary sign.line (some (.binary op)) left right) rounds
        rest := by
  rw [chainOnto, operatorAt_mark hsign, hop]
  simp only [Option.map_some, hright]

end Chain

end Reader

/-! ## Expressions -/

namespace Grammar

open Reader Ending

theorem Primary.kindAt_ne_minus {ts : List Token} {e : Node} (h : Primary ts e)
    (rest : List Token) : kindAt (ts ++ rest) ≠ .mark .minus := by
  cases h with
  | number value line => rintro ⟨⟩
  | name name line => rintro ⟨⟩
  | parenthesised hopening _ _ =>
      intro hk
      cases Eq.trans (Eq.symm hopening) hk

mutual

theorem Primary.read {ts : List Token} {e : Node} {rounds room : Nat} :
    Primary ts e → ts.length ≤ rounds → 12 * ts.length ≤ room →
      ∀ rest, primary rounds room (ts ++ rest) = .ok e rest
  | .number value line, _, hroom, rest => by
      simp only [List.length_cons, List.length_nil] at hroom
      obtain ⟨room, rfl⟩ : ∃ n, room = n + 1 := ⟨room - 1, by omega⟩
      rw [List.cons_append, primary]
      rfl
  | .name name line, _, hroom, rest => by
      simp only [List.length_cons, List.length_nil] at hroom
      obtain ⟨room, rfl⟩ : ∃ n, room = n + 1 := ⟨room - 1, by omega⟩
      rw [List.cons_append, primary]
      rfl
  | .parenthesised hopening h hclosing, hrounds, hroom, rest => by
      simp only [List.length_cons, List.length_append, List.length_nil] at hrounds hroom
      obtain ⟨room, rfl⟩ : ∃ n, room = n + 2 := ⟨room - 2, by omega⟩
      refine primary_read_parenthesised hopening ?_ hclosing rest
      rw [expression]
      exact h.read (by omega) (by omega)

theorem Unary.read {ts : List Token} {e : Node} {rounds room : Nat} :
    Unary ts e → ts.length ≤ rounds → 12 * ts.length + 1 ≤ room →
      ∀ rest, unary rounds room (ts ++ rest) = .ok e rest
  | .primary h, hrounds, hroom, rest => by
      obtain ⟨room, rfl⟩ : ∃ n, room = n + 1 := ⟨room - 1, by omega⟩
      rw [unary_eq_primary (h.kindAt_ne_minus rest)]
      exact h.read hrounds (by omega) rest
  | .negate hsign h, hrounds, hroom, rest => by
      simp only [List.length_cons] at hrounds hroom
      obtain ⟨room, rfl⟩ : ∃ n, room = n + 1 := ⟨room - 1, by omega⟩
      exact unary_read_negate hsign (h.read (by omega) (by omega) rest)

/-- Where the loop of a tier stands after the tokens of a derivation: they are folded
into the tree, and at most one round is used for each token but the first. -/
theorem Tiered.read_chain {t : Tier} {ts : List Token} {e : Node} {rounds room : Nat} :
    Tiered t ts e → ts.length ≤ rounds → 12 * ts.length + 10 ≤ room + 2 * t.rank →
      ∀ rest, Stops (t.rank + 1) rest →
        ∃ left, rounds < left + ts.length ∧
          chain rounds t.operator? (operand rounds room t) (ts ++ rest) =
            chainOnto t.operator? (operand rounds room t) e left rest
  | .operand h, hrounds, hroom, rest, hrest => by
      have hpos := h.opens.length_pos
      exact ⟨rounds, by omega, chain_of_operand (h.read hrounds hroom rest hrest) rounds⟩
  | @Tiered.joined _ ls rs l r m op sign hl hsign hop hr, hrounds, hroom, rest, hrest => by
      simp only [List.length_append, List.length_cons] at hrounds hroom
      have hpos := hr.opens.length_pos
      have hlrounds : ls.length ≤ rounds := by omega
      have hlroom : 12 * ls.length + 10 ≤ room + 2 * t.rank := by omega
      have hrrounds : rs.length ≤ rounds := by omega
      have hrroom : 12 * rs.length + 10 ≤ room + 2 * t.rank := by omega
      obtain ⟨left, hleft, heq⟩ :=
        hl.read_chain hlrounds hlroom (sign :: (rs ++ rest)) (stops_of_operator? hsign hop _)
      have hright := hr.read hrrounds hrroom rest hrest
      obtain ⟨left, rfl⟩ : ∃ n, left = n + 1 := ⟨left - 1, by omega⟩
      refine ⟨left, by simp only [List.length_append, List.length_cons]; omega, ?_⟩
      rw [List.append_assoc, List.cons_append, heq, chainOnto_link hsign hop hright]

theorem Operand.read {t : Tier} {ts : List Token} {e : Node} {rounds room : Nat} :
    Operand t ts e → ts.length ≤ rounds → 12 * ts.length + 10 ≤ room + 2 * t.rank →
      ∀ rest, Stops (t.rank + 1) rest → operand rounds room t (ts ++ rest) = .ok e rest
  | @Operand.tighter _ t' _ _ ht h, hrounds, hroom, rest, hrest => by
      have hrank := Tier.rank_of_tighter ht
      have hle := Tier.rank_le t
      obtain ⟨room, rfl⟩ : ∃ n, room = n + 2 := ⟨room - 2, by omega⟩
      have htroom : 12 * ts.length + 10 ≤ room + 2 * t'.rank := by omega
      obtain ⟨left, -, heq⟩ := h.read_chain hrounds htroom rest (hrest.mono (by omega))
      rw [operand, ht]
      show tier rounds (room + 1) t' (ts ++ rest) = .ok e rest
      rw [tier, heq, chainOnto_stop (hrest t' (by omega))]
  | .unary ht h, hrounds, hroom, rest, _ => by
      have hle := Tier.rank_le t
      obtain ⟨room, rfl⟩ : ∃ n, room = n + 1 := ⟨room - 1, by omega⟩
      rw [operand, ht]
      exact h.read hrounds (by omega) rest

theorem Assignment.read {ts : List Token} {e : Node} {rounds room : Nat} :
    Assignment ts e → ts.length ≤ rounds → 12 * ts.length + 10 ≤ room →
      ReadsExpression (assignment rounds room) ts e
  | .assign hsign h, hrounds, hroom, rest, hrest => by
      simp only [List.length_cons] at hrounds hroom
      obtain ⟨room, rfl⟩ : ∃ n, room = n + 1 := ⟨room - 1, by omega⟩
      exact assignment_read_assign hsign (h.read (by omega) (by omega) rest hrest)
  | .tiered h, hrounds, hroom, rest, hrest => by
      obtain ⟨room, rfl⟩ : ∃ n, room = n + 2 := ⟨room - 2, by omega⟩
      have htroom : 12 * ts.length + 10 ≤ room + 2 * Tier.equality.rank := hroom
      obtain ⟨left, -, heq⟩ := h.read_chain hrounds htroom rest (hrest.1.mono (by decide))
      rw [assignment_eq_tier (h.not_opensAssignment rest hrest.2), tier, heq,
        chainOnto_stop (hrest.1 .equality (by decide))]

end

theorem Assignment.read_expression {ts : List Token} {e : Node} {rounds room : Nat}
    (h : Assignment ts e) (hrounds : ts.length ≤ rounds) (hroom : 12 * ts.length + 11 ≤ room) :
    ReadsExpression (expression rounds room) ts e := by
  obtain ⟨room, rfl⟩ : ∃ n, room = n + 1 := ⟨room - 1, by omega⟩
  rw [expression]
  exact h.read hrounds (by omega)

/-! ## Statements -/

theorem OpensStatement.ne_elseWord {k : Kind} (h : OpensStatement k) : k ≠ .mark .elseWord := by
  rintro rfl
  exact h

theorem OpensStatement.not_closesBlock {k : Kind} (h : OpensStatement k) :
    closesBlock k = false := by
  cases k with
  | mark m => cases m <;> first | rfl | exact absurd h id
  | endOfInput => exact absurd h id
  | _ => rfl

theorem OpensStatement.not_closesProgram {k : Kind} (h : OpensStatement k) :
    closesProgram k = false := by
  cases k with
  | endOfInput => exact absurd h id
  | _ => rfl

/-- What follows a statement of a list is another statement or the end of the list, so
it is no `else`. -/
theorem Statements.kindAt_ne_elseWord {ts rest : List Token} {ss : List Node}
    (h : Statements ts ss) (hrest : kindAt rest ≠ .mark .elseWord) :
    kindAt (ts ++ rest) ≠ .mark .elseWord := by
  cases h with
  | nil => exact hrest
  | cons hs _ => exact ((hs.opens.append _).append rest).kindAt.ne_elseWord

mutual

theorem Statement.read {ts : List Token} {s : Node} {rounds room : Nat} :
    Statement ts s → ts.length ≤ rounds → 12 * ts.length ≤ room →
      ∀ rest, kindAt rest ≠ .mark .elseWord → statement rounds room (ts ++ rest) = .ok s rest
  | .letStmt hword hsign he hsemicolon, hrounds, hroom, rest, _ => by
      simp only [List.length_cons, List.length_append, List.length_nil] at hrounds hroom
      obtain ⟨room, rfl⟩ : ∃ n, room = n + 1 := ⟨room - 1, by omega⟩
      simp only [List.append_assoc, List.cons_append, List.nil_append]
      exact statement_read_let hword hsign (he.read_expression (by omega) (by omega)) hsemicolon
  | .printStmt hword hopening he hclosing hsemicolon, hrounds, hroom, rest, _ => by
      simp only [List.length_cons, List.length_append, List.length_nil] at hrounds hroom
      obtain ⟨room, rfl⟩ : ∃ n, room = n + 1 := ⟨room - 1, by omega⟩
      simp only [List.append_assoc, List.cons_append, List.nil_append]
      exact statement_read_print hword hopening (he.read_expression (by omega) (by omega)) hclosing
        hsemicolon
  | .exprStmt he hsemicolon, hrounds, hroom, rest, _ => by
      simp only [List.length_cons, List.length_append, List.length_nil] at hrounds hroom
      obtain ⟨room, rfl⟩ : ∃ n, room = n + 1 := ⟨room - 1, by omega⟩
      simp only [List.append_assoc, List.cons_append, List.nil_append]
      have hread : ReadsExpression (expression rounds room) (_ :: _) _ :=
        he.read_expression (by simp only [List.length_cons]; omega)
          (by simp only [List.length_cons]; omega)
      exact statement_read_expression he.opens.kindAt hread hsemicolon
  | .block hb, hrounds, hroom, rest, _ => by
      have hpos := hb.opens.length_pos
      obtain ⟨room, rfl⟩ : ∃ n, room = n + 1 := ⟨room - 1, by omega⟩
      exact statement_read_block hb.opens.kindAt.symm (hb.read hrounds (by omega) rest)
  | .ifStmt hword hopening hc hclosing hthen, hrounds, hroom, rest, hrest => by
      simp only [List.length_cons, List.length_append] at hrounds hroom
      obtain ⟨room, rfl⟩ : ∃ n, room = n + 2 := ⟨room - 2, by omega⟩
      simp only [List.append_assoc, List.cons_append]
      exact statement_read_if hword
        (parenthesised_read hopening (hc.read_expression (by omega) (by omega)) hclosing _)
        (hthen.read (by omega) (by omega) rest) (elseBranch_none _ hrest)
  | .ifElse hword hopening hc hclosing hthen hotherwise helse, hrounds, hroom, rest, _ => by
      simp only [List.length_cons, List.length_append] at hrounds hroom
      obtain ⟨room, rfl⟩ : ∃ n, room = n + 2 := ⟨room - 2, by omega⟩
      simp only [List.append_assoc, List.cons_append]
      exact statement_read_if hword
        (parenthesised_read hopening (hc.read_expression (by omega) (by omega)) hclosing _)
        (hthen.read (by omega) (by omega) _)
        (elseBranch_read hotherwise (helse.read (by omega) (by omega) rest))
  | .whileStmt hword hopening hc hclosing hbody, hrounds, hroom, rest, _ => by
      simp only [List.length_cons, List.length_append] at hrounds hroom
      obtain ⟨room, rfl⟩ : ∃ n, room = n + 2 := ⟨room - 2, by omega⟩
      simp only [List.append_assoc, List.cons_append]
      exact statement_read_while hword
        (parenthesised_read hopening (hc.read_expression (by omega) (by omega)) hclosing _)
        (hbody.read (by omega) (by omega) rest)

theorem Block.read {ts : List Token} {body : List Node} {rounds room : Nat} :
    Block ts body → ts.length ≤ rounds → 12 * ts.length ≤ room + 1 →
      ∀ rest, block rounds room (ts ++ rest) = .ok body rest
  | @Block.braces opening closing inner _ hopening h hclosing, hrounds, hroom, rest => by
      simp only [List.length_cons, List.length_append, List.length_nil] at hrounds hroom
      obtain ⟨room, rfl⟩ : ∃ n, room = n + 1 := ⟨room - 1, by omega⟩
      have hinner : inner.length ≤ rounds := by omega
      have hinnerRoom : 12 * inner.length ≤ room := by omega
      have hread := h.read (fun _ hk => hk.not_closesBlock) hinner hinnerRoom (closing :: rest)
        (by rw [show kindAt (closing :: rest) = _ from hclosing]; rfl)
        (by rw [show kindAt (closing :: rest) = _ from hclosing]; rintro ⟨⟩) [] rounds hinner
      simp only [List.append_assoc, List.cons_append, List.nil_append]
      exact block_read hopening hread hclosing

/-- Items read after the items `done`, up to where the reading stops. -/
theorem Statements.read {ts : List Token} {ss : List Node} {rounds room : Nat}
    {stop : Kind → Bool} (hopen : ∀ k, OpensStatement k → stop k = false) :
    Statements ts ss → ts.length ≤ rounds → 12 * ts.length ≤ room →
      ∀ rest, stop (kindAt rest) = true → kindAt rest ≠ .mark .elseWord →
        ∀ done left, ts.length ≤ left →
          itemsOnto stop (statement rounds room) done left (ts ++ rest) =
            .ok (done.reverse ++ ss) rest
  | .nil, _, _, rest, hstop, _, done, left, _ => by
      rw [List.nil_append, itemsOnto_stop hstop, List.append_nil]
  | @Statements.cons us vs s ss hs hss, hrounds, hroom, rest, hstop, helse, done, left, hleft => by
      simp only [List.length_append] at hrounds hroom hleft
      have hpos := hs.opens.length_pos
      obtain ⟨left, rfl⟩ : ∃ n, left = n + 1 := ⟨left - 1, by omega⟩
      have hread : statement rounds room (us ++ (vs ++ rest)) = .ok s (vs ++ rest) :=
        hs.read (by omega) (by omega) _ (hss.kindAt_ne_elseWord helse)
      have hmore : itemsOnto stop (statement rounds room) (s :: done) left (vs ++ rest) =
          .ok ((s :: done).reverse ++ ss) rest :=
        hss.read hopen (by omega) (by omega) rest hstop helse _ left (by omega)
      rw [List.append_assoc, itemsOnto_item (hopen _ (hs.opens.append _).kindAt) hread, hmore,
        List.reverse_cons, List.append_assoc, List.singleton_append]

end

end Grammar

namespace Reader

open Grammar Ending

/-- A program that the grammar has is read to the end, given twelve units of room for
each of its tokens. -/
theorem program_complete {tokens : List Token} {p : Program} {limit : Nat} (h : Derives tokens p)
    (hlimit : 12 * tokens.length ≤ limit) :
    program tokens.length limit tokens = .ok p [] := by
  have hitems := Statements.read (fun _ hk => hk.not_closesProgram) h (Nat.le_refl _) hlimit []
    rfl (by rintro ⟨⟩) [] tokens.length (Nat.le_refl _)
  rw [List.append_nil] at hitems
  exact bind_of_ok hitems

end Reader

end RillLang
