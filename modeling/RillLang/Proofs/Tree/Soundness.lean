import RillLang.Proofs.Tree.Opening

/-!
# What is read is a phrase of the grammar

Whenever a reader returns a tree, the tokens it took spell that tree.  The readers
call one another with one unit of room less each time, so the statement for all of
them at once, `SoundAt`, is proved by induction on the room; the two repetitions are
followed along their rounds.
-/

namespace RillLang

namespace Grammar

/-- The tokens spell an expression between parentheses. -/
def Parenthesised (ts : List Token) (e : Node) : Prop :=
  ∃ opening inner closing, ts = opening :: inner ++ [closing] ∧
    IsMark .leftParen opening ∧ Expression inner e ∧ IsMark .rightParen closing

end Grammar

namespace Reader

open Grammar Ending

/-- Whatever the reader returns is spelled by the tokens it took. -/
def Takes {α : Type} (reader : Reader α) (phrase : List Token → α → Prop) : Prop :=
  ∀ {tokens a rest}, reader tokens = .ok a rest → ∃ ts, tokens = ts ++ rest ∧ phrase ts a

theorem takes_refuse {α : Type} (reject : Reject) (phrase : List Token → α → Prop) :
    Takes (refuse reject) phrase := by
  intro tokens a rest h
  cases h

/-! ## The constructs, given their parts -/

section Constructs

variable {expression : Reader Node} {body : Reader (List Node)}

theorem takes_parenthesised (hexpr : Takes expression Expression) :
    Takes (parenthesised expression) Parenthesised := by
  intro tokens e rest h
  simp only [parenthesised, bind_eq_ok, takeMark_eq_ok, pure_eq_ok] at h
  obtain ⟨_, _, ⟨opening, rfl, hopening, -⟩, _, _, he,
    _, _, ⟨closing, rfl, hclosing, -⟩, rfl, rfl⟩ := h
  obtain ⟨inner, rfl, hinner⟩ := hexpr he
  exact ⟨_, by simp, opening, inner, closing, rfl, hopening, hinner, hclosing⟩

theorem takes_letStatement (hexpr : Takes expression Expression) :
    Takes (letStatement expression) Statement := by
  intro tokens s rest h
  simp only [letStatement, bind_eq_ok, takeMark_eq_ok, takeName_eq_ok, pure_eq_ok] at h
  obtain ⟨_, _, ⟨word, rfl, hword, rfl⟩, _, _, ⟨name, line, rfl, rfl⟩,
    _, _, ⟨sign, rfl, hsign, -⟩, e, _, he,
    _, _, ⟨semicolon, rfl, hsemicolon, -⟩, rfl, rfl⟩ := h
  obtain ⟨ts, rfl, hts⟩ := hexpr he
  exact ⟨word :: ⟨.identifier name, line⟩ :: sign :: ts ++ [semicolon], by simp,
    .letStmt hword hsign hts hsemicolon⟩

theorem takes_printStatement (hexpr : Takes expression Expression) :
    Takes (printStatement expression) Statement := by
  intro tokens s rest h
  simp only [printStatement, bind_eq_ok, takeMark_eq_ok, pure_eq_ok] at h
  obtain ⟨_, _, ⟨word, rfl, hword, rfl⟩, e, _, he,
    _, _, ⟨semicolon, rfl, hsemicolon, -⟩, rfl, rfl⟩ := h
  obtain ⟨_, rfl, opening, ts, closing, rfl, hopening, hts, hclosing⟩ :=
    takes_parenthesised hexpr he
  exact ⟨_, by simp, .printStmt hword hopening hts hclosing hsemicolon⟩

theorem takes_expressionStatement (hexpr : Takes expression Expression) :
    Takes (expressionStatement expression) Statement := by
  intro tokens s rest h
  simp only [expressionStatement, bind_eq_ok, takeMark_eq_ok, pure_eq_ok] at h
  obtain ⟨line, _, hline, e, _, he, _, _, ⟨semicolon, rfl, hsemicolon, -⟩, rfl, rfl⟩ := h
  obtain ⟨_, rfl, hts⟩ := hexpr he
  -- the line is that of the first token, and an expression has a first token
  obtain ⟨t, ts, rfl, -⟩ := hts.opens
  cases tokens with
  | nil => cases hline
  | cons t' rest' =>
      cases hline
      exact ⟨_, by simp, .exprStmt hts hsemicolon⟩

theorem takes_elseBranch (hbody : Takes body Block) :
    Takes (elseBranch body) fun ts branch =>
      (ts = [] ∧ branch = none) ∨
      ∃ otherwise elseTokens elseBranch, ts = otherwise :: elseTokens ∧
        IsMark .elseWord otherwise ∧ Block elseTokens elseBranch ∧ branch = some elseBranch := by
  intro tokens branch rest h
  rw [elseBranch_eq] at h
  split at h
  · simp only [bind_eq_ok, takeMark_eq_ok, pure_eq_ok] at h
    obtain ⟨_, _, ⟨otherwise, rfl, hotherwise, -⟩, elseBranch, _, hb, rfl, rfl⟩ := h
    obtain ⟨elseTokens, rfl, helse⟩ := hbody hb
    exact ⟨otherwise :: elseTokens, rfl,
      .inr ⟨otherwise, elseTokens, elseBranch, rfl, hotherwise, helse, rfl⟩⟩
  · cases h
    exact ⟨[], rfl, .inl ⟨rfl, rfl⟩⟩

end Constructs

/-! ## The repetitions -/

/-- Items read after the items `done` are statements up to where the reading stops. -/
theorem itemsOnto_sound {stop : Kind → Bool} {item : Reader Node} (hitem : Takes item Statement)
    (rounds : Nat) : ∀ {done nodes : List Node} {tokens rest : List Token},
      itemsOnto stop item done rounds tokens = .ok nodes rest →
      ∃ ts more, tokens = ts ++ rest ∧ Statements ts more ∧ nodes = done.reverse ++ more ∧
        stop (kindAt rest) = true := by
  induction rounds with
  | zero =>
      intro done nodes tokens rest h
      rw [itemsOnto] at h
      split at h
      · rename_i hstop
        cases h
        exact ⟨[], [], rfl, .nil, by simp, hstop⟩
      · cases h
  | succ rounds ih =>
      intro done nodes tokens rest h
      rw [itemsOnto] at h
      split at h
      · rename_i hstop
        cases h
        exact ⟨[], [], rfl, .nil, by simp, hstop⟩
      · split at h
        · rename_i node rest' hnode
          obtain ⟨ts, rfl, hts⟩ := hitem hnode
          obtain ⟨us, more, rfl, hus, rfl, hstop⟩ := ih h
          exact ⟨ts ++ us, node :: more, by simp, .cons hts hus, by simp, hstop⟩
        · cases h

theorem items_sound {stop : Kind → Bool} {item : Reader Node} (hitem : Takes item Statement)
    {rounds : Nat} {nodes : List Node} {tokens rest : List Token}
    (h : items rounds stop item tokens = .ok nodes rest) :
    ∃ ts, tokens = ts ++ rest ∧ Statements ts nodes ∧ stop (kindAt rest) = true := by
  obtain ⟨ts, more, rfl, hts, rfl, hstop⟩ := itemsOnto_sound hitem rounds h
  exact ⟨ts, rfl, by simpa using hts, hstop⟩

theorem operatorAt_eq_some {operator? : Mark → Option BinaryOperator} {tokens rest : List Token}
    {op : BinaryOperator} {line : Int} (h : operatorAt operator? tokens = some (op, line, rest)) :
    ∃ m sign, tokens = sign :: rest ∧ IsMark m sign ∧ operator? m = some op ∧
      sign.line = line := by
  unfold operatorAt at h
  split at h
  · rename_i m note line' rest'
    obtain ⟨op', hop, heq⟩ := Option.map_eq_some_iff.1 h
    cases heq
    exact ⟨m, _, rfl, isMark_mk m note line, hop, rfl⟩
  · cases h

/-- Operators and operands read after the tokens `before` of `left` extend it to the
left. -/
theorem chainOnto_sound {t : Tier} {operand : Reader Node} (hoperand : Takes operand (Operand t))
    (rounds : Nat) : ∀ {before : List Token} {left e : Node} {tokens rest : List Token},
      Tiered t before left → chainOnto t.operator? operand left rounds tokens = .ok e rest →
      ∃ ts, tokens = ts ++ rest ∧ Tiered t (before ++ ts) e := by
  induction rounds with
  | zero =>
      intro before left e tokens rest hleft h
      rw [chainOnto] at h
      split at h
      · cases h
        exact ⟨[], rfl, by simpa using hleft⟩
      · cases h
  | succ rounds ih =>
      intro before left e tokens rest hleft h
      rw [chainOnto] at h
      split at h
      · cases h
        exact ⟨[], rfl, by simpa using hleft⟩
      · rename_i op line rest' hop
        dsimp only at h
        split at h
        · rename_i right rest'' hright
          obtain ⟨m, sign, rfl, hsign, hm, rfl⟩ := operatorAt_eq_some hop
          obtain ⟨ts, rfl, hts⟩ := hoperand hright
          obtain ⟨us, rfl, hus⟩ := ih (.joined hleft hsign hm hts) h
          exact ⟨sign :: ts ++ us, by simp, by simpa using hus⟩
        · cases h

theorem takes_chain {t : Tier} {operand : Reader Node} (hoperand : Takes operand (Operand t))
    (rounds : Nat) : Takes (chain rounds t.operator? operand) (Tiered t) := by
  intro tokens e rest h
  rw [chain] at h
  obtain ⟨left, _, hleft, hlinks⟩ := bind_eq_ok.1 h
  obtain ⟨before, rfl, hbefore⟩ := hoperand hleft
  obtain ⟨ts, rfl, hts⟩ := chainOnto_sound hoperand rounds (.operand hbefore) hlinks
  exact ⟨before ++ ts, by simp, hts⟩

/-! ## All readers at once -/

/-- With this much room every reader returns only what the grammar has. -/
structure SoundAt (rounds room : Nat) : Prop where
  statement : Takes (statement rounds room) Statement
  conditional : Takes (conditional rounds room) Statement
  loop : Takes (loop rounds room) Statement
  block : Takes (block rounds room) Block
  expression : Takes (expression rounds room) Expression
  assignment : Takes (assignment rounds room) Assignment
  tier (t : Tier) : Takes (tier rounds room t) (Tiered t)
  operand (t : Tier) : Takes (operand rounds room t) (Operand t)
  unary : Takes (unary rounds room) Unary
  primary : Takes (primary rounds room) Primary

theorem soundAt_zero (rounds : Nat) : SoundAt rounds 0 where
  statement := by rw [statement]; exact takes_refuse _ _
  conditional := by rw [conditional]; exact takes_refuse _ _
  loop := by rw [loop]; exact takes_refuse _ _
  block := by rw [block]; exact takes_refuse _ _
  expression := by rw [expression]; exact takes_refuse _ _
  assignment := by rw [assignment]; exact takes_refuse _ _
  tier t := by rw [tier]; exact takes_refuse _ _
  operand t := by rw [operand]; exact takes_refuse _ _
  unary := by rw [unary]; exact takes_refuse _ _
  primary := by rw [primary]; exact takes_refuse _ _

section Step

variable {rounds room : Nat} (ih : SoundAt rounds room)

include ih

theorem takes_conditional : Takes (conditional rounds (room + 1)) Statement := by
  intro tokens s rest h
  simp only [conditional, bind_eq_ok, takeMark_eq_ok, pure_eq_ok] at h
  obtain ⟨_, _, ⟨word, rfl, hword, rfl⟩, c, _, hc, thenBranch, _, hblock,
    branch, _, hbranch, rfl, rfl⟩ := h
  obtain ⟨_, rfl, opening, condition, closing, rfl, hopening, hcondition, hclosing⟩ :=
    takes_parenthesised ih.expression hc
  obtain ⟨thenTokens, rfl, hthen⟩ := ih.block hblock
  obtain ⟨ts, rfl, helse⟩ := takes_elseBranch ih.block hbranch
  rcases helse with ⟨rfl, rfl⟩ | ⟨otherwise, elseTokens, elseBranch, rfl, hotherwise, helse, rfl⟩
  · exact ⟨_, by simp, .ifStmt hword hopening hcondition hclosing hthen⟩
  · exact ⟨_, by simp, .ifElse hword hopening hcondition hclosing hthen hotherwise helse⟩

theorem takes_loop : Takes (loop rounds (room + 1)) Statement := by
  intro tokens s rest h
  simp only [loop, bind_eq_ok, takeMark_eq_ok, pure_eq_ok] at h
  obtain ⟨_, _, ⟨word, rfl, hword, rfl⟩, c, _, hc, body, _, hblock, rfl, rfl⟩ := h
  obtain ⟨_, rfl, opening, condition, closing, rfl, hopening, hcondition, hclosing⟩ :=
    takes_parenthesised ih.expression hc
  obtain ⟨bodyTokens, rfl, hbody⟩ := ih.block hblock
  exact ⟨_, by simp, .whileStmt hword hopening hcondition hclosing hbody⟩

theorem takes_block : Takes (block rounds (room + 1)) Block := by
  intro tokens body rest h
  simp only [block, bind_eq_ok, takeMark_eq_ok, pure_eq_ok] at h
  obtain ⟨_, _, ⟨opening, rfl, hopening, -⟩, statements, _, hitems,
    _, _, ⟨closing, rfl, hclosing, -⟩, rfl, rfl⟩ := h
  obtain ⟨ts, rfl, hts, -⟩ := items_sound ih.statement hitems
  exact ⟨_, by simp, .braces hopening hts hclosing⟩

theorem takes_statement : Takes (statement rounds (room + 1)) Statement := by
  intro tokens s rest h
  rw [statement_eq] at h
  split at h
  · exact takes_letStatement ih.expression h
  · exact takes_printStatement ih.expression h
  · exact ih.conditional h
  · exact ih.loop h
  · simp only [bind_eq_ok, pure_eq_ok] at h
    obtain ⟨line, _, hline, body, _, hbody, rfl, rfl⟩ := h
    obtain ⟨_, rfl, hts⟩ := ih.block hbody
    obtain ⟨t, ts, rfl, -⟩ := hts.opens
    cases tokens with
    | nil => cases hline
    | cons t' rest' =>
        cases hline
        exact ⟨_, rfl, .block hts⟩
  · exact takes_expressionStatement ih.expression h

theorem takes_assignment : Takes (assignment rounds (room + 1)) Assignment := by
  intro tokens e rest h
  rcases assignment_cases tokens with ⟨name, line, sign, after, rfl, hsign, heq⟩ | ⟨-, heq⟩
  · simp only [heq, bind_eq_ok, pure_eq_ok] at h
    obtain ⟨value, _, hvalue, rfl, rfl⟩ := h
    obtain ⟨ts, rfl, hts⟩ := ih.assignment hvalue
    exact ⟨_, by simp, .assign hsign hts⟩
  · rw [heq] at h
    obtain ⟨ts, rfl, hts⟩ := ih.tier .equality h
    exact ⟨ts, rfl, .tiered hts⟩

theorem takes_operand (t : Tier) : Takes (operand rounds (room + 1) t) (Operand t) := by
  intro tokens e rest h
  rw [operand] at h
  cases htighter : t.tighter with
  | some tighter =>
      rw [htighter] at h
      obtain ⟨ts, rfl, hts⟩ := ih.tier tighter h
      exact ⟨ts, rfl, .tighter htighter hts⟩
  | none =>
      rw [htighter] at h
      obtain ⟨ts, rfl, hts⟩ := ih.unary h
      exact ⟨ts, rfl, .unary htighter hts⟩

theorem takes_unary : Takes (unary rounds (room + 1)) Unary := by
  intro tokens e rest h
  rcases unary_cases tokens with ⟨sign, after, rfl, hsign, heq⟩ | ⟨-, heq⟩
  · simp only [heq, bind_eq_ok, pure_eq_ok] at h
    obtain ⟨operand, _, hoperand, rfl, rfl⟩ := h
    obtain ⟨ts, rfl, hts⟩ := ih.unary hoperand
    exact ⟨_, by simp, .negate hsign hts⟩
  · rw [heq] at h
    obtain ⟨ts, rfl, hts⟩ := ih.primary h
    exact ⟨ts, rfl, .primary hts⟩

theorem takes_primary : Takes (primary rounds (room + 1)) Primary := by
  intro tokens e rest h
  rcases primary_cases tokens with ⟨value, line, after, rfl, heq⟩ | ⟨name, line, after, rfl, heq⟩ |
    ⟨-, heq⟩ | ⟨-, heq⟩
  · rw [heq] at h
    cases h
    exact ⟨[_], rfl, .number value line⟩
  · rw [heq] at h
    cases h
    exact ⟨[_], rfl, .name name line⟩
  · rw [heq] at h
    obtain ⟨ts, rfl, opening, inner, closing, rfl, hopening, hinner, hclosing⟩ :=
      takes_parenthesised ih.expression h
    exact ⟨_, rfl, .parenthesised hopening hinner hclosing⟩
  · rw [heq] at h
    cases h

theorem soundAt_succ : SoundAt rounds (room + 1) where
  statement := takes_statement ih
  conditional := takes_conditional ih
  loop := takes_loop ih
  block := takes_block ih
  expression := by rw [expression]; exact ih.assignment
  assignment := takes_assignment ih
  tier t := by rw [tier]; exact takes_chain (ih.operand t) rounds
  operand := takes_operand ih
  unary := takes_unary ih
  primary := takes_primary ih

end Step

/-- However much room there is, every reader returns only what the grammar has. -/
theorem soundAt (rounds room : Nat) : SoundAt rounds room := by
  induction room with
  | zero => exact soundAt_zero rounds
  | succ room ih => exact soundAt_succ ih

/-- A program that is read to the end is spelled by all of its tokens. -/
theorem program_sound {rounds limit : Nat} {tokens rest : List Token} {p : Program}
    (hopen : ∀ t ∈ tokens, t.isEnd = false) (h : program rounds limit tokens = .ok p rest) :
    Derives tokens p := by
  simp only [program, bind_eq_ok, pure_eq_ok] at h
  obtain ⟨statements, rest', hitems, rfl, -⟩ := h
  obtain ⟨ts, rfl, hts, hstop⟩ := items_sound (soundAt rounds limit).statement hitems
  cases rest' with
  | nil => simpa [Derives] using hts
  | cons t _ =>
      have ht : t.isEnd = false := hopen t (by simp)
      rw [show t.isEnd = true from hstop] at ht
      cases ht

end Reader

end RillLang
