import RillLang.Tree.Parse

/-!
# Parsing with a cursor

The parser over the whole token list, with a cursor that points at the next token.  Nothing
keeps the cursor in the list but the way the parser moves it: to look at a place where there
is no token is a failure of its own, `outOfRange`.  A cursor remembers every place it has
stood at, so that it can be said where a parse went.

The functions of the parser follow the grammar of the readers, with the same room and the
same rounds.  An end-of-input token is looked at but never passed, and a parse stops at the
first one, which need not be the last token of the list.
-/

namespace RillLang

/-- A place in a token list. -/
structure Cursor where
  /-- The whole list. -/
  tokens : List Token
  /-- The index of the next token. -/
  position : Nat
  /-- Every index the cursor has stood at, the latest first. -/
  visited : List Nat
  deriving DecidableEq, Repr

namespace Cursor

/-- A cursor at the first token. -/
def start (tokens : List Token) : Cursor := ⟨tokens, 0, [0]⟩

/-- The cursor moved on by one token. -/
def next (c : Cursor) : Cursor := ⟨c.tokens, c.position + 1, (c.position + 1) :: c.visited⟩

/-- The cursor has come from the first token, place by place, and is not beyond the first
end-of-input token. -/
structure Inside (c : Cursor) : Prop where
  /-- The cursor is not beyond the first end-of-input token. -/
  position_le : c.position ≤ (Token.beforeEnd c.tokens).length
  /-- It has stood at every place up to where it is, and nowhere else. -/
  visited_eq : c.visited = (List.range (c.position + 1)).reverse

end Cursor

/-- Why a parse with a cursor stops early. -/
inductive Halt where
  /-- A token does not fit, or the nesting limit or the rounds are used up. -/
  | reject (reject : Reject)
  /-- There is no token where the parser looked. -/
  | outOfRange
  deriving DecidableEq, Repr

/-- A part of a parse. -/
abbrev Walk (α : Type) : Type := EStateM Halt Cursor α

namespace Walk

/-! ## Moving the cursor -/

/-- Stops with a reason. -/
def halt {α : Type} (reject : Reject) : Walk α := throw (.reject reject)

/-- The token at an index. -/
def look (index : Nat) : Walk Token := fun c =>
  match c.tokens[index]? with
  | some t => .ok t c
  | none => .error .outOfRange c

/-- The next token, which is not passed. -/
def peek : Walk Token := fun c => look c.position c

/-- The token after the next one.  After the last token it is the last token again. -/
def peekNext : Walk Token := fun c => look (min (c.position + 1) (c.tokens.length - 1)) c

/-- Passes the next token, unless it is an end of input, and returns it. -/
def advance : Walk Token := do
  let t ← peek
  if t.isEnd then
    return t
  else
    modify Cursor.next
    return t

/-- The next token has the kind. -/
def check (k : Kind) : Walk Bool := do
  let t ← peek
  return t.kind == k

/-- Passes a token of the kind. -/
def expect (k : Kind) : Walk Token := do
  let t ← peek
  if t.kind = k then advance else halt (.unexpected (.kind k))

/-- Passes a mark and returns its line. -/
def expectMark (m : Mark) : Walk Int := do
  let t ← expect (.mark m)
  return t.line

/-- Passes an identifier and returns its name. -/
def expectName : Walk String := do
  let t ← expect .identifier
  return identifierName t.lexeme.value?

/-! ## Repetition -/

/-- Statements up to a token of the kind `stop`, at most `rounds` of them, after the
statements `done`, which are held last statement first.  Before each statement the place is
checked with `guarded`. -/
def statementsOnto (stop : Kind) (guarded : Walk Unit) (statement : Walk Node) (done : List Node)
    (rounds : Nat) : Walk (List Node) := do
  if ← check stop then
    return done.reverse
  else
    guarded
    match rounds with
    | 0 => halt .stalled
    | rounds + 1 =>
      let s ← statement
      statementsOnto stop guarded statement (s :: done) rounds

/-- The operator a token stands for. -/
def operatorOf (operator? : Mark → Option BinaryOperator) (t : Token) : Option BinaryOperator :=
  match t.kind with
  | .mark m => operator? m
  | _ => none

/-- Operators, each followed by an operand, folded to the left onto `left`; at most `rounds`
of them. -/
def chainOnto (operator? : Mark → Option BinaryOperator) (operand : Walk Node) (left : Node)
    (rounds : Nat) : Walk Node := do
  let t ← peek
  match operatorOf operator? t with
  | none => return left
  | some op =>
    match rounds with
    | 0 => halt .stalled
    | rounds + 1 =>
      let sign ← advance
      let right ← operand
      chainOnto operator? operand (.binary sign.line (some (.binary op)) left right) rounds

/-- Operands joined by operators, folded to the left. -/
def chain (rounds : Nat) (operator? : Mark → Option BinaryOperator) (operand : Walk Node) :
    Walk Node := do
  let left ← operand
  chainOnto operator? operand left rounds

/-! ## Constructs given their parts -/

/-- An expression between parentheses. -/
def parenthesised (expression : Walk Node) : Walk Node := do
  let _ ← expectMark .leftParen
  let e ← expression
  let _ ← expectMark .rightParen
  return e

/-- A declaration. -/
def letStatement (expression : Walk Node) : Walk Node := do
  let line ← expectMark .letWord
  let name ← expectName
  let _ ← expectMark .equal
  let e ← expression
  let _ ← expectMark .semicolon
  return .letStmt line name e

/-- A print statement. -/
def printStatement (expression : Walk Node) : Walk Node := do
  let line ← expectMark .printWord
  let e ← parenthesised expression
  let _ ← expectMark .semicolon
  return .printStmt line e

/-- An expression used as a statement. -/
def expressionStatement (expression : Walk Node) : Walk Node := do
  let t ← peek
  let e ← expression
  let _ ← expectMark .semicolon
  return .exprStmt t.line e

/-- The `else` block, if the next token asks for one. -/
def elseBranch (block : Walk (List Node)) : Walk (Option (List Node)) := do
  if ← check (.mark .elseWord) then
    let _ ← advance
    let body ← block
    return some body
  else
    return none

/-- A block that is not closed stops at the end of the input. -/
def refuseEnd : Walk Unit := do
  if ← check .endOfInput then
    halt (.unexpected (.kind (.mark .rightBrace)))

/-- A name with an equals sign after it comes next. -/
def seesAssignment : Walk Bool := do
  if ← check .identifier then
    let t ← peekNext
    return t.kind == .mark .equal
  else
    return false

/-! ## The recursive constructs -/

mutual

/-- A statement. -/
def statement (rounds : Nat) : Nat → Walk Node
  | 0 => halt .tooDeep
  | room + 1 => do
    let t ← peek
    match t.kind with
    | .mark .letWord => letStatement (expression rounds room)
    | .mark .printWord => printStatement (expression rounds room)
    | .mark .ifWord => conditional rounds room
    | .mark .whileWord => loop rounds room
    | .mark .leftBrace =>
      let body ← block rounds room
      return .block t.line body
    | _ => expressionStatement (expression rounds room)

/-- A conditional. -/
def conditional (rounds : Nat) : Nat → Walk Node
  | 0 => halt .tooDeep
  | room + 1 => do
    let line ← expectMark .ifWord
    let condition ← parenthesised (expression rounds room)
    let thenBranch ← block rounds room
    let elseBranch ← elseBranch (block rounds room)
    return .ifStmt line condition thenBranch elseBranch

/-- A loop. -/
def loop (rounds : Nat) : Nat → Walk Node
  | 0 => halt .tooDeep
  | room + 1 => do
    let line ← expectMark .whileWord
    let condition ← parenthesised (expression rounds room)
    let body ← block rounds room
    return .whileStmt line condition body

/-- The statements of a block. -/
def block (rounds : Nat) : Nat → Walk (List Node)
  | 0 => halt .tooDeep
  | room + 1 => do
    let _ ← expectMark .leftBrace
    let body ← statementsOnto (.mark .rightBrace) refuseEnd (statement rounds room) [] rounds
    let _ ← expectMark .rightBrace
    return body

/-- An expression. -/
def expression (rounds : Nat) : Nat → Walk Node
  | 0 => halt .tooDeep
  | room + 1 => assignment rounds room

/-- An assignment, told by a name with an equals sign after it, or else an expression of
the loosest tier. -/
def assignment (rounds : Nat) : Nat → Walk Node
  | 0 => halt .tooDeep
  | room + 1 => do
    if ← seesAssignment then
      let name ← advance
      let _ ← advance
      let value ← assignment rounds room
      return .assign name.line (identifierName name.lexeme.value?) value
    else
      tier rounds room .equality

/-- Operands joined by the operators of a tier. -/
def tier (rounds : Nat) : Nat → Tier → Walk Node
  | 0, _ => halt .tooDeep
  | room + 1, t => chain rounds t.operator? (operand rounds room t)

/-- An operand of a tier. -/
def operand (rounds : Nat) : Nat → Tier → Walk Node
  | 0, _ => halt .tooDeep
  | room + 1, t =>
    match t.tighter with
    | some tighter => tier rounds room tighter
    | none => unary rounds room

/-- A negation, or else a primary expression. -/
def unary (rounds : Nat) : Nat → Walk Node
  | 0 => halt .tooDeep
  | room + 1 => do
    if ← check (.mark .minus) then
      let sign ← advance
      let e ← unary rounds room
      return .unary sign.line (some .negate) e
    else
      primary rounds room

/-- A number, a name, or an expression between parentheses. -/
def primary (rounds : Nat) : Nat → Walk Node
  | 0 => halt .tooDeep
  | room + 1 => do
    let t ← peek
    match t.lexeme with
    | .number value =>
      let _ ← advance
      return .literal t.line value
    | .identifier name =>
      let _ ← advance
      return .reference t.line (identifierName name)
    | .mark .leftParen _ =>
      let _ ← advance
      let e ← expression rounds room
      let _ ← expectMark .rightParen
      return e
    | _ => halt (.unexpected (.phrase "expression"))

end

/-- A whole program: statements up to the end. -/
def program (rounds limit : Nat) : Walk Program := do
  let statements ← statementsOnto .endOfInput (pure ()) (statement rounds limit) [] rounds
  return ⟨statements⟩

/-- What an ending means: a refusal is reported at the token the cursor points at.  There is
no meaning where the parser looked outside the list. -/
def outcome : EStateM.Result Halt Cursor Program → Option (Except ParseError Program)
  | .ok program _ => some (.ok program)
  | .error (.reject reject) c => c.tokens[c.position]?.map fun found =>
      .error (reject.toParseError found)
  | .error .outOfRange _ => none

/-- Parses a token list, which has to end with an end-of-input token. -/
def parse (rounds limit : Nat) (tokens : List Token) : Option (Except ParseError Program) :=
  match tokens.getLast? with
  | none => some (.error .unclosed)
  | some last =>
    if last.isEnd then outcome (program rounds limit (.start tokens))
    else some (.error .unclosed)

end Walk

end RillLang
