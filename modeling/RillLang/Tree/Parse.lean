import RillLang.Tree.Reader

/-!
# Parsing: from tokens to a program tree

The grammar, loosest construct first:

    program     = statement* end
    statement   = "let" name "=" expression ";"
                | "print" "(" expression ")" ";"
                | "if" "(" expression ")" block ("else" block)?
                | "while" "(" expression ")" block
                | block
                | expression ";"
    block       = "{" statement* "}"
    expression  = assignment
    assignment  = name "=" assignment | equality
    equality    = comparison (("==" | "!=") comparison)*
    comparison  = term (("<" | "<=" | ">" | ">=") term)*
    term        = factor (("+" | "-") factor)*
    factor      = unary (("*" | "/") unary)*
    unary       = "-" unary | primary
    primary     = number | name | "(" expression ")"

The four tiers from `equality` to `factor` are one reader, `tier`.  Each reader
below takes one unit of `room` from its caller, and refuses as too deep when there
is none left; the units one level of nesting takes are twelve for a parenthesis,
three for a conditional or a loop, two for a block, and one for a minus sign or an
assignment.  Repetition takes none; it is given `rounds`, the number of tokens of
the whole program.

A statement has the line of its first token, a binary node the line of its
operator, an assignment the line of its name and a unary node the line of its
sign; parentheses leave no trace.
-/

namespace RillLang

/-! ## Tiers of binary operators -/

/-- The precedence tiers of the binary operators, loosest first. -/
inductive Tier where
  | equality | comparison | term | factor
  deriving DecidableEq, Repr, Inhabited

namespace Tier

/-- The operator a mark stands for in a tier. -/
def operator? : Tier → Mark → Option BinaryOperator
  | equality, .equalEqual => some .equal
  | equality, .bangEqual => some .notEqual
  | comparison, .less => some .less
  | comparison, .lessEqual => some .lessEqual
  | comparison, .greater => some .greater
  | comparison, .greaterEqual => some .greaterEqual
  | term, .plus => some .add
  | term, .minus => some .subtract
  | factor, .star => some .multiply
  | factor, .slash => some .divide
  | _, _ => none

/-- The next tighter tier; the operands of the tightest are unary expressions. -/
def tighter : Tier → Option Tier
  | equality => some comparison
  | comparison => some term
  | term => some factor
  | factor => none

end Tier

namespace Reader

/-! ## Constructs given readers for their parts -/

/-- An expression between parentheses. -/
def parenthesised (expression : Reader Node) : Reader Node := do
  let _ ← takeMark .leftParen
  let e ← expression
  let _ ← takeMark .rightParen
  return e

/-- A declaration. -/
def letStatement (expression : Reader Node) : Reader Node := do
  let line ← takeMark .letWord
  let name ← takeName
  let _ ← takeMark .equal
  let e ← expression
  let _ ← takeMark .semicolon
  return .letStmt line name e

/-- A print statement. -/
def printStatement (expression : Reader Node) : Reader Node := do
  let line ← takeMark .printWord
  let e ← parenthesised expression
  let _ ← takeMark .semicolon
  return .printStmt line e

/-- An expression used as a statement. -/
def expressionStatement (expression : Reader Node) : Reader Node := do
  let line ← nextLine
  let e ← expression
  let _ ← takeMark .semicolon
  return .exprStmt line e

/-- The `else` block, if the next token asks for one. -/
def elseBranch (block : Reader (List Node)) : Reader (Option (List Node)) := do
  match ← nextKind with
  | .mark .elseWord =>
    let _ ← takeMark .elseWord
    let body ← block
    return some body
  | _ => return none

/-- The statements of a block stop at its brace, or where there are no more tokens. -/
def closesBlock (k : Kind) : Bool := k == .mark .rightBrace || k == .endOfInput

/-- The statements of a program stop where there are no more tokens. -/
def closesProgram (k : Kind) : Bool := k == .endOfInput

/-! ## The recursive constructs -/

mutual

/-- A statement. -/
def statement (rounds : Nat) : Nat → Reader Node
  | 0 => refuse .tooDeep
  | room + 1 => do
    match ← nextKind with
    | .mark .letWord => letStatement (expression rounds room)
    | .mark .printWord => printStatement (expression rounds room)
    | .mark .ifWord => conditional rounds room
    | .mark .whileWord => loop rounds room
    | .mark .leftBrace =>
      let line ← nextLine
      let body ← block rounds room
      return .block line body
    | _ => expressionStatement (expression rounds room)

/-- A conditional.  What follows `else` is a block, never another conditional. -/
def conditional (rounds : Nat) : Nat → Reader Node
  | 0 => refuse .tooDeep
  | room + 1 => do
    let line ← takeMark .ifWord
    let condition ← parenthesised (expression rounds room)
    let thenBranch ← block rounds room
    let elseBranch ← elseBranch (block rounds room)
    return .ifStmt line condition thenBranch elseBranch

/-- A loop. -/
def loop (rounds : Nat) : Nat → Reader Node
  | 0 => refuse .tooDeep
  | room + 1 => do
    let line ← takeMark .whileWord
    let condition ← parenthesised (expression rounds room)
    let body ← block rounds room
    return .whileStmt line condition body

/-- The statements of a block. -/
def block (rounds : Nat) : Nat → Reader (List Node)
  | 0 => refuse .tooDeep
  | room + 1 => do
    let _ ← takeMark .leftBrace
    let body ← items rounds closesBlock (statement rounds room)
    let _ ← takeMark .rightBrace
    return body

/-- An expression. -/
def expression (rounds : Nat) : Nat → Reader Node
  | 0 => refuse .tooDeep
  | room + 1 => assignment rounds room

/-- An assignment, told by a name with an equals sign after it, or else an
expression of the loosest tier. -/
def assignment (rounds : Nat) : Nat → Reader Node
  | 0 => refuse .tooDeep
  | room + 1 => fun tokens =>
    match tokens with
    | ⟨.identifier name, line⟩ :: ⟨.mark .equal _, _⟩ :: rest =>
      match assignment rounds room rest with
      | .ok value rest => .ok (.assign line (identifierName name) value) rest
      | .error reject rest => .error reject rest
    | tokens => tier rounds room .equality tokens

/-- Operands joined by the operators of a tier. -/
def tier (rounds : Nat) : Nat → Tier → Reader Node
  | 0, _ => refuse .tooDeep
  | room + 1, t => chain rounds t.operator? (operand rounds room t)

/-- An operand of a tier. -/
def operand (rounds : Nat) : Nat → Tier → Reader Node
  | 0, _ => refuse .tooDeep
  | room + 1, t =>
    match t.tighter with
    | some tighter => tier rounds room tighter
    | none => unary rounds room

/-- A negation, or else a primary expression. -/
def unary (rounds : Nat) : Nat → Reader Node
  | 0 => refuse .tooDeep
  | room + 1 => fun tokens =>
    match tokens with
    | ⟨.mark .minus _, line⟩ :: rest =>
      match unary rounds room rest with
      | .ok e rest => .ok (.unary line (some .negate) e) rest
      | .error reject rest => .error reject rest
    | tokens => primary rounds room tokens

/-- A number, a name, or an expression between parentheses. -/
def primary (rounds : Nat) : Nat → Reader Node
  | 0 => refuse .tooDeep
  | room + 1 => fun tokens =>
    match tokens with
    | ⟨.number value, line⟩ :: rest => .ok (.literal line value) rest
    | ⟨.identifier name, line⟩ :: rest => .ok (.reference line (identifierName name)) rest
    | ⟨.mark .leftParen note, line⟩ :: rest =>
      parenthesised (expression rounds room) (⟨.mark .leftParen note, line⟩ :: rest)
    | tokens => .error (.unexpected (.phrase "expression")) tokens

end

/-- A whole program: statements up to the end. -/
def program (rounds limit : Nat) : Reader Program := do
  let statements ← items rounds closesProgram (statement rounds limit)
  return ⟨statements⟩

end Reader

/-! ## Token lists -/

/-- Why a token list is not a program. -/
inductive ParseError where
  /-- A token that does not fit, on a line. -/
  | unexpected (expected : Expected) (found : Token) (line : Int)
  /-- A token beyond the nesting limit. -/
  | tooDeep (found : Token)
  /-- The list does not end with an end-of-input token. -/
  | unclosed
  /-- A repetition took nothing. -/
  | stalled (found : Token)
  deriving DecidableEq, Repr

namespace Expected

/-- How a message refers to what was expected. -/
def displayName : Expected → String
  | kind k => k.displayName
  | phrase text => text

end Expected

namespace ParseError

/-- The message for a parse error. -/
def message : ParseError → String
  | unexpected expected found line =>
    "Expected " ++ expected.displayName ++ ", found " ++ found.describe ++ " on line " ++
      toString line
  | tooDeep found =>
    "Nesting too deep at " ++ found.describe ++ " on line " ++ toString found.line
  | unclosed => "Token list must end with an EOF token"
  | stalled found => "No progress at " ++ found.describe ++ " on line " ++ toString found.line

/-- What would have been accepted, where that can be said. -/
def expected? : ParseError → Option Expected
  | unexpected expected _ _ => some expected
  | tooDeep _ => some (.phrase "shallower nesting")
  | unclosed => none
  | stalled _ => none

/-- The token that was not accepted. -/
def found? : ParseError → Option Token
  | unexpected _ found _ => some found
  | tooDeep found => some found
  | unclosed => none
  | stalled found => some found

/-- The line of the error. -/
def line? : ParseError → Option Int
  | unexpected _ _ line => some line
  | tooDeep found => some found.line
  | unclosed => none
  | stalled found => some found.line

end ParseError

/-- The parse error for a refusal at a token. -/
def Reject.toParseError (reject : Reject) (found : Token) : ParseError :=
  match reject with
  | .unexpected expected => .unexpected expected found found.line
  | .tooDeep => .tooDeep found
  | .stalled => .stalled found

namespace Token

/-- The token closes its list. -/
def isEnd (t : Token) : Bool := t.kind == .endOfInput

/-- The tokens before the first end-of-input token. -/
def beforeEnd (tokens : List Token) : List Token := tokens.takeWhile fun t => !t.isEnd

end Token

/-- The nesting limit of the language. -/
def nestingLimit : Nat := 5000

/-- The program a token list stands for.  The list has to end with an end-of-input
token; the first such token ends the program, and later tokens do not matter. -/
def Program.ofTokens (limit : Nat) (tokens : List Token) : Except ParseError Program :=
  match tokens.getLast?, tokens.find? Token.isEnd with
  | some last, some closing =>
    if last.isEnd then
      let body := Token.beforeEnd tokens
      match Reader.program body.length limit body with
      | .ok program _ => .ok program
      | .error reject rest => .error (reject.toParseError (rest.headD closing))
    else .error .unclosed
  | _, _ => .error .unclosed

end RillLang
