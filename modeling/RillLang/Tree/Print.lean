import RillLang.Token.Spelling
import RillLang.Tree.Parse

/-!
# Printing trees

A tree is printed as lexemes with no more parentheses than reading it back needs.
Each expression has a rank, tighter ones a higher one, and stands between
parentheses exactly where its rank is below what its place asks for: a left operand
needs the rank of its operator, a right operand one more, and the operand of a minus
sign the rank of a unary expression.
-/

namespace RillLang

namespace BinaryOperator

/-- The mark an operator is written with. -/
def mark : BinaryOperator → Mark
  | add => .plus | subtract => .minus | multiply => .star | divide => .slash
  | equal => .equalEqual | notEqual => .bangEqual
  | less => .less | lessEqual => .lessEqual
  | greater => .greater | greaterEqual => .greaterEqual

/-- The rank of a binary expression. -/
def rank : BinaryOperator → Nat
  | equal | notEqual => 1
  | less | lessEqual | greater | greaterEqual => 2
  | add | subtract => 3
  | multiply | divide => 4

end BinaryOperator

namespace Node

/-- The rank of an expression. -/
def rank : Node → Nat
  | assign .. => 0
  | binary _ (some (.binary op)) _ _ => op.rank
  | unary .. => 5
  | _ => 6

/-- A mark without a note. -/
def markLexeme (m : Mark) : Lexeme := .mark m none

/-- The lexemes of an expression in a place that asks for a rank. -/
def inPlace (needed : Nat) (e : Node) (lexemes : List Lexeme) : List Lexeme :=
  if e.rank < needed then
    markLexeme .leftParen :: lexemes ++ [markLexeme .rightParen]
  else lexemes

/-- The lexemes of an expression.  A node that is no expression has none. -/
def exprLexemes : Node → List Lexeme
  | literal _ v => [.number v]
  | reference _ x => [.identifier (some x)]
  | assign _ x e => .identifier (some x) :: markLexeme .equal :: exprLexemes e
  | unary _ _ e => markLexeme .minus :: inPlace 5 e (exprLexemes e)
  | binary _ (some (.binary op)) l r =>
    inPlace op.rank l (exprLexemes l) ++
      markLexeme op.mark :: inPlace (op.rank + 1) r (exprLexemes r)
  | _ => []

mutual

/-- The lexemes of a statement.  A node that is no statement has none. -/
def stmtLexemes : Node → List Lexeme
  | letStmt _ x e =>
    markLexeme .letWord :: .identifier (some x) :: markLexeme .equal :: exprLexemes e ++
      [markLexeme .semicolon]
  | printStmt _ e =>
    markLexeme .printWord :: markLexeme .leftParen :: exprLexemes e ++
      [markLexeme .rightParen, markLexeme .semicolon]
  | exprStmt _ e => exprLexemes e ++ [markLexeme .semicolon]
  | ifStmt _ c t f =>
    markLexeme .ifWord :: markLexeme .leftParen :: exprLexemes c ++
      markLexeme .rightParen :: markLexeme .leftBrace :: listLexemes t ++
      markLexeme .rightBrace :: elseLexemes f
  | whileStmt _ c b =>
    markLexeme .whileWord :: markLexeme .leftParen :: exprLexemes c ++
      markLexeme .rightParen :: markLexeme .leftBrace :: listLexemes b ++
      [markLexeme .rightBrace]
  | block _ ss =>
    markLexeme .leftBrace :: listLexemes ss ++ [markLexeme .rightBrace]
  | _ => []

/-- The lexemes of statements. -/
def listLexemes : List Node → List Lexeme
  | [] => []
  | s :: ss => stmtLexemes s ++ listLexemes ss

/-- The lexemes of the second block of a conditional. -/
def elseLexemes : Option (List Node) → List Lexeme
  | none => []
  | some ss =>
    markLexeme .elseWord :: markLexeme .leftBrace :: listLexemes ss ++ [markLexeme .rightBrace]

end

end Node

/-- The text of a program, with a space between any two tokens. -/
def Program.print (p : Program) : String :=
  String.ofList (spaced (Node.listLexemes p.statements))

end RillLang
