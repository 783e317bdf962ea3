import RillLang.Tree.Parse

/-!
# The grammar as a relation

`Grammar.Statements tokens trees` says that the tokens spell the statements, in the
grammar given in `RillLang.Tree.Parse`.  The rules say nothing about how a text is
read: a tier of binary operators is given by a left-recursive rule, an operand may
stand alone in every tier, and a rule has its parts side by side.  Notes on tokens
do not matter, and a rule fixes the line of the node it makes.
-/

namespace RillLang.Grammar

/-- The tokens of a mark, on any line and with any note. -/
def IsMark (m : Mark) (t : Token) : Prop := t.kind = .mark m

mutual

/-- The tokens spell a number, a name, or an expression between parentheses. -/
inductive Primary : List Token → Node → Prop
  | number (value line : Int) : Primary [⟨.number value, line⟩] (.literal line value)
  | name (name : Option String) (line : Int) :
      Primary [⟨.identifier name, line⟩] (.reference line (identifierName name))
  | parenthesised {opening closing : Token} {ts : List Token} {e : Node} :
      IsMark .leftParen opening → Assignment ts e → IsMark .rightParen closing →
      Primary (opening :: ts ++ [closing]) e

/-- The tokens spell negations of a primary expression. -/
inductive Unary : List Token → Node → Prop
  | primary {ts : List Token} {e : Node} : Primary ts e → Unary ts e
  | negate {sign : Token} {ts : List Token} {e : Node} :
      IsMark .minus sign → Unary ts e → Unary (sign :: ts) (.unary sign.line (some .negate) e)

/-- The tokens spell operands joined by the operators of a tier, to the left. -/
inductive Tiered : Tier → List Token → Node → Prop
  | operand {t : Tier} {ts : List Token} {e : Node} : Operand t ts e → Tiered t ts e
  | joined {t : Tier} {left right : List Token} {l r : Node} {m : Mark} {op : BinaryOperator}
      {sign : Token} :
      Tiered t left l → IsMark m sign → t.operator? m = some op → Operand t right r →
      Tiered t (left ++ sign :: right) (.binary sign.line (some (.binary op)) l r)

/-- The tokens spell an operand of a tier. -/
inductive Operand : Tier → List Token → Node → Prop
  | tighter {t t' : Tier} {ts : List Token} {e : Node} :
      t.tighter = some t' → Tiered t' ts e → Operand t ts e
  | unary {t : Tier} {ts : List Token} {e : Node} :
      t.tighter = none → Unary ts e → Operand t ts e

/-- The tokens spell an expression: an assignment, or an expression of the loosest
tier. -/
inductive Assignment : List Token → Node → Prop
  | assign {name : Option String} {line : Int} {sign : Token} {ts : List Token} {e : Node} :
      IsMark .equal sign → Assignment ts e →
      Assignment (⟨.identifier name, line⟩ :: sign :: ts) (.assign line (identifierName name) e)
  | tiered {ts : List Token} {e : Node} : Tiered .equality ts e → Assignment ts e

end

/-- The tokens spell an expression. -/
abbrev Expression : List Token → Node → Prop := Assignment

mutual

/-- The tokens spell a statement. -/
inductive Statement : List Token → Node → Prop
  | letStmt {word sign semicolon : Token} {name : Option String} {line : Int} {ts : List Token}
      {e : Node} :
      IsMark .letWord word → IsMark .equal sign → Expression ts e →
      IsMark .semicolon semicolon →
      Statement (word :: ⟨.identifier name, line⟩ :: sign :: ts ++ [semicolon])
        (.letStmt word.line (identifierName name) e)
  | printStmt {word opening closing semicolon : Token} {ts : List Token} {e : Node} :
      IsMark .printWord word → IsMark .leftParen opening → Expression ts e →
      IsMark .rightParen closing → IsMark .semicolon semicolon →
      Statement (word :: opening :: ts ++ [closing, semicolon]) (.printStmt word.line e)
  | exprStmt {semicolon : Token} {t : Token} {ts : List Token} {e : Node} :
      Expression (t :: ts) e → IsMark .semicolon semicolon →
      Statement (t :: ts ++ [semicolon]) (.exprStmt t.line e)
  | block {t : Token} {ts : List Token} {body : List Node} :
      Block (t :: ts) body → Statement (t :: ts) (.block t.line body)
  | ifStmt {word opening closing : Token} {condition thenTokens : List Token} {c : Node}
      {thenBranch : List Node} :
      IsMark .ifWord word → IsMark .leftParen opening → Expression condition c →
      IsMark .rightParen closing → Block thenTokens thenBranch →
      Statement (word :: opening :: condition ++ closing :: thenTokens)
        (.ifStmt word.line c thenBranch none)
  | ifElse {word opening closing otherwise : Token}
      {condition thenTokens elseTokens : List Token} {c : Node}
      {thenBranch elseBranch : List Node} :
      IsMark .ifWord word → IsMark .leftParen opening → Expression condition c →
      IsMark .rightParen closing → Block thenTokens thenBranch → IsMark .elseWord otherwise →
      Block elseTokens elseBranch →
      Statement (word :: opening :: condition ++ closing :: thenTokens ++ otherwise :: elseTokens)
        (.ifStmt word.line c thenBranch (some elseBranch))
  | whileStmt {word opening closing : Token} {condition bodyTokens : List Token} {c : Node}
      {body : List Node} :
      IsMark .whileWord word → IsMark .leftParen opening → Expression condition c →
      IsMark .rightParen closing → Block bodyTokens body →
      Statement (word :: opening :: condition ++ closing :: bodyTokens)
        (.whileStmt word.line c body)

/-- The tokens spell statements between braces. -/
inductive Block : List Token → List Node → Prop
  | braces {opening closing : Token} {ts : List Token} {body : List Node} :
      IsMark .leftBrace opening → Statements ts body → IsMark .rightBrace closing →
      Block (opening :: ts ++ [closing]) body

/-- The tokens spell statements, one after the other. -/
inductive Statements : List Token → List Node → Prop
  | nil : Statements [] []
  | cons {ts rest : List Token} {s : Node} {ss : List Node} :
      Statement ts s → Statements rest ss → Statements (ts ++ rest) (s :: ss)

end

/-- The tokens spell a program. -/
def Derives (tokens : List Token) (p : Program) : Prop := Statements tokens p.statements

end RillLang.Grammar
