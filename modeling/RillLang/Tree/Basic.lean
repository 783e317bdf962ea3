/-!
# Program trees

A program is a tree of nodes.  There is one type for all of them, so that a tree
built by hand may put any node in any place; the trees that come from program
text are the well-placed ones.  Every node but the program itself has the line it
was read on.

`Node.eraseLines` forgets the lines, and `Node.alike` compares two trees without
them.
-/

namespace RillLang

/-! ## Operators -/

/-- The operators that take two operands. -/
inductive BinaryOperator where
  | add | subtract | multiply | divide
  | equal | notEqual | less | lessEqual | greater | greaterEqual
  deriving DecidableEq, Repr, Inhabited

namespace BinaryOperator

/-- Every binary operator. -/
def all : List BinaryOperator :=
  [add, subtract, multiply, divide, equal, notEqual, less, lessEqual, greater, greaterEqual]

/-- The name of a binary operator in tree dumps. -/
def name : BinaryOperator → String
  | add => "ADD" | subtract => "SUBTRACT" | multiply => "MULTIPLY" | divide => "DIVIDE"
  | equal => "EQUAL" | notEqual => "NOT_EQUAL"
  | less => "LESS" | lessEqual => "LESS_EQUAL"
  | greater => "GREATER" | greaterEqual => "GREATER_EQUAL"

end BinaryOperator

/-- The operators a node may hold.  Negation is the one operator with a single
operand. -/
inductive Operator where
  | negate
  | binary (op : BinaryOperator)
  deriving DecidableEq, Repr, Inhabited

namespace Operator

/-- Every operator. -/
def all : List Operator := negate :: BinaryOperator.all.map binary

/-- The name of an operator in tree dumps. -/
def name : Operator → String
  | negate => "NEGATE"
  | binary op => op.name

/-- The name of an operator in messages, with the family it belongs to. -/
def qualifiedName : Operator → String
  | negate => "ASTUnaryOperator.NEGATE"
  | binary op => "ASTBinaryOperator." ++ op.name

/-- The operator with a given name in tree dumps. -/
def ofName? (text : String) : Option Operator := all.find? fun op => op.name == text

end Operator

/-! ## Nodes -/

/-- The node families that have no form of their own. -/
inductive Family where
  | node | expression | statement
  deriving DecidableEq, Repr, Inhabited

/-- A node of a program tree. -/
inductive Node where
  /-- A whole program. -/
  | program (statements : List Node)
  /-- A node of a family that has no form of its own. -/
  | bare (family : Family) (line : Int)
  /-- An integer. -/
  | literal (line : Int) (value : Int)
  /-- The value of a variable. -/
  | reference (line : Int) (name : String)
  /-- Giving a variable a new value, which is also the value of the expression. -/
  | assign (line : Int) (name : String) (value : Node)
  /-- An operator before one operand. -/
  | unary (line : Int) (operator : Option Operator) (operand : Node)
  /-- An operator between two operands. -/
  | binary (line : Int) (operator : Option Operator) (left right : Node)
  /-- Declaring a variable in the innermost scope. -/
  | letStmt (line : Int) (name : String) (initializer : Node)
  /-- Printing a value. -/
  | printStmt (line : Int) (expression : Node)
  /-- Evaluating an expression for its effect. -/
  | exprStmt (line : Int) (expression : Node)
  /-- Choosing between two blocks, the second of which may be missing. -/
  | ifStmt (line : Int) (condition : Node) (thenBranch : List Node)
      (elseBranch : Option (List Node))
  /-- Repeating a block. -/
  | whileStmt (line : Int) (condition : Node) (body : List Node)
  /-- A block of statements with a scope of its own. -/
  | block (line : Int) (statements : List Node)
  deriving Inhabited

namespace Node

/-- The name of a node's form in tree dumps and messages. -/
def label : Node → String
  | program .. => "ASTProgram"
  | bare .node _ => "ASTNode"
  | bare .expression _ => "ASTExpression"
  | bare .statement _ => "ASTStatement"
  | literal .. => "ASTIntegerLiteralExpression"
  | reference .. => "ASTVariableReferenceExpression"
  | assign .. => "ASTAssignmentExpression"
  | unary .. => "ASTUnaryExpression"
  | binary .. => "ASTBinaryExpression"
  | letStmt .. => "ASTLetStatement"
  | printStmt .. => "ASTPrintStatement"
  | exprStmt .. => "ASTExpressionStatement"
  | ifStmt .. => "ASTIfStatement"
  | whileStmt .. => "ASTWhileStatement"
  | block .. => "ASTBlockStatement"

/-! ## Trees without their lines -/

mutual

/-- The tree with every line set to zero. -/
def eraseLines : Node → Node
  | program ss => program (eraseLinesList ss)
  | bare family _ => bare family 0
  | literal _ v => literal 0 v
  | reference _ x => reference 0 x
  | assign _ x e => assign 0 x (eraseLines e)
  | unary _ op e => unary 0 op (eraseLines e)
  | binary _ op l r => binary 0 op (eraseLines l) (eraseLines r)
  | letStmt _ x e => letStmt 0 x (eraseLines e)
  | printStmt _ e => printStmt 0 (eraseLines e)
  | exprStmt _ e => exprStmt 0 (eraseLines e)
  | ifStmt _ c t f => ifStmt 0 (eraseLines c) (eraseLinesList t) (eraseLinesOption f)
  | whileStmt _ c b => whileStmt 0 (eraseLines c) (eraseLinesList b)
  | block _ ss => block 0 (eraseLinesList ss)

/-- `eraseLines` on each tree of a list. -/
def eraseLinesList : List Node → List Node
  | [] => []
  | n :: ns => eraseLines n :: eraseLinesList ns

/-- `eraseLines` on a list that may be missing. -/
def eraseLinesOption : Option (List Node) → Option (List Node)
  | none => none
  | some ns => some (eraseLinesList ns)

end

mutual

/-- Two trees are alike when they differ in nothing but lines. -/
def alike : Node → Node → Bool
  | program ss, program ss' => alikeList ss ss'
  | bare family _, bare family' _ => family == family'
  | literal _ v, literal _ v' => v == v'
  | reference _ x, reference _ x' => x == x'
  | assign _ x e, assign _ x' e' => x == x' && alike e e'
  | unary _ op e, unary _ op' e' => op == op' && alike e e'
  | binary _ op l r, binary _ op' l' r' => op == op' && alike l l' && alike r r'
  | letStmt _ x e, letStmt _ x' e' => x == x' && alike e e'
  | printStmt _ e, printStmt _ e' => alike e e'
  | exprStmt _ e, exprStmt _ e' => alike e e'
  | ifStmt _ c t f, ifStmt _ c' t' f' => alike c c' && alikeList t t' && alikeOption f f'
  | whileStmt _ c b, whileStmt _ c' b' => alike c c' && alikeList b b'
  | block _ ss, block _ ss' => alikeList ss ss'
  | _, _ => false

/-- Two lists are alike when they have alike trees in the same places. -/
def alikeList : List Node → List Node → Bool
  | [], [] => true
  | n :: ns, n' :: ns' => alike n n' && alikeList ns ns'
  | _, _ => false

/-- Two optional lists are alike when both are missing or both are there and alike. -/
def alikeOption : Option (List Node) → Option (List Node) → Bool
  | none, none => true
  | some ns, some ns' => alikeList ns ns'
  | _, _ => false

end

end Node

/-- A whole program: its statements in order. -/
structure Program where
  /-- The statements in order. -/
  statements : List Node
  deriving Inhabited

namespace Program

/-- The tree of a program. -/
def node (p : Program) : Node := .program p.statements

/-- Two programs are alike when they differ in nothing but lines. -/
def alike (p q : Program) : Bool := Node.alikeList p.statements q.statements

end Program

end RillLang
