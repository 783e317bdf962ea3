import RillLang.Token.Scan
import RillLang.Tree.Basic
import RillLang.Word

/-!
# Well-formed trees

The trees that program text can stand for: each node stands where a node of its
family belongs, a unary node negates, a binary node holds a binary operator, a
literal is a word that is not negative, and a name is a word that is no keyword.
-/

namespace RillLang

/-- Whether a text scans as one identifier: a letter or underscore, then letters,
digits and underscores, and not a keyword. -/
def isName (x : String) : Bool :=
  match x.toList with
  | [] => false
  | c :: cs => isWordStart c && cs.all isWordChar && (Token.keyword? (c :: cs)).isNone

namespace Node

/-- A well-formed expression. -/
inductive WellFormedExpr : Node → Prop
  | literal {line v : Int} : 0 ≤ v → v ≤ Word.greatest → WellFormedExpr (.literal line v)
  | reference {line : Int} {x : String} : isName x = true → WellFormedExpr (.reference line x)
  | assign {line : Int} {x : String} {e : Node} :
      isName x = true → WellFormedExpr e → WellFormedExpr (.assign line x e)
  | unary {line : Int} {e : Node} :
      WellFormedExpr e → WellFormedExpr (.unary line (some .negate) e)
  | binary {line : Int} {op : BinaryOperator} {l r : Node} :
      WellFormedExpr l → WellFormedExpr r →
      WellFormedExpr (.binary line (some (.binary op)) l r)

mutual

/-- A well-formed statement. -/
inductive WellFormedStmt : Node → Prop
  | letStmt {line : Int} {x : String} {e : Node} :
      isName x = true → WellFormedExpr e → WellFormedStmt (.letStmt line x e)
  | printStmt {line : Int} {e : Node} : WellFormedExpr e → WellFormedStmt (.printStmt line e)
  | exprStmt {line : Int} {e : Node} : WellFormedExpr e → WellFormedStmt (.exprStmt line e)
  | ifStmt {line : Int} {c : Node} {thenBranch : List Node} :
      WellFormedExpr c → WellFormedList thenBranch →
      WellFormedStmt (.ifStmt line c thenBranch none)
  | ifElse {line : Int} {c : Node} {thenBranch elseBranch : List Node} :
      WellFormedExpr c → WellFormedList thenBranch → WellFormedList elseBranch →
      WellFormedStmt (.ifStmt line c thenBranch (some elseBranch))
  | whileStmt {line : Int} {c : Node} {body : List Node} :
      WellFormedExpr c → WellFormedList body → WellFormedStmt (.whileStmt line c body)
  | block {line : Int} {body : List Node} :
      WellFormedList body → WellFormedStmt (.block line body)

/-- Well-formed statements. -/
inductive WellFormedList : List Node → Prop
  | nil : WellFormedList []
  | cons {s : Node} {ss : List Node} :
      WellFormedStmt s → WellFormedList ss → WellFormedList (s :: ss)

end

end Node

/-- A program of well-formed statements. -/
def Program.WellFormed (p : Program) : Prop := Node.WellFormedList p.statements

end RillLang
