import RillLang.Tree.Basic

/-!
# Names in trees

The names a tree mentions and the names it assigns, what it means to rename them,
and when every name is declared before it is used.

A declaration brings its name into effect after its own initializer and up to the
end of the list it stands in; a block, a branch or a loop body hides the names it
declared when it ends.
-/

namespace RillLang.Node

/-! ## Assigned names -/

mutual

/-- The names a tree assigns, with every tree inside it. -/
def assigned : Node → List String
  | program ss => assignedList ss
  | bare .. => []
  | literal .. => []
  | reference .. => []
  | assign _ x e => x :: assigned e
  | unary _ _ e => assigned e
  | binary _ _ l r => assigned l ++ assigned r
  | letStmt _ _ e => assigned e
  | printStmt _ e => assigned e
  | exprStmt _ e => assigned e
  | ifStmt _ c t f => assigned c ++ assignedList t ++ assignedOption f
  | whileStmt _ c b => assigned c ++ assignedList b
  | block _ ss => assignedList ss

/-- The names the trees of a list assign. -/
def assignedList : List Node → List String
  | [] => []
  | n :: ns => assigned n ++ assignedList ns

/-- The names the trees of a list that may be missing assign. -/
def assignedOption : Option (List Node) → List String
  | none => []
  | some ns => assignedList ns

end

/-! ## Renaming -/

mutual

/-- The tree with each name replaced. -/
def rename (f : String → String) : Node → Node
  | program ss => program (renameList f ss)
  | bare family line => bare family line
  | literal line v => literal line v
  | reference line x => reference line (f x)
  | assign line x e => assign line (f x) (rename f e)
  | unary line op e => unary line op (rename f e)
  | binary line op l r => binary line op (rename f l) (rename f r)
  | letStmt line x e => letStmt line (f x) (rename f e)
  | printStmt line e => printStmt line (rename f e)
  | exprStmt line e => exprStmt line (rename f e)
  | ifStmt line c t o => ifStmt line (rename f c) (renameList f t) (renameOption f o)
  | whileStmt line c b => whileStmt line (rename f c) (renameList f b)
  | block line ss => block line (renameList f ss)

/-- The trees of a list with each name replaced. -/
def renameList (f : String → String) : List Node → List Node
  | [] => []
  | n :: ns => rename f n :: renameList f ns

/-- The trees of a list that may be missing with each name replaced. -/
def renameOption (f : String → String) : Option (List Node) → Option (List Node)
  | none => none
  | some ns => some (renameList f ns)

end

/-! ## Declared before use -/

/-- Every name an expression reads or assigns is in a context. -/
def ExprUses (context : List String) : Node → Prop
  | reference _ x => x ∈ context
  | assign _ x e => x ∈ context ∧ ExprUses context e
  | unary _ _ e => ExprUses context e
  | binary _ _ l r => ExprUses context l ∧ ExprUses context r
  | _ => True

/-- The names in effect after a statement. -/
def declares (context : List String) : Node → List String
  | letStmt _ x _ => x :: context
  | _ => context

mutual

/-- Every name a statement uses is declared before it, given the names in effect. -/
def StmtUses (context : List String) : Node → Prop
  | letStmt _ _ e => ExprUses context e
  | printStmt _ e => ExprUses context e
  | exprStmt _ e => ExprUses context e
  | ifStmt _ c t f => ExprUses context c ∧ ListUses context t ∧ OptionUses context f
  | whileStmt _ c b => ExprUses context c ∧ ListUses context b
  | block _ ss => ListUses context ss
  | _ => True

/-- Every name the statements of a list use is declared before it. -/
def ListUses (context : List String) : List Node → Prop
  | [] => True
  | s :: ss => StmtUses context s ∧ ListUses (declares context s) ss

/-- The same for a list that may be missing. -/
def OptionUses (context : List String) : Option (List Node) → Prop
  | none => True
  | some ss => ListUses context ss

end

end RillLang.Node
