import RillLang.Json.Write
import RillLang.Tree.Basic

/-!
# Tree dumps

A tree is shown as JSON: each node is an object that starts with the label of its
form, followed by its line and its parts in a fixed order.

Showing a tree takes room in the same way as reading or running it: two units for
each node and two for each list on the way down.  `Node.fits` says whether a tree
can be shown in a given room.
-/

namespace RillLang.Node

/-- The JSON of the operator of a node. -/
def operatorJson : Option Operator → Json
  | none => .null
  | some op => .str op.name

mutual

/-- The JSON of a node. -/
def toJson : Node → Json
  | n@(program ss) => .obj [("node", .str n.label), ("statements", .arr (toJsonList ss))]
  | n@(bare _ line) => .obj [("node", .str n.label), ("line", .int line)]
  | n@(literal line v) =>
    .obj [("node", .str n.label), ("line", .int line), ("value", .int v)]
  | n@(reference line x) =>
    .obj [("node", .str n.label), ("line", .int line), ("name", .str x)]
  | n@(assign line x e) =>
    .obj [("node", .str n.label), ("line", .int line), ("name", .str x), ("value", toJson e)]
  | n@(unary line op e) =>
    .obj [("node", .str n.label), ("line", .int line), ("operator", operatorJson op),
      ("operand", toJson e)]
  | n@(binary line op l r) =>
    .obj [("node", .str n.label), ("line", .int line), ("operator", operatorJson op),
      ("left", toJson l), ("right", toJson r)]
  | n@(letStmt line x e) =>
    .obj [("node", .str n.label), ("line", .int line), ("name", .str x),
      ("initializer", toJson e)]
  | n@(printStmt line e) =>
    .obj [("node", .str n.label), ("line", .int line), ("expression", toJson e)]
  | n@(exprStmt line e) =>
    .obj [("node", .str n.label), ("line", .int line), ("expression", toJson e)]
  | n@(ifStmt line c t f) =>
    .obj [("node", .str n.label), ("line", .int line), ("condition", toJson c),
      ("then_branch", .arr (toJsonList t)), ("else_branch", toJsonOption f)]
  | n@(whileStmt line c b) =>
    .obj [("node", .str n.label), ("line", .int line), ("condition", toJson c),
      ("body", .arr (toJsonList b))]
  | n@(block line ss) =>
    .obj [("node", .str n.label), ("line", .int line), ("statements", .arr (toJsonList ss))]

/-- The JSON of each node of a list. -/
def toJsonList : List Node → List Json
  | [] => []
  | n :: ns => toJson n :: toJsonList ns

/-- The JSON of a list that may be missing. -/
def toJsonOption : Option (List Node) → Json
  | none => .null
  | some ns => .arr (toJsonList ns)

end

mutual

/-- Whether a tree can be shown in a given room. -/
def fits (room : Nat) : Node → Bool
  | program ss => 2 ≤ room && fitsList (room - 2) ss
  | assign _ _ e => 2 ≤ room && fits (room - 2) e
  | unary _ _ e => 2 ≤ room && fits (room - 2) e
  | binary _ _ l r => 2 ≤ room && fits (room - 2) l && fits (room - 2) r
  | letStmt _ _ e => 2 ≤ room && fits (room - 2) e
  | printStmt _ e => 2 ≤ room && fits (room - 2) e
  | exprStmt _ e => 2 ≤ room && fits (room - 2) e
  | ifStmt _ c t f =>
    2 ≤ room && fits (room - 2) c && fitsList (room - 2) t && fitsOption (room - 2) f
  | whileStmt _ c b => 2 ≤ room && fits (room - 2) c && fitsList (room - 2) b
  | block _ ss => 2 ≤ room && fitsList (room - 2) ss
  | bare .. => 2 ≤ room
  | literal .. => 2 ≤ room
  | reference .. => 2 ≤ room

/-- Whether a list of trees can be shown in a given room. -/
def fitsList (room : Nat) : List Node → Bool
  | [] => 2 ≤ room
  | n :: ns => 2 ≤ room && fits (room - 2) n && fitsList room ns

/-- Whether a list of trees that may be missing can be shown in a given room. -/
def fitsOption (room : Nat) : Option (List Node) → Bool
  | none => true
  | some ns => fitsList room ns

end

/-- The dump of a tree, if it can be shown in a given room. -/
def dump? (room : Nat) (layout : Json.Layout) (n : Node) : Option String :=
  if n.fits room then some (n.toJson.render layout) else none

end RillLang.Node
