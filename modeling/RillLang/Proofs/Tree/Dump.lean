import RillLang.Proofs.Json.Read
import RillLang.Proofs.Json.Write
import RillLang.Tree.Dump

/-!
# A dump tells the tree

The dump of a tree, in any layout, is well-formed JSON with the value that the tree stands
for, and no other tree stands for that value: each node carries the label of its form, its
line and all its parts (`Node.dump_tells_tree`).

* `Operator.ofName?_name` — an operator is told by its name.
* `Node.toJson_injective` — a tree is told by its value, by recursion on the tree.
-/

namespace RillLang

theorem Operator.ofName?_name (op : Operator) : ofName? op.name = some op := by
  cases op with
  | negate => rfl
  | binary op => cases op <;> rfl

namespace Node

open Json.Grammar

theorem operatorJson_injective {op op' : Option Operator}
    (h : operatorJson op = operatorJson op') : op = op' := by
  cases op with
  | none =>
      cases op' with
      | none => rfl
      | some op' => cases h
  | some op =>
      cases op' with
      | none => cases h
      | some op' =>
          have hname : op.name = op'.name := Json.str.inj h
          rw [← Operator.ofName?_name op, ← Operator.ofName?_name op', hname]

theorem family_eq_of_label {family family' : Family} {line line' : Int}
    (h : (bare family line).label = (bare family' line').label) : family = family' := by
  revert h
  cases family <;> cases family' <;> simp [label]

/-! ## Trees

Two trees of different forms differ in their labels; the bare nodes, which have a label
for each family, differ from all others in having no part but their line. -/

mutual

/-- A tree is told by its value. -/
theorem toJson_injective : ∀ {n n' : Node}, toJson n = toJson n' → n = n'
  | program ss, n', h => by
      cases n' with
      | program ss' =>
          simp [toJson, label] at h
          rw [toJsonList_injective h]
      | _ => simp [toJson, label] at h
  | bare family line, n', h => by
      cases n' with
      | bare family' line' =>
          simp [toJson] at h
          rw [family_eq_of_label h.1, h.2]
      | _ => simp [toJson] at h
  | literal line v, n', h => by
      cases n' with
      | literal line' v' =>
          simp [toJson, label] at h
          rw [h.1, h.2]
      | _ => simp [toJson, label] at h
  | reference line x, n', h => by
      cases n' with
      | reference line' x' =>
          simp [toJson, label] at h
          rw [h.1, h.2]
      | _ => simp [toJson, label] at h
  | assign line x e, n', h => by
      cases n' with
      | assign line' x' e' =>
          simp [toJson, label] at h
          obtain ⟨hline, hx, he⟩ := h
          rw [hline, hx, toJson_injective he]
      | _ => simp [toJson, label] at h
  | unary line op e, n', h => by
      cases n' with
      | unary line' op' e' =>
          simp [toJson, label] at h
          obtain ⟨hline, hop, he⟩ := h
          rw [hline, operatorJson_injective hop, toJson_injective he]
      | _ => simp [toJson, label] at h
  | binary line op l r, n', h => by
      cases n' with
      | binary line' op' l' r' =>
          simp [toJson, label] at h
          obtain ⟨hline, hop, hl, hr⟩ := h
          rw [hline, operatorJson_injective hop, toJson_injective hl, toJson_injective hr]
      | _ => simp [toJson, label] at h
  | letStmt line x e, n', h => by
      cases n' with
      | letStmt line' x' e' =>
          simp [toJson, label] at h
          obtain ⟨hline, hx, he⟩ := h
          rw [hline, hx, toJson_injective he]
      | _ => simp [toJson, label] at h
  | printStmt line e, n', h => by
      cases n' with
      | printStmt line' e' =>
          simp [toJson, label] at h
          rw [h.1, toJson_injective h.2]
      | _ => simp [toJson, label] at h
  | exprStmt line e, n', h => by
      cases n' with
      | exprStmt line' e' =>
          simp [toJson, label] at h
          rw [h.1, toJson_injective h.2]
      | _ => simp [toJson, label] at h
  | ifStmt line c t f, n', h => by
      cases n' with
      | ifStmt line' c' t' f' =>
          simp [toJson, label] at h
          obtain ⟨hline, hc, ht, hf⟩ := h
          rw [hline, toJson_injective hc, toJsonList_injective ht, toJsonOption_injective hf]
      | _ => simp [toJson, label] at h
  | whileStmt line c b, n', h => by
      cases n' with
      | whileStmt line' c' b' =>
          simp [toJson, label] at h
          obtain ⟨hline, hc, hb⟩ := h
          rw [hline, toJson_injective hc, toJsonList_injective hb]
      | _ => simp [toJson, label] at h
  | block line ss, n', h => by
      cases n' with
      | block line' ss' =>
          simp [toJson, label] at h
          rw [h.1, toJsonList_injective h.2]
      | _ => simp [toJson, label] at h

theorem toJsonList_injective : ∀ {ns ns' : List Node}, toJsonList ns = toJsonList ns' → ns = ns'
  | [], [], _ => rfl
  | n :: ns, n' :: ns', h => by
      obtain ⟨hn, hns⟩ := List.cons.inj h
      rw [toJson_injective hn, toJsonList_injective hns]

theorem toJsonOption_injective : ∀ {ns ns' : Option (List Node)},
    toJsonOption ns = toJsonOption ns' → ns = ns'
  | none, none, _ => rfl
  | some ns, some ns', h => by rw [toJsonList_injective (Json.arr.inj h)]

end

/-! ## Dumps -/

theorem eq_render_of_dump? {n : Node} {room : Nat} {layout : Json.Layout} {text : String}
    (h : n.dump? room layout = some text) : text = n.toJson.render layout := by
  unfold dump? at h
  split at h
  · exact (Option.some.inj h).symm
  · cases h

/-- **A dump tells the tree.**  Whatever the indent, a dump that is made is well-formed JSON
with one value only, the one that the tree stands for, and reading it gives that value; and
trees with the same dump, even at different indents, are the same in every part. -/
theorem dump_tells_tree :
    (∀ (n : Node) (room : Nat) (indent : Option Int) (text : String),
      n.dump? room (.ofIndent indent) = some text →
        (∀ value, Spells text value ↔ value = n.toJson) ∧ Json.read text = some n.toJson) ∧
    (∀ (n n' : Node) (room room' : Nat) (indent indent' : Option Int) (text : String),
      n.dump? room (.ofIndent indent) = some text →
        n'.dump? room' (.ofIndent indent') = some text → n = n') := by
  have hspells {n : Node} {room : Nat} {indent : Option Int} {text : String}
      (h : n.dump? room (.ofIndent indent) = some text) : Spells text n.toJson := by
    rw [eq_render_of_dump? h]
    exact Json.spells_render (.ofIndent indent) n.toJson
  refine ⟨fun n room indent text h => ⟨fun value => ?_, ?_⟩, ?_⟩
  · constructor
    · exact fun hvalue => Json.spells_unique hvalue (hspells h)
    · rintro rfl
      exact hspells h
  · exact Json.read_of_spells (hspells h)
  · intro n n' room room' indent indent' text h h'
    exact toJson_injective (Json.spells_unique (hspells h) (hspells h'))

/-- A negation without its operator, before a name that is not plain, at two indents that
look the same. -/
theorem dump_tells_missing_operator :
    let n : Node := .unary 2 none (.reference 1 "é")
    let text := "\x7b\n\"node\": \"ASTUnaryExpression\",\n\"line\": 2,\n\"operator\": null,\n" ++
      "\"operand\": \x7b\n\"node\": \"ASTVariableReferenceExpression\",\n\"line\": 1,\n" ++
      "\"name\": \"\\u00e9\"\n\x7d\n\x7d"
    n.dump? 4 (.ofIndent (some 0)) = some text ∧ n.dump? 9 (.ofIndent (some (-3))) = some text ∧
      Spells text n.toJson ∧ Json.read text = some n.toJson ∧
      ∀ n' : Node, n'.dump? 9 (.ofIndent (some (-3))) = some text → n = n' := by
  intro n text
  have h : n.dump? 4 (.ofIndent (some 0)) = some text := by decide +kernel
  have h' : n.dump? 9 (.ofIndent (some (-3))) = some text := by decide +kernel
  obtain ⟨hspells, hread⟩ := dump_tells_tree.1 n 4 (some 0) text h
  exact ⟨h, h', (hspells _).2 rfl, hread, fun n' hn' =>
    dump_tells_tree.2 n n' 4 9 (some 0) (some (-3)) text h hn'⟩

end Node

end RillLang
