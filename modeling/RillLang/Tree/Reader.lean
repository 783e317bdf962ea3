import RillLang.Token.Basic
import RillLang.Tree.Basic

/-!
# Reading tokens

A `Reader` takes tokens from the front of a list.  It either returns what it read
and the tokens that follow, or refuses with a reason and the tokens it had not
taken by then; the first of those is the token it did not accept.  The list holds
the tokens before the end of the input, so an empty list means the end was
reached.

This module has the readers that do not call themselves: one token, a repeated
item, and a chain of operands joined by operators.  The two repetitions are given
a number of rounds.  A round always takes a token, so as many rounds as there are
tokens are enough; a repetition that ran out of them would say `stalled`.
-/

namespace RillLang

/-- What a reader would have accepted. -/
inductive Expected where
  /-- A token of this kind. -/
  | kind (kind : Kind)
  /-- Something described in words. -/
  | phrase (text : String)
  deriving DecidableEq, Repr

/-- Why a reader refuses. -/
inductive Reject where
  /-- The next token does not fit. -/
  | unexpected (expected : Expected)
  /-- The nesting limit is used up. -/
  | tooDeep
  /-- A repetition took nothing. -/
  | stalled
  deriving DecidableEq, Repr

/-- A reader of tokens. -/
abbrev Reader (α : Type) : Type := EStateM Reject (List Token) α

namespace Reader

/-- Refuses whatever the tokens are. -/
def refuse {α : Type} (reject : Reject) : Reader α := fun tokens => .error reject tokens

/-- The kind of the first token; at the end it is the end of the input. -/
def kindAt : List Token → Kind
  | [] => .endOfInput
  | t :: _ => t.kind

/-- The kind of the next token, which is not taken. -/
def nextKind : Reader Kind := fun tokens => .ok (kindAt tokens) tokens

/-- The line of the next token, which is not taken.  At the end there is none, and
zero stands for it. -/
def nextLine : Reader Int
  | [] => .ok 0 []
  | t :: rest => .ok t.line (t :: rest)

/-- Takes a mark and returns its line. -/
def takeMark (m : Mark) : Reader Int
  | ⟨.mark m' note, line⟩ :: rest =>
    if m' = m then .ok line rest
    else .error (.unexpected (.kind (.mark m))) (⟨.mark m' note, line⟩ :: rest)
  | tokens => .error (.unexpected (.kind (.mark m))) tokens

/-- Takes an identifier and returns its name. -/
def takeName : Reader String
  | ⟨.identifier name, _⟩ :: rest => .ok (identifierName name) rest
  | tokens => .error (.unexpected (.kind .identifier)) tokens

/-! ## Repetition -/

/-- Reads items until the next kind is a stopping one, at most `rounds` of them,
after the items `done`, which are held last item first. -/
def itemsOnto (stop : Kind → Bool) (item : Reader Node) (done : List Node) (rounds : Nat)
    (tokens : List Token) : EStateM.Result Reject (List Token) (List Node) :=
  if stop (kindAt tokens) then .ok done.reverse tokens
  else
    match rounds with
    | 0 => .error .stalled tokens
    | rounds + 1 =>
      match item tokens with
      | .ok node rest => itemsOnto stop item (node :: done) rounds rest
      | .error reject rest => .error reject rest

/-- Reads items until the next kind is a stopping one. -/
def items (rounds : Nat) (stop : Kind → Bool) (item : Reader Node) : Reader (List Node) :=
  itemsOnto stop item [] rounds

/-- The operator the tokens start with, its line, and the tokens after it. -/
def operatorAt (operator? : Mark → Option BinaryOperator) :
    List Token → Option (BinaryOperator × Int × List Token)
  | ⟨.mark m _, line⟩ :: rest => (operator? m).map fun op => (op, line, rest)
  | _ => none

/-- Reads operators, each followed by an operand, and folds them to the left onto
`left`; at most `rounds` of them. -/
def chainOnto (operator? : Mark → Option BinaryOperator) (operand : Reader Node) (left : Node)
    (rounds : Nat) (tokens : List Token) : EStateM.Result Reject (List Token) Node :=
  match operatorAt operator? tokens with
  | none => .ok left tokens
  | some (op, line, rest) =>
    match rounds with
    | 0 => .error .stalled tokens
    | rounds + 1 =>
      match operand rest with
      | .ok right rest =>
        chainOnto operator? operand (.binary line (some (.binary op)) left right) rounds rest
      | .error reject rest => .error reject rest

/-- Reads operands joined by operators, folded to the left. -/
def chain (rounds : Nat) (operator? : Mark → Option BinaryOperator) (operand : Reader Node) :
    Reader Node := do
  let left ← operand
  chainOnto operator? operand left rounds

end Reader

end RillLang
