import RillLang.Env

/-!
# Shadow stacks

Another way to keep an environment: the number of open scopes, and for each name
the stack of its bindings, each with the level of the scope it was made in, the
innermost binding on top.  Closing a scope drops the bindings of its level.
-/

namespace RillLang

/-- The depth of the scopes and, for each name, its bindings from the inside out. -/
structure Shadow where
  /-- The number of open scopes. -/
  depth : Nat
  /-- The bindings of each name, with the level they were made at. -/
  bindings : String → List (Nat × Int)

namespace Shadow

/-- One open scope and no bindings. -/
def empty : Shadow := ⟨1, fun _ => []⟩

/-- The bindings with those of one name replaced. -/
def update (s : Shadow) (x : String) (stack : List (Nat × Int)) : Shadow :=
  ⟨s.depth, fun y => if y = x then stack else s.bindings y⟩

/-- Opens a scope. -/
def push (s : Shadow) : Shadow := ⟨s.depth + 1, s.bindings⟩

/-- Closes a scope and drops the bindings made in it. -/
def pop? (s : Shadow) : Option Shadow :=
  if s.depth ≤ 1 then none
  else some ⟨s.depth - 1, fun x => (s.bindings x).filter fun b => b.1 ≠ s.depth⟩

/-- Replaces or adds the binding of a name at the current depth. -/
def define (s : Shadow) (x : String) (v : Int) : Shadow :=
  match s.bindings x with
  | (level, w) :: rest =>
    if level = s.depth then s.update x ((level, v) :: rest)
    else s.update x ((s.depth, v) :: (level, w) :: rest)
  | [] => s.update x [(s.depth, v)]

/-- The value of a name is that of its top binding. -/
def get? (s : Shadow) (x : String) : Option Int := (s.bindings x).head?.map Prod.snd

/-- Replaces the value of the top binding of a name. -/
def assign? (s : Shadow) (x : String) (v : Int) : Option Shadow :=
  match s.bindings x with
  | [] => none
  | (level, _) :: rest => some (s.update x ((level, v) :: rest))

end Shadow

end RillLang
