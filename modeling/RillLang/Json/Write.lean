import RillLang.Json.Basic
import RillLang.Text.Quoted

/-!
# Writing JSON

A value is written on one line, or with each item and each member on a line of its
own.  The text is plain ASCII: a string shows the characters from the space to the
tilde, and writes every other character as an escape, a code point beyond the
first plane as a pair of surrogates.
-/

namespace RillLang.Json

/-! ## Strings -/

/-- A sixteen-bit unit by number. -/
def escapeUnit (n : Nat) : List Char := '\\' :: 'u' :: Text.hexDigits 4 n

/-- A character by number: one unit, or two beyond the first plane. -/
def escapeNumeric (c : Char) : List Char :=
  if c.toNat < 0x10000 then escapeUnit c.toNat
  else
    escapeUnit (0xd800 + (c.toNat - 0x10000) / 0x400) ++
      escapeUnit (0xdc00 + (c.toNat - 0x10000) % 0x400)

/-- One character of a string. -/
def escape (c : Char) : List Char :=
  if c == '"' then ['\\', '"']
  else if c == '\\' then ['\\', '\\']
  else if c == '\n' then ['\\', 'n']
  else if c == '\r' then ['\\', 'r']
  else if c == '\t' then ['\\', 't']
  else if c == '\x08' then ['\\', 'b']
  else if c == '\x0c' then ['\\', 'f']
  else if ' ' ≤ c && c ≤ '~' then [c]
  else escapeNumeric c

/-- A string between quotes. -/
def writeString (text : String) : List Char :=
  '"' :: (text.toList.flatMap escape ++ ['"'])

/-! ## Layout -/

/-- How a value is laid out. -/
inductive Layout where
  /-- Everything on one line. -/
  | oneLine
  /-- Each item on a line of its own, with this many spaces for each level. -/
  | indented (step : Nat)
  deriving DecidableEq, Repr

namespace Layout

/-- The layout for an indent: none means one line, a negative one means no spaces. -/
def ofIndent : Option Int → Layout
  | none => oneLine
  | some step => indented step.toNat

/-- What stands before the first item at a level, and before a closing bracket. -/
def gap : Layout → Nat → List Char
  | oneLine, _ => []
  | indented step, level => '\n' :: List.replicate (step * level) ' '

/-- What stands between two items at a level. -/
def separator : Layout → Nat → List Char
  | oneLine, _ => [',', ' ']
  | indented step, level => ',' :: gap (indented step) level

end Layout

/-! ## Values

Each writer takes the text that comes after it, so that a long text is built only
once. -/

/-- An integer in decimal. -/
def writeInt (v : Int) : List Char := (toString v).toList

mutual

/-- A value at a level, before `after`. -/
def write (layout : Layout) (level : Nat) : Json → List Char → List Char
  | null, after => "null".toList ++ after
  | bool true, after => "true".toList ++ after
  | bool false, after => "false".toList ++ after
  | int v, after => writeInt v ++ after
  | str text, after => writeString text ++ after
  | arr [], after => '[' :: ']' :: after
  | arr (item :: items), after =>
    '[' :: (layout.gap (level + 1) ++
      write layout (level + 1) item
        (writeItems layout (level + 1) items (layout.gap level ++ ']' :: after)))
  | obj [], after => '\x7b' :: '\x7d' :: after
  | obj ((key, value) :: members), after =>
    '\x7b' :: (layout.gap (level + 1) ++ (writeString key ++ ':' :: ' ' ::
      write layout (level + 1) value
        (writeMembers layout (level + 1) members (layout.gap level ++ '\x7d' :: after))))

/-- Items after the first, before `after`. -/
def writeItems (layout : Layout) (level : Nat) : List Json → List Char → List Char
  | [], after => after
  | item :: items, after =>
    layout.separator level ++ write layout level item (writeItems layout level items after)

/-- Members after the first, before `after`. -/
def writeMembers (layout : Layout) (level : Nat) :
    List (String × Json) → List Char → List Char
  | [], after => after
  | (key, value) :: members, after =>
    layout.separator level ++ (writeString key ++ ':' :: ' ' ::
      write layout level value (writeMembers layout level members after))

end

/-- The text of a value. -/
def render (layout : Layout) (value : Json) : String := String.ofList (write layout 0 value [])

end RillLang.Json
