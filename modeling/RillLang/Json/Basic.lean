/-!
# JSON values

The values a tree dump is made of.  Numbers are integers, and the members of an
object keep their order.
-/

namespace RillLang

/-- A JSON value. -/
inductive Json where
  | null
  | bool (value : Bool)
  | int (value : Int)
  | str (text : String)
  | arr (items : List Json)
  | obj (members : List (String × Json))
  deriving Inhabited

end RillLang
