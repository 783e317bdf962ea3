/-!
# Comments by lines

The comment of a line starts at the first two slashes of the line and goes up to its
end.  `stripComments` deletes the comment of every line without looking at tokens.
-/

namespace RillLang

/-- A line up to its first two slashes. -/
def cutComment : List Char → List Char
  | [] => []
  | '/' :: '/' :: _ => []
  | c :: cs => c :: cutComment cs

/-- The text without the comments of its lines, which are separated by line feeds. -/
def stripComments (text : List Char) : List Char :=
  ['\n'].intercalate ((text.splitOn '\n').map cutComment)

end RillLang
