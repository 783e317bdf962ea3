/-!
# Section headers

A header opens a section of diagnostic output: an empty line, then the label in a
rule that fills the width.  On a terminal the rule is bold white.
-/

namespace RillLang

/-- How a header is drawn. -/
structure HeaderStyle where
  /-- The number of characters the rule aims at. -/
  width : Int := 80
  /-- What the rule is drawn with. -/
  fill : String := "═"
  /-- Whether the rule is coloured. -/
  colour : Bool := true

/-- `count` copies of a text; a negative count is none. -/
def copies (count : Int) (text : String) : String :=
  String.join (List.replicate count.toNat text)

/-- The header with a label: one fill, the label between spaces, and as many more
fills as the width leaves room for beside the label and four other characters. -/
def header (style : HeaderStyle) (label : String) : String :=
  let rule :=
    style.fill ++ " " ++ label ++ " " ++ copies (style.width - label.length - 4) style.fill
  if style.colour then "\n\x1b[1;97m" ++ rule ++ "\x1b[0m" else "\n" ++ rule

end RillLang
