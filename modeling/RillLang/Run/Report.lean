import RillLang.Run

/-!
# What a run reports

The error output of a run, read from the outside: first the sections that were asked for
and can be shown, and then one line for the first stage that failed, if one did.  Colour
is a matter of the rule above a section and of nothing else.
-/

namespace RillLang

/-- The stages of a run, in order. -/
inductive Stage where
  | scanning | parsing | running
  deriving DecidableEq, Repr

/-- What the report of a stage that failed starts with. -/
def Stage.heading : Stage → String
  | scanning => "Lexer error: "
  | parsing => "Parser error: "
  | running => "Runtime error: "

/-- The first stage that fails, and how.  A stage is reached when those before it have
succeeded. -/
inductive FirstFailure [Closing] (limits : Limits) (source : String) : Stage → Failure → Prop
  | scanning {e : ScanError} :
      Token.scan source = .error e → FirstFailure limits source .scanning (.scan e)
  | parsing {tokens : List Token} {e : ParseError} :
      Token.scan source = .ok tokens → Program.ofTokens limits.nesting tokens = .error e →
      FirstFailure limits source .parsing (.parse e)
  | running {tokens : List Token} {p : Program} {fault : Fault} {m : Machine} :
      Token.scan source = .ok tokens → Program.ofTokens limits.nesting tokens = .ok p →
      p.interpret limits.nesting limits.rounds .fresh = .error fault m →
      FirstFailure limits source .running (.fault fault)

/-- The program of a text, if the text scans and parses.  Where there is one, its
interpretation begins. -/
def parse? (limits : Limits) (source : String) : Option Program :=
  (Token.scan source).toOption.bind fun tokens =>
    (Program.ofTokens limits.nesting tokens).toOption

/-! ## Sections -/

/-- A labelled part of the error output. -/
structure Section where
  /-- What the rule above the section says. -/
  label : String
  /-- The lines of the section. -/
  body : String

/-- Bold white on a terminal. -/
def painted (colour : Bool) (text : String) : String :=
  if colour then "\x1b[1;97m" ++ text ++ "\x1b[0m" else text

namespace Section

/-- The rule above a section. -/
def rule (s : Section) : String := "═ " ++ s.label ++ " " ++ copies (76 - s.label.length) "═"

/-- The text of a section: an empty line, the rule, and the lines of the section. -/
def text (colour : Bool) (s : Section) : String :=
  "\n" ++ painted colour s.rule ++ "\n" ++ s.body ++ "\n"

end Section

/-- The text of a section that may be missing. -/
def shown (colour : Bool) : Option Section → String
  | none => ""
  | some s => s.text colour

/-- The section of the tokens: there when it was asked for and the text scans. -/
def tokenSection? (flags : Flags) (source : String) : Option Section :=
  if flags.tokens then
    (Token.scan source).toOption.map fun tokens => ⟨"Tokens", Token.listing tokens⟩
  else none

/-- The section of the tree: there when it was asked for and the text scans and parses. -/
def treeSection? (limits : Limits) (flags : Flags) (source : String) : Option Section :=
  if flags.ast then
    (parse? limits source).map fun p => ⟨"AST", p.node.toJson.render dumpLayout⟩
  else none

end RillLang
