import RillLang.Header
import RillLang.Machine.Execute
import RillLang.Token.Listing
import RillLang.Token.Scan
import RillLang.Tree.Dump
import RillLang.Tree.Parse

/-!
# Running a program text

`run` scans, parses and interprets a text.  What the program prints goes to the
output; the sections that were asked for and the report of a failure go to the
error output.  A failure that is reported ends the run with exit status one; a
failure that is not is left to the caller.
-/

namespace RillLang

/-- What went wrong on the way from a text to the end of its run. -/
inductive Failure where
  /-- The text has no tokens. -/
  | scan (error : ScanError)
  /-- The tokens are no program. -/
  | parse (error : ParseError)
  /-- The program stopped early. -/
  | fault (cause : Fault)
  /-- The tree is too deep to be shown. -/
  | dumpTooDeep
  /-- A path with a NUL in it cannot be opened. -/
  | embeddedNull
  deriving DecidableEq, Repr

namespace Failure

/-- The message for a failure.  A tree too deep to be shown has none. -/
def message : Failure → String
  | scan error => error.message
  | parse error => error.message
  | fault cause => cause.message
  | dumpTooDeep => ""
  | embeddedNull => "embedded null byte"

/-- What the report of a failure starts with, if the failure is one that a run
reports. -/
def stage? : Failure → Option String
  | scan (.tooManyDigits _) => none
  | scan _ => some "Lexer error: "
  | parse .unclosed => none
  | parse (.stalled _) => none
  | parse _ => some "Parser error: "
  | fault cause => if cause.isProgramFault then some "Runtime error: " else none
  | dumpTooDeep => none
  | embeddedNull => none

end Failure

/-- The bounds of a run. -/
structure Limits where
  /-- The nesting limit, for reading, showing and running a tree. -/
  nesting : Nat := nestingLimit
  /-- The number of rounds each loop is given. -/
  rounds : Nat := loopRounds

/-- What to show beside the output of a program. -/
structure Flags where
  /-- Show the tokens. -/
  tokens : Bool := false
  /-- Show the tree. -/
  ast : Bool := false
  /-- The error output is a terminal, so headers are coloured. -/
  terminal : Bool := false

/-- What a run leaves behind. -/
structure Transcript where
  /-- The output. -/
  out : String
  /-- The error output. -/
  err : String
  /-- The exit status, or the failure that was not reported. -/
  ending : Except Failure Nat

namespace Transcript

/-- The transcript of a failure after the output `out`. -/
def ofFailure (out : String) (failure : Failure) : Transcript :=
  match failure.stage? with
  | some stage => ⟨out, stage ++ failure.message ++ "\n", .ok 1⟩
  | none => ⟨out, "", .error failure⟩

/-- The transcript with a text before its error output. -/
def after (before : String) (t : Transcript) : Transcript := { t with err := before ++ t.err }

end Transcript

/-- The header of a section. -/
def sectionHeader (terminal : Bool) (label : String) : String :=
  header { colour := terminal } label ++ "\n"

/-- The section that shows the tokens. -/
def tokenSection (flags : Flags) (tokens : List Token) : String :=
  if flags.tokens then
    sectionHeader flags.terminal "Tokens" ++ Token.listing tokens ++ "\n"
  else ""

/-- Two spaces for each level of a tree dump. -/
def dumpLayout : Json.Layout := .indented 2

variable [Closing]

/-- Interprets a program from scratch. -/
def interpretFresh (limits : Limits) (program : Program) : Transcript :=
  match program.interpret limits.nesting limits.rounds .fresh with
  | .ok _ m => ⟨m.output, "", .ok 0⟩
  | .error fault m => .ofFailure m.output (.fault fault)

/-- Shows the tree of a program if that was asked for, and interprets it. -/
def showAndInterpret (limits : Limits) (flags : Flags) (program : Program) : Transcript :=
  if flags.ast then
    .after (sectionHeader flags.terminal "AST") <|
      match program.node.dump? limits.nesting dumpLayout with
      | some text => .after (text ++ "\n") (interpretFresh limits program)
      | none => .ofFailure "" .dumpTooDeep
  else interpretFresh limits program

/-- Runs a program text. -/
def run (limits : Limits) (flags : Flags) (source : String) : Transcript :=
  match Token.scan source with
  | .error error => .ofFailure "" (.scan error)
  | .ok tokens =>
    .after (tokenSection flags tokens) <|
      match Program.ofTokens limits.nesting tokens with
      | .error error => .ofFailure "" (.parse error)
      | .ok program => showAndInterpret limits flags program

end RillLang
