import RillLang.Command.Path
import RillLang.Command.Words
import RillLang.Run
import RillLang.Text.Newline
import RillLang.Text.Utf8

/-!
# Answering a command

The answer to a command line is a transcript.  Help is output with exit status zero;
a usage error is reported with exit status two; a source file that cannot be read
or decoded is reported with exit status one; and a source file that can be read is
run, after its line ends have been made line feeds.
-/

namespace RillLang.Command

/-- The usage line. -/
def usage : String := "usage: rill [-h] [--tokens] [--ast] source_file\n"

/-- The help text. -/
def helpText : String :=
  usage ++
  "\nRill scripting language interpreter\n" ++
  "\npositional arguments:\n" ++
  "  source_file  Source file to run (e.g. example.rill)\n" ++
  "\noptions:\n" ++
  "  -h, --help   show this help message and exit\n" ++
  "  --tokens     Print the token stream to stderr before running\n" ++
  "  --ast        Print the abstract syntax tree as JSON to stderr before running\n"

/-- Reports a usage error. -/
def refuse (error : UsageError) : Transcript :=
  ⟨"", usage ++ "rill: error: " ++ error.message ++ "\n", .ok 2⟩

/-- Reports a source file that is not usable. -/
def unreadable (message : String) : Transcript :=
  ⟨"", "Error reading source file: " ++ message ++ "\n", .ok 1⟩

variable [Closing]

/-- Runs the bytes of a source file. -/
def runBytes (limits : Limits) (flags : Flags) (bytes : List UInt8) : Transcript :=
  match Text.Utf8.decode bytes with
  | .error fault => unreadable fault.message
  | .ok text => run limits flags (String.ofList (Text.unifyNewlines text))

/-- Runs what reading a source file gave. -/
def runSource (limits : Limits) (flags : Flags) (path : SourcePath)
    (content : Except ReadError (List UInt8)) : Transcript :=
  match content with
  | .error error => unreadable (error.message path)
  | .ok bytes => runBytes limits flags bytes

/-- A path with a NUL in it cannot be opened at all. -/
def hasNull (source : String) : Bool := source.toList.contains '\x00'

/-- How a command line is to be answered. -/
inductive Plan where
  /-- At once. -/
  | answer (transcript : Transcript)
  /-- By reading a source file and running it. -/
  | load (tokens ast : Bool) (path : SourcePath)

/-- How a command line is to be answered. -/
def plan (argv : List String) : Plan :=
  match request argv with
  | .error error => .answer (refuse error)
  | .ok .help => .answer ⟨helpText, "", .ok 0⟩
  | .ok (.run tokens ast source) =>
    if hasNull source then .answer (.ofFailure "" .embeddedNull)
    else .load tokens ast (.ofString source)

/-- Answers a command line given in a directory, with an error output that is no
terminal. -/
def respond (limits : Limits) (directory : Directory) (argv : List String) : Transcript :=
  match plan argv with
  | .answer transcript => transcript
  | .load tokens ast path =>
    runSource limits { tokens := tokens, ast := ast } path (directory.read path)

end RillLang.Command
