import RillLang.Command.Respond

/-!
# The `rill` command

Reads the source file named on the command line, answers the command, and writes
the transcript to the standard streams.
-/

namespace RillLang.Command

/-- Why the system could not read a file. -/
def readErrorOf : IO.Error → ReadError
  | .inappropriateType _ code _ => if code.toNat = 21 then .isADirectory else .notADirectory
  | .invalidArgument .. => .nameTooLong
  | _ => .missing

/-- The bytes of a file, or why it cannot be read. -/
def readFile (path : SourcePath) : IO (Except ReadError (List UInt8)) :=
  try
    let bytes ← IO.FS.readBinFile path.display
    return .ok bytes.toList
  catch e => return .error (readErrorOf e)

/-- Writes a transcript to the standard streams and gives the exit status. -/
def publish (t : Transcript) : IO UInt32 := do
  IO.print t.out
  (← IO.getStdout).flush
  IO.eprint t.err
  match t.ending with
  | .ok status => return UInt32.ofNat status
  | .error failure => do
    IO.eprintln failure.message
    return 1

end RillLang.Command

open RillLang RillLang.Command in
/-- The command. -/
def main (argv : List String) : IO UInt32 := do
  match plan argv with
  | .answer transcript => publish transcript
  | .load tokens ast path =>
    let terminal ← (← IO.getStderr).isTty
    let flags : Flags := { tokens := tokens, ast := ast, terminal := terminal }
    publish (runSource {} flags path (← readFile path))
