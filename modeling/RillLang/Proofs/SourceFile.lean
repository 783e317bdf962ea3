import RillLang.Command.Respond
import RillLang.Proofs.Text.Utf8
import RillLang.Proofs.Token.Return

/-!
# Running a source file

A file that holds the bytes of a text is run as the text is, but for the style of its line
ends.

* `runBytes_encode` — what is run is the text with its line ends turned into line feeds.
* `Command.respond_eq_run` — in a text where no carriage return stands alone, that changes
  nothing: the command answers with the run of the text.
-/

namespace RillLang

open Text (NoLoneReturn dropReturns unifyNewlines)
open Text.Utf8 (encode)

/-- A run looks at its text through the tokens only. -/
theorem run_congr [Closing] {s s' : String} (h : Token.scan s = Token.scan s') (limits : Limits)
    (flags : Flags) : run limits flags s = run limits flags s' := by
  rw [run, run, h]

/-- A text where no carriage return stands alone is run alike after its line ends have been
made line feeds. -/
theorem run_unifyNewlines [Closing] {text : String} (h : NoLoneReturn text.toList) (limits : Limits)
    (flags : Flags) :
    run limits flags (String.ofList (unifyNewlines text.toList)) = run limits flags text := by
  rw [Text.unifyNewlines_eq_dropReturns h]
  exact run_congr (Token.scan_dropReturns text) limits flags

namespace Command

/-- The bytes of a text are run as the text with its line ends turned into line feeds. -/
theorem runBytes_encode [Closing] (limits : Limits) (flags : Flags) (text : String) :
    runBytes limits flags (encode text) =
      run limits flags (String.ofList (unifyNewlines text.toList)) := by
  rw [runBytes, Text.Utf8.decode_encode]

/-- A command line that names a file with the bytes of a text is answered with the run of the
text after its line ends have been made line feeds. -/
theorem respond_encode [Closing] {directory : Directory} {argv : List String} {tokens ast : Bool}
    {path : SourcePath} {text : String} (hplan : plan argv = .load tokens ast path)
    (hfile : directory.read path = .ok (encode text)) (limits : Limits) :
    respond limits directory argv = run limits { tokens := tokens, ast := ast }
      (String.ofList (unifyNewlines text.toList)) := by
  rw [respond, hplan]
  dsimp only
  rw [hfile]
  exact runBytes_encode limits _ text

/-- **A source file is run as its text.**  In a text every carriage return of which is
immediately followed by a line feed, each of these pairs can be made a line feed without a
difference to the tokens, their lines or the error.  And a command line that names a file with
the bytes of the text is answered as the text is run with the flags of the command line: with
the same output, the same error output and the same exit status. -/
theorem respond_eq_run [Closing] {text : String} (hreturns : NoLoneReturn text.toList) :
    Token.scan (String.ofList (dropReturns text.toList)) = Token.scan text ∧
      ∀ (limits : Limits) (directory : Directory) (argv : List String) (tokens ast : Bool)
        (path : SourcePath), plan argv = .load tokens ast path →
        directory.read path = .ok (encode text) →
        respond limits directory argv = run limits { tokens := tokens, ast := ast } text := by
  refine ⟨Token.scan_dropReturns text, fun limits directory argv tokens ast path hplan hfile => ?_⟩
  rw [respond_encode hplan hfile, run_unifyNewlines hreturns]

/-- Carriage returns in a gap, at the end of a comment with a letter of two bytes, and after a
character that is no token. -/
theorem respond_return_stray :
    Token.scan "1\n// é\n@\n" = Token.scan "1\r\n// é\r\n@\r\n" ∧
      respond {} ⟨[], [(["a.rill"], [0x31, 0x0d, 0x0a, 0x2f, 0x2f, 0x20, 0xc3, 0xa9, 0x0d, 0x0a,
        0x40, 0x0d, 0x0a])]⟩ ["--tok", "./a.rill"] =
        run {} { tokens := true } "1\r\n// é\r\n@\r\n" := by
  have hreturns : NoLoneReturn "1\r\n// é\r\n@\r\n".toList := by decide
  have hencode : [0x31, 0x0d, 0x0a, 0x2f, 0x2f, 0x20, 0xc3, 0xa9, 0x0d, 0x0a, 0x40, 0x0d, 0x0a] =
      encode "1\r\n// é\r\n@\r\n" := by
    rw [Text.Utf8.encode_eq_flatMap]
    decide
  have hplan : plan ["--tok", "./a.rill"] = .load true false ⟨"", ["a.rill"]⟩ := rfl
  have hread (bytes : List UInt8) :
      Directory.read ⟨[], [(["a.rill"], bytes)]⟩ ⟨"", ["a.rill"]⟩ = .ok bytes := rfl
  obtain ⟨hscan, hrespond⟩ := respond_eq_run hreturns
  rw [hencode]
  exact ⟨hscan, hrespond {} _ _ true false _ hplan (hread _)⟩

end Command

end RillLang
