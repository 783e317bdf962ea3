import RillLang.Command.Path
import RillLang.Command.Respond
import RillLang.Command.Words
import RillLang.Env
import RillLang.Env.Operation
import RillLang.Env.Shadow
import RillLang.Header
import RillLang.Json.Basic
import RillLang.Json.Grammar
import RillLang.Json.Read
import RillLang.Json.Write
import RillLang.Machine.Evaluate
import RillLang.Machine.Execute
import RillLang.Machine.Fault
import RillLang.Machine.Plain
import RillLang.Machine.Register
import RillLang.Main
import RillLang.Proofs.Chain
import RillLang.Proofs.Ending
import RillLang.Proofs.Env
import RillLang.Proofs.Escape
import RillLang.Proofs.Joining
import RillLang.Proofs.Json.Read
import RillLang.Proofs.Json.Write
import RillLang.Proofs.Layout
import RillLang.Proofs.Machine.Ample
import RillLang.Proofs.Machine.Balance
import RillLang.Proofs.Machine.Bisimulation
import RillLang.Proofs.Machine.Exact
import RillLang.Proofs.Machine.Frame
import RillLang.Proofs.Machine.Lines
import RillLang.Proofs.Machine.Lookup
import RillLang.Proofs.Machine.Plain
import RillLang.Proofs.Machine.Printed
import RillLang.Proofs.Machine.Register
import RillLang.Proofs.Machine.Renaming
import RillLang.Proofs.Machine.Room
import RillLang.Proofs.Machine.Rounds
import RillLang.Proofs.Machine.Rules
import RillLang.Proofs.Machine.Scoping
import RillLang.Proofs.Machine.Spine
import RillLang.Proofs.Machine.StaysOpen
import RillLang.Proofs.Machine.Transparent
import RillLang.Proofs.Machine.Unroll
import RillLang.Proofs.Machine.Words
import RillLang.Proofs.Message
import RillLang.Proofs.Nesting
import RillLang.Proofs.Quotient
import RillLang.Proofs.Session
import RillLang.Proofs.Shadow
import RillLang.Proofs.SourceFile
import RillLang.Proofs.Streams
import RillLang.Proofs.Text.Utf8
import RillLang.Proofs.Token.Comment
import RillLang.Proofs.Token.Essence
import RillLang.Proofs.Token.Joined
import RillLang.Proofs.Token.LineBreak
import RillLang.Proofs.Token.Listing
import RillLang.Proofs.Token.Munch
import RillLang.Proofs.Token.Offence
import RillLang.Proofs.Token.Return
import RillLang.Proofs.Token.Scanned
import RillLang.Proofs.Token.Spelling
import RillLang.Proofs.Token.Written
import RillLang.Proofs.Tree.Ample
import RillLang.Proofs.Tree.Chain
import RillLang.Proofs.Tree.Completeness
import RillLang.Proofs.Tree.Cursor
import RillLang.Proofs.Tree.Dump
import RillLang.Proofs.Tree.Earliest
import RillLang.Proofs.Tree.Exactness
import RillLang.Proofs.Tree.Forms
import RillLang.Proofs.Tree.Lines
import RillLang.Proofs.Tree.Lookahead
import RillLang.Proofs.Tree.Mimicry
import RillLang.Proofs.Tree.Opening
import RillLang.Proofs.Tree.Print
import RillLang.Proofs.Tree.Progress
import RillLang.Proofs.Tree.Reader
import RillLang.Proofs.Tree.Refusal
import RillLang.Proofs.Tree.Room
import RillLang.Proofs.Tree.Soundness
import RillLang.Proofs.Tree.WellFormed
import RillLang.Proofs.Word
import RillLang.Run
import RillLang.Run.Report
import RillLang.Session
import RillLang.Text.Digit
import RillLang.Text.Newline
import RillLang.Text.Printable
import RillLang.Text.Quoted
import RillLang.Text.Utf8
import RillLang.Token.Basic
import RillLang.Token.Comment
import RillLang.Token.Listing
import RillLang.Token.Offence
import RillLang.Token.Piece
import RillLang.Token.ReadListing
import RillLang.Token.Scan
import RillLang.Token.Spelling
import RillLang.Tree.Basic
import RillLang.Tree.Chain
import RillLang.Tree.Cursor
import RillLang.Tree.Dump
import RillLang.Tree.Grammar
import RillLang.Tree.Names
import RillLang.Tree.Parse
import RillLang.Tree.Polynomial
import RillLang.Tree.Print
import RillLang.Tree.Reader
import RillLang.Tree.WellFormed
import RillLang.Word
