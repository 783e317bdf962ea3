import RillLang.Text.Digit
import RillLang.Text.Quoted

/-!
# Command words

The words of a command line ask for help, set flags, or name the source file.

* A word that starts with a dash is an option.  An option may be cut short as long
  as it is at least two dashes long and only one option starts that way.
* A single dash, a negative number, and a word with a space in it that is no option
  are operands all the same, and so is every word after the word `--`.
* The first operand is the source file.  Further operands and unknown options are
  reported together after everything else has been looked at.
* The short option for help is `-h`, and may be repeated in one word, as in `-hhh`;
  an equals sign after the first is passed over.
* No option takes a value.
-/

namespace RillLang.Command

/-- The options of the command. -/
inductive Flag where
  | help | tokens | ast
  deriving DecidableEq, Repr

namespace Flag

/-- Every option, in the order in which they are listed. -/
def all : List Flag := [help, tokens, ast]

/-- How an option is written in full. -/
def longName : Flag → String
  | help => "--help" | tokens => "--tokens" | ast => "--ast"

/-- How a message refers to an option. -/
def title : Flag → String
  | help => "-h/--help" | tokens => "--tokens" | ast => "--ast"

end Flag

/-- Why the words of a command line make no request. -/
inductive UsageError where
  /-- A shortened option that could be several. -/
  | ambiguous (word : String) (candidates : List Flag)
  /-- A value for an option that takes none. -/
  | ignoredValue (flag : Flag) (value : String)
  /-- No source file. -/
  | missingSource
  /-- Words that mean nothing. -/
  | unrecognized (words : List String)
  deriving DecidableEq, Repr

namespace UsageError

/-- The message for a usage error. -/
def message : UsageError → String
  | ambiguous word candidates =>
    "ambiguous option: " ++ word ++ " could match " ++
      ", ".intercalate (candidates.map Flag.longName)
  | ignoredValue flag value =>
    "argument " ++ flag.title ++ ": ignored explicit argument " ++ Text.quoted value
  | missingSource => "the following arguments are required: source_file"
  | unrecognized words => "unrecognized arguments: " ++ " ".intercalate words

end UsageError

/-! ## Single words -/

/-- What a word is. -/
inductive Word where
  /-- A word that names a file. -/
  | operand (text : String)
  /-- An option. -/
  | flag (flag : Flag)
  /-- An option with a value it does not take. -/
  | valued (flag : Flag) (value : String)
  /-- A word that looks like an option and is none. -/
  | unknown (text : String)
  deriving DecidableEq, Repr

/-- The part of a text before its first equals sign, and the part after it if there
is one. -/
def splitEquals (text : List Char) : List Char × Option (List Char) :=
  match text.dropWhile (· != '=') with
  | [] => (text, none)
  | _ :: value => (text.takeWhile (· != '='), some value)

/-- An option, with the value that was attached to it if there was one. -/
def withValue (flag : Flag) : Option (List Char) → Word
  | none => .flag flag
  | some value => .valued flag (String.ofList value)

/-- A word that begins with the short option for help and goes on with `tail`.  A
further `h` asks again; whatever else is left over is a value. -/
def shortHelp : List Char → Word
  | ['h'] => .flag .help
  | 'h' :: tail => shortHelp tail
  | tail => .valued .help (String.ofList tail)

/-- A minus sign and digits, with at most one point among them and a digit after the
point; a line feed may follow. -/
def isNegativeNumber : List Char → Bool
  | '-' :: rest =>
    let body := if rest.getLast? = some '\n' then rest.dropLast else rest
    match body.dropWhile Text.isDecimalDigit with
    | [] => !body.isEmpty
    | '.' :: places => !places.isEmpty && places.all Text.isDecimalDigit
    | _ => false
  | _ => false

/-- A word that starts with a dash and is no option: a negative number or a word
with a space is an operand. -/
def notAnOption (text : List Char) : Word :=
  if isNegativeNumber text || text.contains ' ' then .operand (String.ofList text)
  else .unknown (String.ofList text)

/-- The options whose full name starts with a text. -/
def flagsStartingWith (text : List Char) : List Flag :=
  Flag.all.filter fun f => text.isPrefixOf f.longName.toList

/-- A word that starts with two dashes. -/
def classifyLong (text : List Char) : Except UsageError Word :=
  let (name, value) := splitEquals text
  match Flag.all.find? fun f => f.longName.toList == name with
  | some flag => .ok (withValue flag value)
  | none =>
    match flagsStartingWith name with
    | [] => .ok (notAnOption text)
    | [flag] => .ok (withValue flag value)
    | flags => .error (.ambiguous (String.ofList text) flags)

/-- What a word before `--` is. -/
def classify (text : List Char) : Except UsageError Word :=
  match text with
  | ['-'] => .ok (.operand "-")
  | '-' :: '-' :: _ => classifyLong text
  | ['-', 'h'] => .ok (.flag .help)
  | '-' :: 'h' :: '=' :: tail => .ok (shortHelp tail)
  | '-' :: 'h' :: tail => .ok (shortHelp tail)
  | '-' :: _ => .ok (notAnOption text)
  | _ => .ok (.operand (String.ofList text))

/-! ## Whole command lines -/

/-- What the command is asked to do. -/
inductive Request where
  /-- Show the help text. -/
  | help
  /-- Run a source file. -/
  | run (tokens ast : Bool) (source : String)
  deriving DecidableEq, Repr

/-- What is known after some words. -/
structure Progress where
  /-- The source file. -/
  source : Option String := none
  /-- The tokens are to be shown. -/
  tokens : Bool := false
  /-- The tree is to be shown. -/
  ast : Bool := false
  /-- The words that mean nothing. -/
  extras : List String := []
  /-- The last word was the source file. -/
  justNamed : Bool := false

namespace Progress

/-- A word that means nothing. -/
def extra (p : Progress) (text : String) : Progress :=
  { p with extras := p.extras ++ [text], justNamed := false }

/-- An operand: the source file, if there is none yet. -/
def operand (p : Progress) (text : String) : Progress :=
  match p.source with
  | none => { p with source := some text, justNamed := true }
  | some _ => p.extra text

/-- The word `--` and the operands after it.  The word itself is dropped when it
comes right after the source file or right before it; otherwise it means nothing. -/
def separator (p : Progress) (rest : List String) : Progress :=
  match p.source, rest with
  | some _, rest =>
    { p with extras := p.extras ++ (if p.justNamed then rest else "--" :: rest) }
  | none, [] => p.extra "--"
  | none, source :: rest => { p with source := some source, extras := p.extras ++ rest }

/-- What is asked for when all words have been looked at. -/
def finish (p : Progress) : Except UsageError Request :=
  match p.source with
  | none => .error .missingSource
  | some source =>
    if p.extras.isEmpty then .ok (.run p.tokens p.ast source)
    else .error (.unrecognized p.extras)

end Progress

/-- Looks at the words before `--`, then at the rest. -/
def follow (p : Progress) (separated : Option (List String)) :
    List Word → Except UsageError Request
  | [] =>
    match separated with
    | none => p.finish
    | some rest => (p.separator rest).finish
  | .operand text :: words => follow (p.operand text) separated words
  | .unknown text :: words => follow (p.extra text) separated words
  | .valued flag value :: _ => .error (.ignoredValue flag value)
  | .flag .help :: _ => .ok .help
  | .flag .tokens :: words =>
    follow { p with tokens := true, justNamed := false } separated words
  | .flag .ast :: words => follow { p with ast := true, justNamed := false } separated words

/-- The words before the first `--`, and the words after it if there is one. -/
def splitWords (argv : List String) : List String × Option (List String) :=
  match argv.dropWhile (· != "--") with
  | [] => (argv, none)
  | _ :: rest => (argv.takeWhile (· != "--"), some rest)

/-- What a command line asks for. -/
def request (argv : List String) : Except UsageError Request :=
  let (front, separated) := splitWords argv
  match front.mapM fun word => classify word.toList with
  | .error error => .error error
  | .ok words => follow {} separated words

end RillLang.Command
