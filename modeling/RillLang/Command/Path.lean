import RillLang.Text.Quoted

/-!
# Paths and a directory in memory

A path is a root and a list of names.  Repeated and trailing slashes and the name
`.` leave no trace in it; the name `..` does.  A path without a root and names is
the current directory, `.`.

A `Directory` holds the files and folders below the current directory.  Reading a
path follows its names one by one, and the first that cannot be followed is the
reason why it cannot be read.
-/

namespace RillLang.Command

/-- A path. -/
structure SourcePath where
  /-- The slashes an absolute path starts with: one, or exactly two. -/
  root : String
  /-- The names from the root or the current directory on. -/
  names : List String
  deriving DecidableEq, Repr

namespace SourcePath

/-- The root of a path: exactly two slashes at the start are kept, any other number
counts as one. -/
def rootOf (text : List Char) : String :=
  match (text.takeWhile (· == '/')).length with
  | 0 => ""
  | 2 => "//"
  | _ => "/"

/-- The path a text stands for. -/
def ofString (text : String) : SourcePath where
  root := rootOf text.toList
  names :=
    ((text.toList.splitOn '/').map String.ofList).filter fun name => name != "" && name != "."

/-- The text of a path. -/
def display (p : SourcePath) : String :=
  if p.root == "" && p.names.isEmpty then "."
  else p.root ++ "/".intercalate p.names

end SourcePath

/-- Why a file cannot be read. -/
inductive ReadError where
  | missing | notADirectory | isADirectory | nameTooLong
  deriving DecidableEq, Repr

namespace ReadError

/-- The number of a reason. -/
def number : ReadError → Nat
  | missing => 2 | notADirectory => 20 | isADirectory => 21 | nameTooLong => 36

/-- The description of a reason. -/
def description : ReadError → String
  | missing => "No such file or directory"
  | notADirectory => "Not a directory"
  | isADirectory => "Is a directory"
  | nameTooLong => "File name too long"

/-- The message for a path that cannot be read. -/
def message (e : ReadError) (path : SourcePath) : String :=
  "[Errno " ++ toString e.number ++ "] " ++ e.description ++ ": " ++ Text.quoted path.display

end ReadError

/-- The files and folders below the current directory, each with its names from
there on. -/
structure Directory where
  /-- The folders. -/
  folders : List (List String)
  /-- The files and their bytes. -/
  files : List (List String × List UInt8)

namespace Directory

/-- Where following a path has led. -/
inductive Place where
  /-- A folder below the current directory, or the current directory itself. -/
  | folder (names : List String)
  /-- A file. -/
  | file (bytes : List UInt8)
  /-- A directory elsewhere, of which nothing is known. -/
  | elsewhere

/-- A name may take this many bytes. -/
def nameLimit : Nat := 255

/-- A path may take this many bytes. -/
def pathLimit : Nat := 4095

/-- What stands at some names below the current directory. -/
def find (d : Directory) (names : List String) : Except ReadError Place :=
  match d.files.find? fun f => f.1 == names with
  | some f => .ok (.file f.2)
  | none =>
    if d.folders.any names.isPrefixOf || d.files.any (fun f => names.isPrefixOf f.1) then
      .ok (.folder names)
    else .error .missing

/-- Follows one name. -/
def enter (d : Directory) (place : Place) (name : String) : Except ReadError Place :=
  match place with
  | .file _ => .error .notADirectory
  | .folder names =>
    if nameLimit < name.utf8ByteSize then .error .nameTooLong
    else if name == ".." then
      if names.isEmpty then .ok .elsewhere else .ok (.folder names.dropLast)
    else d.find (names ++ [name])
  | .elsewhere =>
    if nameLimit < name.utf8ByteSize then .error .nameTooLong
    else if name == ".." then .ok .elsewhere
    else .error .missing

/-- The bytes of the file at a path. -/
def read (d : Directory) (path : SourcePath) : Except ReadError (List UInt8) := do
  if pathLimit < path.display.utf8ByteSize then throw .nameTooLong
  let start : Place := if path.root == "" then .folder [] else .elsewhere
  match ← path.names.foldlM (enter d) start with
  | .file bytes => return bytes
  | _ => throw .isADirectory

end Directory

end RillLang.Command
