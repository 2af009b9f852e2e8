/-!
# Directories

A tree of files, seen from the directory in which a command is run, and the reading of a text
file at a path in it. Nothing is known of the world outside that directory.
-/

namespace Intcode

/-- Why a file cannot be read as text. -/
inductive ReadError
  /-- The system refuses, for a reason that has a number. -/
  | system (reason : String) (code : Nat)
  /-- The path has a zero character, which no name has. -/
  | zeroInName
  /-- The file does not hold UTF-8. -/
  | notText
deriving DecidableEq, Repr

namespace ReadError

/-- Nothing stands at the path. -/
def notFound : ReadError := system "No such file or directory" 2

/-- The path leads through a file. -/
def notDirectory : ReadError := system "Not a directory" 20

/-- The path leads to a directory. -/
def isDirectory : ReadError := system "Is a directory" 21

/-- The path, or a name in it, is too long. -/
def nameTooLong : ReadError := system "File name too long" 36

/-- Put a reason into words. -/
def message : ReadError → String
  | system reason code => reason ++ " (os error " ++ toString code ++ ")"
  | zeroInName => "file name contained an unexpected NUL byte"
  | notText => "stream did not contain valid UTF-8"

end ReadError

/-- What a name in a directory stands for. -/
inductive Entry
  | file (bytes : ByteArray)
  | directory

/-- The entries of a directory and of those below it, by their paths. -/
structure Directory where
  entries : List (List String × Entry)

namespace Directory

/-- The longest name that a directory can hold, in bytes. -/
def maxName : Nat := 255

/-- The longest path that can be looked up, in bytes. -/
def maxPath : Nat := 4095

/-- Cut a path at every slash. -/
def components (path : String) : List String := path.splitOn "/"

/-- A directory with the given entries. -/
def ofList (entries : List (String × Entry)) : Directory :=
  ⟨entries.map fun (path, e) => (components path, e)⟩

/-- What a path of names stands for. The way to an entry leads through directories. -/
def find? (d : Directory) (names : List String) : Option Entry :=
  match d.entries.lookup names with
  | some e => some e
  | none => if d.entries.any fun e => names.isPrefixOf e.1 then some .directory else none

/-- A place to look a name up in: a directory of the tree, or one outside. -/
inductive Place
  | inside (names : List String)
  | outside

/-- Follow the parts of a path. An empty part or a dot stays, and two dots go up. -/
def follow (d : Directory) : Place → List String → Except ReadError ByteArray
  | _, [] => .error .isDirectory
  | place, "" :: rest => follow d place rest
  | place, "." :: rest => follow d place rest
  | .outside, ".." :: rest => follow d .outside rest
  | .inside [], ".." :: rest => follow d .outside rest
  | .inside names, ".." :: rest => follow d (.inside names.dropLast) rest
  | .outside, name :: _ =>
    if maxName < name.utf8ByteSize then .error .nameTooLong else .error .notFound
  | .inside names, name :: rest =>
    if maxName < name.utf8ByteSize then .error .nameTooLong
    else
      match d.find? (names ++ [name]) with
      | none => .error .notFound
      | some .directory => follow d (.inside (names ++ [name])) rest
      | some (.file bytes) => if rest.isEmpty then .ok bytes else .error .notDirectory

/-- The bytes of the file at a path. -/
def readBytes (d : Directory) (path : String) : Except ReadError ByteArray :=
  if path.any (· == '\x00') then .error .zeroInName
  else if maxPath < path.utf8ByteSize then .error .nameTooLong
  else if path.isEmpty then .error .notFound
  else follow d (if path.startsWith "/" then .outside else .inside []) (components path)

end Directory

/-- Take the bytes of a file for text. -/
def decodeText (bytes : ByteArray) : Except ReadError String :=
  match String.fromUTF8? bytes with
  | some s => .ok s
  | none => .error .notText

/-- The text of the file at a path. -/
def Directory.readText (d : Directory) (path : String) : Except ReadError String := do
  decodeText (← d.readBytes path)

end Intcode
