/-! # Directories

A directory holds files and further directories, found by the names on the way to them. Reading and
writing fail for the reasons a file system has. There are neither links nor permissions, and a write
that succeeds is whole: one that stops midway, as on a full disk, is left out. -/
namespace FormulaBinding

/-- Why a file cannot be read or written. -/
inductive FileError where
  | notFound
  | notDirectory
  | isDirectory
  | alreadyExists
  | nameTooLong
  | badName
  | notText
  deriving DecidableEq, Repr, Inhabited

def FileError.message : FileError → String
  | notFound => "No such file or directory (os error 2)"
  | notDirectory => "Not a directory (os error 20)"
  | isDirectory => "Is a directory (os error 21)"
  | alreadyExists => "File exists (os error 17)"
  | nameTooLong => "File name too long (os error 36)"
  | badName => "file name contained an unexpected NUL byte"
  | notText => "stream did not contain valid UTF-8"

/-- The names of a path. Two points lead back, and a path that ends in a point or in a slash, which
is an empty last name, has to lead to a directory. -/
abbrev FilePath := List String

namespace FilePath

/-- Whether a name leads nowhere else: it is empty, or a single point. -/
def isStill (name : String) : Bool := name == "" || name == "."

/-- The name that stands for everything outside of the directory, which holds nothing. -/
def outside : String := "/"

/-- The path of a text. Names that lead nowhere else count only at the end. -/
def ofText (text : String) : FilePath :=
  let names := text.splitOn "/"
  (if text.startsWith "/" then [outside] else []) ++ names.dropLast.filter (!isStill ·) ++
    names.drop (names.length - 1)

def append (folder path : FilePath) : FilePath :=
  if path.head? = some outside then path else folder.filter (!isStill ·) ++ path

def text (path : FilePath) : String := String.intercalate "/" path

def nameLimit : Nat := 255

def check (path : FilePath) : Except FileError Unit :=
  if path.any fun name => '\x00' ∈ name.toList then .error .badName else .ok ()

end FilePath

/-- What a path leads to. -/
inductive FileNode where
  | file (content : ByteArray)
  | directory

/-- A directory with everything inside it, by the names of their place. -/
structure Directory where
  nodes : List (List String × FileNode) := []

namespace Directory

def find? (d : Directory) (place : List String) : Option FileNode :=
  if place = [] then some .directory else d.nodes.lookup place

def put (d : Directory) (place : List String) (node : FileNode) : Directory :=
  ⟨(place, node) :: d.nodes.filter (·.1 ≠ place)⟩

def lookup (d : Directory) (place : List String) (name : String) :
    Except FileError (Option FileNode) :=
  if FilePath.nameLimit < name.utf8ByteSize then .error .nameTooLong
  else .ok (d.find? (place ++ [name]))

/-- Goes along names from a place, each of which has to lead to a directory. -/
def enter (d : Directory) (place : List String) : List String → Except FileError (List String)
  | [] => .ok place
  | name :: names =>
    if FilePath.isStill name then d.enter place names
    else if name = ".." then d.enter place.dropLast names
    else
      match d.lookup place name with
      | .error e => .error e
      | .ok none => .error .notFound
      | .ok (some (.file _)) => .error .notDirectory
      | .ok (some .directory) => d.enter (place ++ [name]) names

/-- A path as the names of the directories on the way, its last name, and whether a slash ends
it. -/
def split (path : FilePath) : List String × String × Bool :=
  let slash := path.getLast? == some ""
  let names := if slash then path.dropLast else path
  (names.dropLast, names.getLast?.getD "", slash)

def read (d : Directory) (path : FilePath) : Except FileError ByteArray := do
  path.check
  let (above, name, slash) := split path
  let place ← d.enter [] above
  if FilePath.isStill name || name == ".." then throw .isDirectory
  match ← d.lookup place name with
  | some (.file content) => if slash then throw .notDirectory else return content
  | some .directory => throw .isDirectory
  | none => throw .notFound

def readText (d : Directory) (path : FilePath) : Except FileError String := do
  match String.fromUTF8? (← d.read path) with
  | some s => return s
  | none => throw .notText

def write (d : Directory) (path : FilePath) (content : ByteArray) : Except FileError Directory := do
  path.check
  let (above, name, slash) := split path
  let place ← d.enter [] above
  if slash || FilePath.isStill name || name == ".." then throw .isDirectory
  match ← d.lookup place name with
  | some .directory => throw .isDirectory
  | _ => return d.put (place ++ [name]) (.file content)

/-- Makes directories along names from a place where there are none; those that are made before one
cannot be made stay. -/
def makeFrom (d : Directory) (place : List String) : List String → Directory × Except FileError Unit
  | [] => (d, .ok ())
  | name :: names =>
    if FilePath.isStill name then d.makeFrom place names
    else if name = ".." then d.makeFrom place.dropLast names
    else
      match d.lookup place name with
      | .error e => (d, .error e)
      | .ok (some .directory) => d.makeFrom (place ++ [name]) names
      | .ok (some (.file _)) =>
        (d, .error (if names = [] ∨ names = [""] then .alreadyExists else .notDirectory))
      | .ok none =>
        if names = ["."] then (d, .error .notFound)
        else (d.put (place ++ [name]) .directory).makeFrom (place ++ [name]) names

def makeAll (d : Directory) (path : FilePath) : Directory × Except FileError Unit :=
  match path.check with
  | .error e => (d, .error e)
  | .ok () => d.makeFrom [] path

end Directory
end FormulaBinding
