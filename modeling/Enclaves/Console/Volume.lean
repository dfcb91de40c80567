import Enclaves.Bytes
import Enclaves.FileFault
/-!
# Files in memory

A volume answers paths the way a file system does. A path is a text of names between slashes; it
starts at the root if its first character is a slash and in the working directory if not. `.` and
the empty name stay, `..` goes up and stays at the root, and only a directory can be gone through.
The first obstacle on the way is the answer, so the lengths of the names behind it do not matter;
the length of the path as a whole is looked at before anything else.
-/

namespace Enclaves.Console

/-- The longest name, in bytes. -/
def nameMax : Nat := 255

/-- The longest path, in bytes. -/
def pathMax : Nat := 4095

/-- The names on the way from the root, the outermost first. -/
abbrev Location := List String

/-- Files and directories; the root is always there. -/
structure Volume where
  directories : List Location
  files : List (Location × Bytes)
  deriving DecidableEq

namespace Volume

/-- Where paths start that do not start at the root. -/
def workingDirectory : Location := ["tmp", "bench"]

/-- A working directory with nothing in it, and the device that is empty everywhere. -/
def empty : Volume :=
  ⟨[["tmp"], workingDirectory, ["dev"]], [(["dev", "null"], [])]⟩

def isDirectory (v : Volume) (location : Location) : Bool :=
  location.isEmpty || v.directories.contains location

def file? (v : Volume) (location : Location) : Option Bytes := v.files.lookup location

/-! ## Paths -/

/-- Go on by one name. -/
def step (v : Volume) (location : Location) (name : String) : Except FileFault Location :=
  if !v.isDirectory location then
    .error (if (v.file? location).isSome then .notDirectory else .notFound)
  else if name = "" ∨ name = "." then .ok location
  else if name = ".." then .ok location.dropLast
  else if nameMax < name.utf8ByteSize then .error .nameTooLong
  else .ok (location ++ [name])

/-- Where a path starts, and the names in it. -/
def names (path : String) : Except FileFault (Location × List String) :=
  if '\x00' ∈ path.toList then .error .zeroByte
  else if path.isEmpty then .error .notFound
  else if pathMax < path.utf8ByteSize then .error .nameTooLong
  else
    .ok (if path.toList.head? = some '/' then [] else workingDirectory, path.splitOn "/")

/-- Where a path leads. Nothing need be there, but all on the way to it. -/
def locate (v : Volume) (path : String) : Except FileFault Location :=
  match names path with
  | .error fault => .error fault
  | .ok (start, names) => names.foldlM v.step start

/-! ## Operations

What changes a volume answers with a volume even where it fails, since what was made before the
failure is there. -/

def read (v : Volume) (path : String) : Except FileFault Bytes :=
  match v.locate path with
  | .error fault => .error fault
  | .ok location =>
    match v.file? location with
    | some bytes => .ok bytes
    | none => .error (if v.isDirectory location then .isDirectory else .notFound)

def write (v : Volume) (path : String) (bytes : Bytes) : Except FileFault Unit × Volume :=
  match v.locate path with
  | .error fault => (.error fault, v)
  | .ok location =>
    if v.isDirectory location then (.error .isDirectory, v)
    else
      (.ok (), { v with files := (location, bytes) :: v.files.filter (·.1 ≠ location) })

/-- Make the directories that names lead through, from a directory on. A file in the way is met as
something to go through as long as nothing was missing; once something had to be made, and at the
last name, it is met as something to make. -/
def makeFrom (made : Bool) (v : Volume) (location : Location) :
    (names : List String) → Except FileFault Unit × Volume
  | [] => (.ok (), v)
  | name :: rest =>
    match v.step location name with
    | .error fault => (.error fault, v)
    | .ok next =>
      if v.isDirectory next then makeFrom made v next rest
      else if (v.file? next).isSome then
        (.error (if made ∨ rest.isEmpty then .alreadyThere else .notDirectory), v)
      else makeFrom true { v with directories := next :: v.directories } next rest

/-- The names of a path that do not stay. -/
def moves (names : List String) : List String := names.filter fun name => name ≠ "" ∧ name ≠ "."

/-- Make a directory and those above it, as far as they are missing. -/
def makeDirectories (v : Volume) (path : String) : Except FileFault Unit × Volume :=
  match names path with
  | .error fault => (.error fault, v)
  | .ok (start, names) => makeFrom false v start (moves names)

/-- Write a file after the directories above it were made. -/
def store (v : Volume) (path : String) (bytes : Bytes) : Except FileFault Unit × Volume :=
  match names path with
  | .error fault => (.error fault, v)
  | .ok (start, names) =>
    match makeFrom false v start (moves names).dropLast with
    | (.error fault, v) => (.error fault, v)
    | (.ok (), v) => v.write path bytes

/-- The files below the working directory, by their paths from there. -/
def contents (v : Volume) : List (String × Bytes) :=
  (v.files.filter fun file => workingDirectory.isPrefixOf file.1).map fun file =>
    ("/".intercalate (file.1.drop workingDirectory.length), file.2)

end Volume

end Enclaves.Console
