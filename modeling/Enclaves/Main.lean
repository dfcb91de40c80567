import Enclaves.Console.Run
/-!
# The program

The host that is the machine itself, and the command line on it. Files and random bytes come from
the system, what is printed goes to standard output, and errors go to standard error.
-/

namespace Enclaves.Console

/-- A fault of the system as a file fault. What is of the wrong kind is no directory, unless the
number says that it is one. -/
def faultOfSystem : IO.Error → FileFault
  | .noFileOrDirectory .. => .notFound
  | .alreadyExists .. => .alreadyThere
  | .inappropriateType _ number _ => if number = 21 then .isDirectory else .notDirectory
  | .permissionDenied .. => .permissionDenied
  | .invalidArgument _ 36 _ => .nameTooLong
  | error => .system (toString error) 0

/-- Something done with the system's files. -/
def onSystem {α : Type} (action : IO α) : IO (Except FileFault α) := do
  match ← action.toBaseIO with
  | .ok a => return .ok a
  | .error error => return .error (faultOfSystem error)

instance : Host IO where
  readFile path := onSystem do return (← IO.FS.readBinFile path).data.toList
  writeFile path bytes := onSystem (IO.FS.writeBinFile path ⟨bytes.toArray⟩)
  makeDirectories path := onSystem do
    try IO.FS.createDirAll path
    catch _ => IO.FS.createDir path
  randomBytes count := do return (← IO.getRandomBytes (.ofNat count)).data.toList
  print text := do IO.print text

end Enclaves.Console

open Enclaves.Console in
def main (words : List String) : IO UInt32 := do
  let outcome ← run words
  match outcome with
  | .done => pure ()
  | .failed error => IO.eprintln ("  Error: " ++ error.message)
  | .misused fault => IO.eprintln ("error: " ++ fault.message)
  return outcome.code.toUInt32
