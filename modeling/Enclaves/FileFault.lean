/-!
# Why a file cannot be read or written

What a file system answers, with its number, and two faults that it is not asked about: a path that
cannot be handed to it, and contents that are no text.
-/

namespace Enclaves

inductive FileFault where
  | system (reason : String) (number : Nat)
  | zeroByte
  | notText
  deriving DecidableEq, Repr

namespace FileFault

def message : FileFault → String
  | .system reason number => s!"{reason} (os error {number})"
  | .zeroByte => "file name contained an unexpected NUL byte"
  | .notText => "stream did not contain valid UTF-8"

def notFound : FileFault := .system "No such file or directory" 2
def permissionDenied : FileFault := .system "Permission denied" 13
def alreadyThere : FileFault := .system "File exists" 17
def notDirectory : FileFault := .system "Not a directory" 20
def isDirectory : FileFault := .system "Is a directory" 21
def nameTooLong : FileFault := .system "File name too long" 36

end FileFault

end Enclaves
