import Enclaves.Console.Volume
/-!
# What a command needs around it

Files, a source of random bytes, and a place to print to. Commands are written for any host; the
program runs them on the machine, and `Bench` is a host of its own, in memory.
-/

namespace Enclaves.Console

/-- A place in which commands run. -/
class Host (m : Type → Type) extends Monad m where
  readFile : (path : String) → m (Except FileFault Bytes)
  writeFile : (path : String) → Bytes → m (Except FileFault Unit)
  /-- Make a directory and those above it, as far as they are missing. -/
  makeDirectories : (path : String) → m (Except FileFault Unit)
  randomBytes : (count : Nat) → m Bytes
  print : String → m Unit

/-- A path below a directory. -/
def joinPath (directory path : String) : String :=
  if directory.toList.getLast? = some '/' then directory ++ path else directory ++ "/" ++ path

/-! ## A host in memory -/

/-- Files, what was printed (the newest first), and how many random bytes were drawn. -/
structure Bench where
  volume : Volume
  printed : List String
  drawn : Nat

namespace Bench

def ofVolume (volume : Volume) : Bench := ⟨volume, [], 0⟩

/-- All that was printed. -/
def output (s : Bench) : String := String.join s.printed.reverse

/-- The bytes of a counter stand in for random ones; two draws in a row differ. -/
def draw (s : Bench) (count : Nat) : Bytes × Bench :=
  ((List.range count).map fun i => UInt8.ofNat (s.drawn + i), { s with drawn := s.drawn + count })

/-- Change the volume. -/
def update (change : Volume → Except FileFault Unit × Volume) (s : Bench) :
    Except FileFault Unit × Bench :=
  let (result, volume) := change s.volume
  (result, { s with volume })

instance : Host (StateM Bench) where
  readFile path := fun s => (s.volume.read path, s)
  writeFile path bytes := update fun v => v.write path bytes
  makeDirectories path := update fun v => v.makeDirectories path
  randomBytes count := fun s => s.draw count
  print text := fun s => ((), { s with printed := text :: s.printed })

end Bench

end Enclaves.Console
