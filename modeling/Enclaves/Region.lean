import Enclaves.Hex
/-!
# Memory regions

A region is a range of addresses with what may be done to it and what it is for. `Region.make` is
the checked way to build one: not empty, aligned to pages at both ends, and below 2⁶⁴ to its end.
`Region.Valid` says the same as a property. Regions that come out of a document are not checked, so
the type itself does not promise it.
-/

namespace Enclaves

/-- Bytes in a page. -/
def pageSize : Nat := 4096

/-- Addresses and lengths lie below this. -/
def addressLimit : Nat := UInt64.size

/-- The pages that some bytes need. -/
def pagesFor (bytes : Nat) : Nat := (bytes + (pageSize - 1)) / pageSize

/-- A number of bytes rounded up to whole pages. -/
def pageRoundUp (bytes : Nat) : Nat := pagesFor bytes * pageSize

/-- Rounding never takes anything away. -/
theorem le_pageRoundUp (bytes : Nat) : bytes ≤ pageRoundUp bytes := by
  simp only [pageRoundUp, pagesFor, pageSize]; omega

/-- What may be done to a region. -/
inductive Permission where
  | readWriteExecute
  | readWrite
  deriving DecidableEq, Repr

def Permission.names : List (String × Permission) :=
  [("ReadWriteExecute", .readWriteExecute), ("ReadWrite", .readWrite)]

def Permission.name : Permission → String
  | .readWriteExecute => "ReadWriteExecute"
  | .readWrite => "ReadWrite"

/-- What a region is for: an enclave's own code and data, memory shared with the host, or memory
that a connected peer writes to. -/
inductive RegionKind where
  | exclusive
  | untrusted
  | connector
  deriving DecidableEq, Repr

def RegionKind.names : List (String × RegionKind) :=
  [("Exclusive", .exclusive), ("Untrusted", .untrusted), ("Connector", .connector)]

def RegionKind.name : RegionKind → String
  | .exclusive => "Exclusive"
  | .untrusted => "Untrusted"
  | .connector => "Connector"

/-- A range of addresses, its permission and its use. -/
structure Region where
  base : Nat
  size : Nat
  permission : Permission
  kind : RegionKind
  deriving DecidableEq, Repr

/-- Why a range is no region. -/
inductive RegionFault where
  | empty (kind : RegionKind)
  | misaligned (kind : RegionKind) (base size : Nat)
  | wraps (kind : RegionKind) (base size : Nat)
  deriving DecidableEq, Repr

def RegionFault.message : RegionFault → String
  | .empty kind => kind.name ++ " region has zero length"
  | .misaligned kind base size =>
    kind.name ++ " region " ++ Hex.address base ++ "+" ++ Hex.address size ++
      " is not page aligned"
  | .wraps kind base size =>
    kind.name ++ " region " ++ Hex.address base ++ "+" ++ Hex.address size ++ " wraps"

namespace Region

/-- One past the last address. -/
def stop (r : Region) : Nat := r.base + r.size

def pages (r : Region) : Nat := r.size / pageSize

def isEmpty (r : Region) : Bool := r.size == 0

/-- What every region that the monitor hands out satisfies. -/
structure Valid (r : Region) : Prop where
  size_pos : 0 < r.size
  base_aligned : r.base % pageSize = 0
  size_aligned : r.size % pageSize = 0
  stop_lt : r.stop < addressLimit

/-- The checked way to build a region. -/
def make (base size : Nat) (permission : Permission) (kind : RegionKind) :
    Except RegionFault Region :=
  if size = 0 then .error (.empty kind)
  else if base % pageSize ≠ 0 ∨ size % pageSize ≠ 0 then .error (.misaligned kind base size)
  else if addressLimit ≤ base + size then .error (.wraps kind base size)
  else .ok ⟨base, size, permission, kind⟩

/-- The checks are the property, and a region is built as it was asked for. -/
theorem make_eq_ok_iff {base size : Nat} {permission : Permission} {kind : RegionKind}
    {r : Region} :
    make base size permission kind = .ok r ↔ r = ⟨base, size, permission, kind⟩ ∧ r.Valid := by
  unfold make
  constructor
  · intro h
    split at h
    · simp at h
    · split at h
      · simp at h
      · split at h
        · simp at h
        · simp only [Except.ok.injEq] at h
          subst h
          refine ⟨rfl, ?_, ?_, ?_, ?_⟩ <;> simp only [stop] at * <;> omega
  · rintro ⟨rfl, hsize, hbase, haligned, hstop⟩
    simp only [stop] at hsize hbase haligned hstop
    rw [if_neg (by omega), if_neg (by omega), if_neg (by omega)]

def contains (r : Region) (address : Nat) : Bool := r.base ≤ address && address < r.stop

def overlaps (r other : Region) : Bool := r.base < other.stop && other.base < r.stop

/-- A region as shown in messages. -/
def describe (r : Region) : String :=
  r.kind.name ++ "[" ++ Hex.address r.base ++ ".." ++ Hex.address r.stop ++ ") " ++
    r.permission.name

end Region

end Enclaves
