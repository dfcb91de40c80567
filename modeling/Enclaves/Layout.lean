import Enclaves.Region
/-!
# Layouts

Where an image lies inside the exclusive region of its enclave: loader, runtime and application one
after the other, then free memory. `validate` refuses with the first check that fails, in the order
alignment, order, start, end, overlap; `WellPlaced` is what it accepts when no other region is near.
-/

namespace Enclaves

/-- The start addresses of the three segments and of what is free behind them. -/
structure Layout where
  loader : Nat
  runtime : Nat
  app : Nat
  free : Nat
  deriving DecidableEq, Repr

/-- A start address, by its name. -/
inductive Boundary where
  | loader
  | runtime
  | app
  | free
  deriving DecidableEq, Repr

def Boundary.name : Boundary → String
  | .loader => "loader"
  | .runtime => "runtime"
  | .app => "application"
  | .free => "free"

/-- Why a layout is refused, or an image under it cannot be measured. -/
inductive LayoutFault where
  | misaligned (boundary : Boundary) (address : Nat)
  | outOfOrder (low : Boundary) (lowAddress : Nat) (high : Boundary) (highAddress : Nat)
  | startsElsewhere (loader base : Nat)
  | endsBeyond (free stop : Nat)
  | noRegion (fault : RegionFault)
  | overlaps (image other : Region)
  | memorySize (memory region : Nat)
  deriving DecidableEq, Repr

def LayoutFault.message : LayoutFault → String
  | .misaligned boundary address =>
    boundary.name ++ " base " ++ Hex.address address ++ " is not page aligned"
  | .outOfOrder low lowAddress high highAddress =>
    low.name ++ " base " ++ Hex.address lowAddress ++ " must lie below " ++ high.name ++
      " base " ++ Hex.address highAddress
  | .startsElsewhere loader base =>
    "loader base " ++ Hex.address loader ++ " does not start the exclusive region at " ++
      Hex.address base
  | .endsBeyond free stop =>
    "free base " ++ Hex.address free ++ " lies past the exclusive region end " ++
      Hex.address stop
  | .noRegion fault => fault.message
  | .overlaps image other => "image " ++ image.describe ++ " overlaps " ++ other.describe
  | .memorySize memory region =>
    s!"backing memory is {memory} bytes but region is {region} bytes"

namespace Layout

/-- The start addresses with their names, in order. -/
def boundaries (l : Layout) : List (Boundary × Nat) :=
  [(.loader, l.loader), (.runtime, l.runtime), (.app, l.app), (.free, l.free)]

/-- The sizes of the three segments. -/
def sizes (l : Layout) : List Nat := [l.runtime - l.loader, l.app - l.runtime, l.free - l.app]

/-- Segments of whole pages in order, from the start of the region and not past its end. -/
structure WellPlaced (l : Layout) (exclusive : Region) : Prop where
  aligned : ∀ b ∈ l.boundaries, b.2 % pageSize = 0
  loader_lt : l.loader < l.runtime
  runtime_lt : l.runtime < l.app
  app_lt : l.app < l.free
  starts : l.loader = exclusive.base
  ends : l.free ≤ exclusive.stop

/-- The first two neighbours that are out of order. -/
def firstDisorder : List (Boundary × Nat) → Option LayoutFault
  | (low, lowAddress) :: (high, highAddress) :: rest =>
    if lowAddress < highAddress then firstDisorder ((high, highAddress) :: rest)
    else some (.outOfOrder low lowAddress high highAddress)
  | _ => none

/-- The layout's checks against the region of the image and the other regions of its enclave. -/
def validate (l : Layout) (exclusive : Region) (others : List Region) :
    Except LayoutFault Unit :=
  match l.boundaries.find? fun b => b.2 % pageSize ≠ 0 with
  | some (boundary, address) => .error (.misaligned boundary address)
  | none =>
    match firstDisorder l.boundaries with
    | some fault => .error fault
    | none =>
      if l.loader ≠ exclusive.base then .error (.startsElsewhere l.loader exclusive.base)
      else if exclusive.stop < l.free then .error (.endsBeyond l.free exclusive.stop)
      else
        match Region.make l.loader (l.free - l.loader) exclusive.permission .exclusive with
        | .error fault => .error (.noRegion fault)
        | .ok image =>
          match others.find? (·.overlaps image) with
          | some other => .error (.overlaps image other)
          | none => .ok ()

end Layout

end Enclaves
