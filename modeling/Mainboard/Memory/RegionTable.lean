import Mainboard.Memory.Region

/-!
# The regions a bus can reach

All device memories of a board stand in one table and are named by their position. A bus
registers the ones it maps; windows refer to them by the order of registration, and a region is
registered once. The table also keeps a record of the accesses made to the regions, in order.
-/
namespace Mainboard

inductive AccessKind
  | read
  | write
  | clear
  deriving DecidableEq, Repr

/-- An access that reached a region, whether or not it was in range. -/
structure Access where
  region : Nat
  kind : AccessKind
  offset : Nat
  length : Nat
  deriving DecidableEq, Repr

structure RegionTable where
  regions : Array Region
  registered : Array Nat
  accesses : List Access

namespace RegionTable

/-- The given regions, none of them registered. -/
def ofRegions (regions : Array Region) : RegionTable := ⟨regions, #[], []⟩

def region (t : RegionTable) (handle : Nat) : Region :=
  t.regions.getD handle (.zeroed 0)

def setRegion (t : RegionTable) (handle : Nat) (r : Region) : RegionTable :=
  { t with regions := t.regions.setIfInBounds handle r }

/-- The position of a region in the order of registration, registering it if it is new. -/
def register (t : RegionTable) (handle : Nat) : Nat × RegionTable :=
  match t.registered.idxOf? handle with
  | some i => (i, t)
  | none => (t.registered.size, { t with registered := t.registered.push handle })

def note (t : RegionTable) (accesses : List Access) : RegionTable :=
  { t with accesses := t.accesses ++ accesses }

/-- The effect of an access that may fail on the region it went to. -/
def settle (t : RegionTable) (access : Access) (result : Except RegionError Region) :
    Except RegionError Unit × RegionTable :=
  let t := t.note [access]
  match result with
  | .ok r => (.ok (), t.setRegion access.region r)
  | .error e => (.error e, t)

def write (t : RegionTable) (handle offset : Nat) (src : Bytes) :
    Except RegionError Unit × RegionTable :=
  t.settle ⟨handle, .write, offset, src.length⟩ ((t.region handle).write offset src)

def clearRange (t : RegionTable) (handle offset length : Nat) :
    Except RegionError Unit × RegionTable :=
  t.settle ⟨handle, .clear, offset, length⟩ ((t.region handle).clearRange offset length)

/-- Read a region and record the access. -/
def read (t : RegionTable) (handle offset length : Nat) :
    Except RegionError Bytes × RegionTable :=
  ((t.region handle).read offset length, t.note [⟨handle, .read, offset, length⟩])

end RegionTable
end Mainboard
