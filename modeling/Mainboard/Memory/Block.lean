import Mainboard.Memory.RegionTable

/-!
# Blocks

A block is one 4 KiB unit of the bus: nothing, RAM, ROM, a page that tracks code, or a window
onto a device region. Nothing floats high and swallows writes; ROM swallows writes; a code page
takes storage with its first write and reads as zero before; a window passes every access on to
its region at a fixed base. An access that a region refuses reads as floating and writes nothing.
-/
namespace Mainboard

/-- The size of a block. -/
def blockSize : Nat := 4096

inductive BlockKind
  | unconnected
  | ram
  | rom
  | window
  | code
  deriving DecidableEq, Repr

/-- The number of a kind in saved states. -/
def BlockKind.tag : BlockKind → UInt8
  | .unconnected => 0
  | .ram => 1
  | .rom => 2
  | .window => 3
  | .code => 4

/-- A window names its region by the order of registration. -/
inductive Block
  | unconnected
  | ram (data : Bytes)
  | rom (data : Bytes)
  | window (region : Nat) (base : UInt64)
  | code (storage : Option Bytes)
  deriving DecidableEq, Repr

instance : Inhabited Block := ⟨.unconnected⟩

namespace Block

/-- A page of zeroed RAM. -/
def freshRam : Block := .ram zeroPage

/-- A code page without storage. -/
def lazyCode : Block := .code none

def kind : Block → BlockKind
  | .unconnected => .unconnected
  | .ram _ => .ram
  | .rom _ => .rom
  | .window _ _ => .window
  | .code _ => .code

def size : Block → Nat
  | .ram data => data.length
  | .rom data => data.length
  | _ => blockSize

def isConnected : Block → Bool
  | .unconnected => false
  | _ => true

/-- The region behind a window, if it is registered. -/
def target? (t : RegionTable) (region : Nat) : Option Nat := t.registered[region]?

/-- The offset in its region that a window at `base` passes an offset of the block on to. The two
are added as machine words. -/
def windowOffset (base : UInt64) (offset : Nat) : Nat := (base + UInt64.ofNat offset).toNat

/-- The `n` bytes at `offset`. -/
def read (b : Block) (t : RegionTable) (offset n : Nat) : Bytes :=
  match b with
  | .unconnected => .floating n
  | .ram data => data.window offset n
  | .rom data => data.window offset n
  | .code (some data) => data.window offset n
  | .code none => .zeros n
  | .window region base =>
    match target? t region with
    | none => .floating n
    | some handle =>
      match (t.region handle).read (windowOffset base offset) n with
      | .ok bs => bs
      | .error _ => .floating n

/-- The access to a region that such a read makes. -/
def readAccesses (b : Block) (t : RegionTable) (offset n : Nat) : List Access :=
  match b with
  | .window region base =>
    match target? t region with
    | none => []
    | some handle => [⟨handle, .read, windowOffset base offset, n⟩]
  | _ => []

@[simp] theorem length_read (b : Block) (t : RegionTable) (offset n : Nat) :
    (b.read t offset n).length = n := by
  unfold read
  split <;> try simp
  split
  · simp
  · split <;> rename_i h
    · simp only [Region.read, Region.guarded] at h
      split at h
      · injection h with h
        simp [← h]
      · contradiction
    · simp

/-- Storage of a code page as it is from the first write on. -/
def allocated (storage : Option Bytes) : Bytes := storage.getD zeroPage

/-- Store bytes at `offset`. -/
def write (b : Block) (t : RegionTable) (offset : Nat) (src : Bytes) : Block × RegionTable :=
  match b with
  | .unconnected => (.unconnected, t)
  | .rom data => (.rom data, t)
  | .ram data => (.ram (data.overwrite offset src), t)
  | .code storage => (.code (some ((allocated storage).overwrite offset src)), t)
  | .window region base =>
    match target? t region with
    | none => (.window region base, t)
    | some handle => (.window region base, (t.write handle (windowOffset base offset) src).2)

/-- Zero a range of a storage if it lies inside as a whole. -/
def zeroInside (data : Bytes) (offset length : Nat) : Bytes :=
  if offset + length ≤ data.length then
    if offset = 0 ∧ length = data.length then data.zeroed
    else data.overwrite offset (.zeros length)
  else data

/-- Zero a range. A code page that is cleared as a whole gives its storage back. -/
def clearRange (b : Block) (t : RegionTable) (offset length : Nat) : Block × RegionTable :=
  match b with
  | .unconnected => (.unconnected, t)
  | .rom data => (.rom data, t)
  | .ram data => (.ram (zeroInside data offset length), t)
  | .code storage =>
    if offset = 0 ∧ blockSize ≤ length then (.code none, t)
    else (.code (storage.map fun data => zeroInside data offset length), t)
  | .window region base =>
    match target? t region with
    | none => (.window region base, t)
    | some handle =>
      (.window region base, (t.clearRange handle (windowOffset base offset) length).2)

def clear (b : Block) (t : RegionTable) : Block × RegionTable := b.clearRange t 0 b.size

/-- The storage of a block, if it has any of its own. -/
def contents : Block → Option Bytes
  | .ram data => some data
  | .rom data => some data
  | .code storage => storage
  | _ => none

@[simp] theorem kind_write (b : Block) (t : RegionTable) (offset : Nat) (src : Bytes) :
    (b.write t offset src).1.kind = b.kind := by
  unfold write
  split <;> try rfl
  split <;> rfl

@[simp] theorem kind_clearRange (b : Block) (t : RegionTable) (offset length : Nat) :
    (b.clearRange t offset length).1.kind = b.kind := by
  unfold clearRange
  split <;> try rfl
  all_goals split <;> rfl

end Block
end Mainboard
