import Mainboard.Memory.PageIndex

/-!
# The physical bus

Blocks live in an arena that only grows: position zero is the unconnected block, and positions
that are given up are kept on a stack and used again, last one first. The index names the block
of each page; a count per position says how many plain pages hold it, and a block is given up
with the last of them. Two flags link the bus to a processor that pages: switching the A20 gate
while paging is active asks for a flush of its TLB. Code pages report their stores, and pages
that come into being through a bulk store are reported as promoted.
-/
namespace Mainboard

/-- What the bus reports to an owner of decoded code. -/
inductive Notice
  | promoted (base : UInt32)
  | codeWritten (addr : UInt32) (length : Nat)
  deriving DecidableEq, Repr

/-- Why execution cannot start at an address. -/
inductive FetchError
  | unconnected (addr : UInt32)
  deriving DecidableEq, Repr

def FetchError.message : FetchError → String
  | .unconnected addr =>
    "attempted to execute unconnected memory at " ++ Text.hexPadded 8 addr.toNat

structure Memory where
  blocks : Array Block
  refs : Array Nat
  free : List BlockId
  index : PageIndex
  ramSize : UInt32
  devices : RegionTable
  mappedCount : UInt32
  pagingActive : Bool
  tlbFlush : Bool
  notices : List Notice

namespace Memory

/-- The number of pages that the quick part of the index covers. -/
def quickPages (ramSize : UInt32) : Nat := ramSize.toNat / 4096

/-- A bus with nothing on it and the A20 gate disabled. -/
def new (ramSize : UInt32) (regions : Array Region) : Memory where
  blocks := #[.unconnected]
  refs := #[0]
  free := []
  index := .empty (quickPages ramSize) false
  ramSize := ramSize
  devices := .ofRegions regions
  mappedCount := 0
  pagingActive := false
  tlbFlush := false
  notices := []

/-! ## Lookup -/

/-- The block that answers at an address under the current state of the gate. -/
def blockIdAt (m : Memory) (addr : UInt32) : BlockId := m.index.active.lookup (.ofAddr addr)

/-- The answer of the quick part, which covers system RAM only. -/
def quickBlockIdAt? (m : Memory) (addr : UInt32) : Option BlockId :=
  m.index.active.quick? (.ofAddr addr)

def sparseBlockIdAt (m : Memory) (addr : UInt32) : BlockId :=
  m.index.active.sparse (.ofAddr addr)

/-- The block installed at an address, whatever the state of the gate. -/
def plainBlockIdAt (m : Memory) (addr : UInt32) : BlockId := m.index.plain.lookup (.ofAddr addr)

/-- The block at a position of the arena. -/
def block (m : Memory) (id : BlockId) : Block := m.blocks.getD id .unconnected

def blockAt (m : Memory) (addr : UInt32) : Block := m.block (m.blockIdAt addr)

/-- The block that execution at an address would fetch from. -/
def fetch (m : Memory) (addr : UInt32) : Except FetchError BlockId :=
  let id := m.blockIdAt addr
  if id = 0 then .error (.unconnected addr) else .ok id

/-- Bytes in connected pages. -/
def allocatedSize (m : Memory) : Nat := m.mappedCount.toNat * blockSize

/-! ## Arena -/

def notify (m : Memory) (notice : Notice) : Memory := { m with notices := m.notices ++ [notice] }

/-- Put a block into the arena, at the position given up last if there is one. -/
def alloc (m : Memory) (b : Block) : BlockId × Memory :=
  match m.free with
  | id :: rest => (id, { m with blocks := m.blocks.setIfInBounds id b, free := rest })
  | [] => (m.blocks.size, { m with blocks := m.blocks.push b, refs := m.refs.push 0 })

/-- Take a block out of the arena. -/
def discard (m : Memory) (id : BlockId) : Memory :=
  { m with blocks := m.blocks.setIfInBounds id .unconnected, free := id :: m.free }

/-- One page less holds a block; the last one gives it up. -/
def release (m : Memory) (id : BlockId) : Memory :=
  if id = 0 then m
  else
    let left := m.refs.getD id 0 - 1
    let m := { m with refs := m.refs.setIfInBounds id left }
    if left = 0 then m.discard id else m

/-- Make a page hold a block and release the block it held before. -/
def install (m : Memory) (p : Page) (id : BlockId) : Memory :=
  let m := if id = 0 then m else { m with refs := m.refs.modify id (· + 1) }
  let old := m.index.plain.sparse p
  { m with index := m.index.set p id }.release old

def countUp (m : Memory) : Memory := { m with mappedCount := m.mappedCount + 1 }

def countDown (m : Memory) : Memory :=
  { m with mappedCount := if m.mappedCount = 0 then 0 else m.mappedCount - 1 }

/-- Connect a page to a new block. -/
def connect (m : Memory) (p : Page) (b : Block) : BlockId × Memory :=
  let (id, m) := m.alloc b
  (id, (m.install p id).countUp)

/-- Disconnect a page if it is connected. -/
def disconnect (m : Memory) (p : Page) : Memory :=
  if m.index.plain.lookup p = 0 then m else m.countDown.install p 0

/-- Disconnect pages in order. -/
def disconnectAll (m : Memory) (pages : List Page) : Memory := pages.foldl disconnect m

/-! ## Gate, paging and clearing -/

def gateA20 (m : Memory) : Bool := m.index.gateA20

/-- Switch the A20 gate. With paging active this asks for a flush of the TLB, whose entries may
now lead to other blocks. -/
def setGateA20 (m : Memory) (enabled : Bool) : Memory :=
  { m with
    index := m.index.setGate enabled
    tlbFlush := m.tlbFlush || m.pagingActive }

def setPagingActive (m : Memory) (active : Bool) : Memory := { m with pagingActive := active }

/-- Take the pending request for a flush. -/
def takeTlbFlush (m : Memory) : Bool × Memory :=
  (m.tlbFlush, { m with tlbFlush := false })

/-- Clear the block at a position. -/
def clearBlock (m : Memory) (id : BlockId) : Memory :=
  let (b, devices) := (m.block id).clear m.devices
  { m with blocks := m.blocks.setIfInBounds id b, devices := devices }

/-- Zero every writable block, in the order of the arena. -/
def clear (m : Memory) : Memory :=
  (List.range' 1 (m.blocks.size - 1)).foldl clearBlock m

/-- Clear, forget the link to the processor and disable the gate. -/
def reset (m : Memory) : Memory :=
  { m.clear with pagingActive := false, tlbFlush := false }.setGateA20 false

end Memory
end Mainboard
