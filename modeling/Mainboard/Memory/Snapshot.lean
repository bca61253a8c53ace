import Mainboard.Memory.Mapping
import Mainboard.Snapshot.Container

/-!
# Saving and restoring the bus

A saved bus holds its flags and counts, the blocks that are installed, and for each connected
page the number of its block. Blocks are numbered in the order in which the pages, in ascending
order, first use them; so what was installed and given up before leaves no trace. The masked
table, the counts of references and the contents of device regions are not saved: the first two
follow from the rest, and the regions belong to their devices. A field is shorter than 4 GiB, so a
bus whose blocks take more is not saved.

A restore first reads the block and page lists as a whole. Then it puts them in place and goes on
to the count of connected pages and the two flags, in this order; one of these that is malformed
stops the restore there.
-/
namespace Mainboard
namespace Memory

/-- The identifier `PHYS`. -/
def deviceId : DeviceId := #v[0x50, 0x48, 0x59, 0x53]

def deviceVersion : Version := ⟨1, 0⟩

namespace Tag

def ramSize : UInt16 := 1
def gateA20 : UInt16 := 2
def mappedCount : UInt16 := 3
def pagingActive : UInt16 := 4
def tlbFlush : UInt16 := 5
def blocks : UInt16 := 6
def index : UInt16 := 7
def regionCount : UInt16 := 8

end Tag

/-- Blocks numbered in the order in which they were met. -/
structure Numbering where
  numbers : Array (Option Nat)
  order : Array BlockId

namespace Numbering

/-- No block of an arena has been met. -/
def empty (arenaSize : Nat) : Numbering := ⟨Array.replicate arenaSize none, #[]⟩

def number? (n : Numbering) (id : BlockId) : Option Nat := n.numbers.getD id none

def meet (n : Numbering) (id : BlockId) : Numbering :=
  match n.number? id with
  | some _ => n
  | none => ⟨n.numbers.setIfInBounds id (some n.order.size), n.order.push id⟩

/-- The numbering after meeting the blocks of some pages. -/
def ofEntries (arenaSize : Nat) (entries : List (Page × BlockId)) : Numbering :=
  entries.foldl (fun n (_, id) => n.meet id) (empty arenaSize)

end Numbering

def encodeBlock (b : Block) : Bytes :=
  Encode.u8 b.kind.tag ++
    match b with
    | .unconnected => []
    | .ram data => Encode.vec data
    | .rom data => Encode.vec data
    | .code (some data) => Encode.bool true ++ Encode.vec data
    | .code none => Encode.bool false
    | .window region base => Encode.u32 (UInt32.ofNat region) ++ Encode.u64 base

def encodeBlocks (blocks : List Block) : Bytes :=
  Encode.u32 (UInt32.ofNat blocks.length) ++ blocks.flatMap encodeBlock

/-- A connected page with the number of its block. -/
def encodeEntry (entry : Page × Nat) : Bytes :=
  Encode.u32 (UInt32.ofNat entry.1.val) ++ Encode.u32 (UInt32.ofNat entry.2)

def encodeEntries (entries : List (Page × Nat)) : Bytes :=
  Encode.u32 (UInt32.ofNat entries.length) ++ entries.flatMap encodeEntry

/-- The saved bus, field by field. -/
def toContainer (m : Memory) : Container :=
  let entries := m.index.plain.occupied
  let numbering := Numbering.ofEntries m.blocks.size entries
  let numbered := entries.map fun (p, id) => (p, (numbering.number? id).getD 0)
  Container.empty deviceId deviceVersion
    |>.set Tag.ramSize (Encode.u32 m.ramSize)
    |>.set Tag.gateA20 (Encode.bool m.gateA20)
    |>.set Tag.mappedCount (Encode.u32 m.mappedCount)
    |>.set Tag.pagingActive (Encode.bool m.pagingActive)
    |>.set Tag.tlbFlush (Encode.bool m.tlbFlush)
    |>.set Tag.regionCount (Encode.u32 (UInt32.ofNat m.devices.registered.size))
    |>.set Tag.blocks (encodeBlocks (numbering.order.toList.map m.block))
    |>.set Tag.index (encodeEntries numbered)

def save (m : Memory) : Bytes := m.toContainer.encode

/-- The number of bytes of a saved block whose storage is a page. -/
def blockLength : Block → Nat
  | .unconnected => 1
  | .ram _ => 5 + blockSize
  | .rom _ => 5 + blockSize
  | .code (some _) => 6 + blockSize
  | .code none => 2
  | .window _ _ => 13

/-- The length of the field of blocks, found without writing it. -/
def blocksLength (m : Memory) : Nat :=
  let numbering := Numbering.ofEntries m.blocks.size m.index.plain.occupied
  numbering.order.toList.foldl (fun n id => n + blockLength (m.block id)) 4

/-- The number of bytes of the saved bus, found without writing it. -/
def saveLength (m : Memory) : Nat := 83 + m.blocksLength + 8 * m.index.plain.occupied.length

/-- Save the bus unless its blocks make a field of 4 GiB or more. All other fields are far shorter.
-/
def save? (m : Memory) : Option Bytes :=
  if m.blocksLength < UInt32.size then some m.save else none

/-- Read the storage of a block, which must be a page. -/
def decodePage (fault : FieldFault) : Decode Bytes := do
  let data ← Decode.vec
  if data.length = blockSize then return data else throw (.invalidField fault)

/-- Read a block of a bus on which `regions` regions are registered. -/
def decodeBlock (regions : Nat) : Decode Block := do
  let tag ← Decode.u8
  if tag = BlockKind.ram.tag then
    return .ram (← decodePage .blockLength)
  else if tag = BlockKind.rom.tag then
    return .rom (← decodePage .blockLength)
  else if tag = BlockKind.code.tag then
    let allocated ← Decode.bool
    if allocated then return .code (some (← decodePage .codePageLength))
    else return .code none
  else if tag = BlockKind.window.tag then
    let region ← Decode.u32
    let base ← Decode.u64
    if region.toNat < regions then return .window region.toNat base
    else throw (.invalidField .regionIndex)
  else throw (.invalidField .blockKind)

/-- Read a page and the number of its block, of which there are `blocks`. The block with number
`k` has position `k + 1`. -/
def decodeEntry (blocks : Nat) : Decode (Page × BlockId) := do
  let page ← Decode.u32
  let number ← Decode.u32
  if h : page.toNat < 1048576 then
    if number.toNat < blocks then return (⟨page.toNat, h⟩, number.toNat + 1)
    else throw (.invalidField .indexOrdinal)
  else throw (.invalidField .indexPage)

/-- What a restore reads before it changes anything. -/
structure Staged where
  ramSize : UInt32
  gateA20 : Bool
  blocks : List Block
  entries : List (Page × BlockId)

/-- Parse the payload of a tag; without the tag there are no items. -/
def parseList (c : Container) (tag : UInt16) (item : Decode α) :
    Except SnapshotError (List α) :=
  match c.bytes tag with
  | none => .ok []
  | some payload => (Decode.counted item).parse payload

/-- Refuse a snapshot that counts more registered regions than there are. -/
def checkRegions (m : Memory) (c : Container) : Except SnapshotError Unit := do
  match ← c.u32 Tag.regionCount with
  | some count =>
    if count.toNat > m.devices.registered.size then throw (.invalidField .regionCount)
  | none => return ()

def stage (m : Memory) (c : Container) : Except SnapshotError Staged := do
  m.checkRegions c
  let ramSize ← c.u32 Tag.ramSize
  let gateA20 ← c.bool Tag.gateA20
  let blocks ← parseList c Tag.blocks (decodeBlock m.devices.registered.size)
  let entries ← parseList c Tag.index (decodeEntry blocks.length)
  return ⟨ramSize.getD m.ramSize, gateA20.getD false, blocks, entries⟩

/-- The number of entries that name each position of an arena. -/
def countEntries (arenaSize : Nat) (entries : List (Page × BlockId)) : Array Nat :=
  entries.foldl (fun refs (_, id) => refs.modify id (· + 1)) (Array.replicate arenaSize 0)

/-- Put staged blocks and pages in place of the present ones. -/
def adopt (m : Memory) (s : Staged) : Memory :=
  { m with
    blocks := (Block.unconnected :: s.blocks).toArray
    refs := countEntries (s.blocks.length + 1) s.entries
    free := []
    index := .ofEntries (quickPages s.ramSize) s.gateA20 s.entries
    ramSize := s.ramSize }

/-- The result of a restore with the bus it leaves. -/
abbrev Restore := EStateM.Result SnapshotError Memory

/-- Restore the count of connected pages and the two flags. -/
def adoptFlags (m : Memory) (c : Container) : Restore Unit :=
  match c.u32 Tag.mappedCount with
  | .error e => .error e m
  | .ok count =>
    let m := { m with mappedCount := count.getD 0 }
    match c.bool Tag.pagingActive with
    | .error e => .error e m
    | .ok paging =>
      let m := { m with pagingActive := paging.getD false }
      match c.bool Tag.tlbFlush with
      | .error e => .error e m
      | .ok flush => .ok () { m with tlbFlush := flush.getD false }

/-- Restore a saved bus. -/
def load (m : Memory) (input : Bytes) : Restore Unit :=
  match Container.parseFor input deviceId deviceVersion with
  | .error e => .error e m
  | .ok c =>
    match m.stage c with
    | .error e => .error e m
    | .ok s => (m.adopt s).adoptFlags c

end Memory
end Mainboard
