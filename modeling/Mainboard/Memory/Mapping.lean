import Mainboard.Memory.Access

/-!
# Changing what is mapped where

Each change checks its arguments first and then cannot fail; a rejected change says why and gives
back the bus. A page that gets a new block is disconnected first. The image of the system BIOS is
installed as ROM so that it ends at one megabyte.
-/
namespace Mainboard

/-- Why a mapping is rejected. -/
inductive MapError
  | misaligned (start : UInt32)
  | partialBlock (length : Nat)
  | underlyingTooShort (length size : Nat)
  | wrongBlockSize (size : Nat)
  | unconnectedReplacement
  | rangeOverflow (start : UInt32) (length : Nat)
  | invalidRomImage (length : Nat)
  deriving DecidableEq, Repr

open Text in
def MapError.message : MapError → String
  | .misaligned start => s!"region start {hex start.toNat} is not block aligned"
  | .partialBlock length => s!"region length {hex length} is not a whole number of blocks"
  | .underlyingTooShort length size =>
    s!"region length {hex length} exceeds underlying memory size {hex size}"
  | .wrongBlockSize size => s!"allocated block is {size} bytes, expected one 4 KiB block"
  | .unconnectedReplacement => "the unconnected sentinel cannot replace an installed block"
  | .rangeOverflow start length =>
    s!"region {hex start.toNat}+{hex length} extends past the 4 GiB address space"
  | .invalidRomImage length =>
    s!"system BIOS image of {length} bytes does not fit below 1 MiB"

namespace Memory

/-- The result of a change with the bus it leaves. -/
abbrev Update := EStateM.Result MapError Memory

/-- The end of the 4 GiB address space. -/
def addressSpaceEnd : Nat := 4294967296

/-- Where the image of the system BIOS ends. -/
def systemBiosEnd : Nat := 0x100000

/-- What is wrong with a range of pages, if anything. The end is a sum of unbounded numbers: a
length so close to `2 ^ 64` that a sum of machine words would wrap around is outside of this model,
which takes it as too long. -/
def rangeError? (start : UInt32) (length : Nat) : Option MapError :=
  if ¬isPageAligned start then some (.misaligned start)
  else if length % blockSize ≠ 0 then some (.partialBlock length)
  else if start.toNat + length > addressSpaceEnd then some (.rangeOverflow start length)
  else none

/-- Register a region, giving its place in the order of registration. -/
def registerRegion (m : Memory) (handle : Nat) : Nat × Memory :=
  let (i, devices) := m.devices.register handle
  (i, { m with devices := devices })

/-- Connect pages to consecutive windows onto a registered region. -/
def openWindows (m : Memory) (region : Nat) (pages : List Page) : Memory :=
  pages.zipIdx.foldl
    (fun m (p, i) => (m.connect p (.window region (UInt64.ofNat (i * blockSize)))).2) m

/-- Map the first `length` bytes of a region at `start`. -/
def mapRegion (m : Memory) (handle : Nat) (start : UInt32) (length : Nat) : Update Unit :=
  match rangeError? start length with
  | some e => .error e m
  | none =>
    let size := (m.devices.region handle).size
    if length > size then .error (.underlyingTooShort length size) m
    else
      let (region, m) := m.registerRegion handle
      let pages := Page.range start length
      .ok () ((m.disconnectAll pages).openWindows region pages)

/-- Install a block at the page that starts at `start`. -/
def allocate (m : Memory) (start : UInt32) (b : Block) : Update BlockId :=
  if ¬isPageAligned start then .error (.misaligned start) m
  else if b.size ≠ blockSize then .error (.wrongBlockSize b.size) m
  else
    let p := Page.ofAddr start
    let m := m.disconnect p
    if b.isConnected then
      let (id, m) := m.connect p b
      .ok id m
    else .ok 0 m

/-- Disconnect the pages of a range. -/
def unmap (m : Memory) (start : UInt32) (length : Nat) : Update Unit :=
  match rangeError? start length with
  | some e => .error e m
  | none => .ok () (m.disconnectAll (Page.range start length))

/-- Put a new block wherever `old` is installed. Answers the position of the new block, or nothing
if `old` is the unconnected block or is not installed anywhere. -/
def replaceBlock (m : Memory) (old : BlockId) (b : Block) : Update (Option BlockId) :=
  if ¬b.isConnected then .error .unconnectedReplacement m
  else if b.size ≠ blockSize then .error (.wrongBlockSize b.size) m
  else if old = 0 then .ok none m
  else
    let (id, m) := m.alloc b
    let replaced := m.index.plain.count old
    let m := { m with index := m.index.substitute old id }
    if replaced = 0 then .ok none (m.discard id)
    else
      let refs := (m.refs.setIfInBounds id replaced).setIfInBounds old 1
      .ok (some id) ({ m with refs := refs }.release old)

/-- The pages of an image, the last one possibly short. -/
def pagesOf (image : Bytes) : List Bytes :=
  match image with
  | [] => []
  | b :: bs => (b :: bs).take blockSize :: pagesOf ((b :: bs).drop blockSize)
termination_by image.length
decreasing_by simp only [List.length_drop, List.length_cons, blockSize]; omega

theorem flatten_pagesOf (image : Bytes) : (pagesOf image).flatten = image := by
  fun_induction pagesOf image with
  | case1 => rfl
  | case2 b bs ih => rw [List.flatten_cons, ih, List.take_append_drop]

/-- Install blocks one after the other, stopping at the first that is rejected. -/
def allocateAll (m : Memory) : List (UInt32 × Block) → Update Unit
  | [] => .ok () m
  | (start, b) :: rest =>
    match m.allocate start b with
    | .error e m => .error e m
    | .ok _ m => m.allocateAll rest

/-- The addresses of consecutive pages from `start` on, with a block for each. -/
def placeFrom (start : UInt32) : List Block → List (UInt32 × Block)
  | [] => []
  | b :: rest => (start, b) :: placeFrom (start + UInt32.ofNat blockSize) rest

/-- The image with floating bytes in front that make it a whole number of pages. -/
def paddedImage (image : Bytes) : Bytes :=
  let length := (image.length + blockSize - 1) / blockSize * blockSize
  .floating (length - image.length) ++ image

theorem length_paddedImage (image : Bytes) :
    (paddedImage image).length = (image.length + blockSize - 1) / blockSize * blockSize := by
  simp only [paddedImage, blockSize, List.length_append, Bytes.length_floating]
  omega

/-- Install the image of the system BIOS. -/
def loadSystemBios (m : Memory) (image : Bytes) : Update Unit :=
  if image.isEmpty ∨ image.length > systemBiosEnd then .error (.invalidRomImage image.length) m
  else
    let padded := paddedImage image
    let start := UInt32.ofNat (systemBiosEnd - padded.length)
    m.allocateAll (placeFrom start ((pagesOf padded).map .rom))

end Memory
end Mainboard
