import Mainboard.Memory.Basic

/-!
# Reading and writing the bus

Words and bulk transfers are cut into spans, and each span is one access to the block of its
page. A word that fits into a page is one access, any other goes byte by byte; a bulk transfer
goes page by page. Writing a bulk transfer connects the unconnected pages it meets as code pages.
-/
namespace Mainboard
namespace Memory

/-- Read one span. -/
def readSpan (m : Memory) (s : Span) : Bytes :=
  (m.blockAt s.addr).read m.devices (offsetInPage s.addr) s.length

/-- Read spans one after the other. -/
def readSpans (m : Memory) (spans : List Span) : Bytes := spans.flatMap m.readSpan

/-- The accesses to regions that reading spans makes. -/
def spanAccesses (m : Memory) (spans : List Span) : List Access :=
  spans.flatMap fun s => (m.blockAt s.addr).readAccesses m.devices (offsetInPage s.addr) s.length

/-- The little-endian word of `width` bytes at an address. -/
def readWord (m : Memory) (addr : UInt32) (width : Nat) : Nat :=
  LittleEndian.ofBytes (m.readSpans (Span.ofWord addr width))

/-- The `n` bytes from an address on. -/
def copyOut (m : Memory) (addr : UInt32) (n : Nat) : Bytes := m.readSpans (Span.ofBulk addr n)

/-- The byte at an address. -/
def byteAt (m : Memory) (addr : UInt32) : UInt8 := (m.readSpan ⟨addr, 1⟩).headD 0

/-- Record the accesses that reading spans makes. -/
def noteSpans (m : Memory) (spans : List Span) : Memory :=
  { m with devices := m.devices.note (m.spanAccesses spans) }

/-- Store a piece into the block of its page, and report it if the page tracks code. -/
def storePiece (m : Memory) (piece : Piece) : Memory :=
  let id := m.blockIdAt piece.addr
  let (b, devices) := (m.block id).write m.devices (offsetInPage piece.addr) piece.bytes
  let m := { m with blocks := m.blocks.setIfInBounds id b, devices := devices }
  if b.kind = .code then m.notify (.codeWritten piece.addr piece.bytes.length) else m

/-- Store the bytes of a word. -/
def writeBytes (m : Memory) (addr : UInt32) (src : Bytes) : Memory :=
  (Piece.ofWord addr src).foldl storePiece m

/-- Store the low `width` bytes of a value, least significant first. -/
def writeWord (m : Memory) (addr : UInt32) (width value : Nat) : Memory :=
  m.writeBytes addr (LittleEndian.toBytes width value)

/-- The address that the gate lets through. -/
def effective (m : Memory) (addr : UInt32) : UInt32 :=
  if m.gateA20 then addr else addr &&& a20Mask

/-- Connect the page of an address as a code page and report it. -/
def promote (m : Memory) (addr : UInt32) : Memory :=
  let p := Page.ofAddr (m.effective addr)
  (m.connect p .lazyCode).2.notify (.promoted p.base)

/-- Store a piece of a bulk transfer. -/
def storeOrPromote (m : Memory) (piece : Piece) : Memory :=
  let m := if m.blockIdAt piece.addr = 0 then m.promote piece.addr else m
  m.storePiece piece

/-- Store bytes from an address on. -/
def copyIn (m : Memory) (addr : UInt32) (src : Bytes) : Memory :=
  (Piece.ofBulk addr src).foldl storeOrPromote m

end Memory
end Mainboard
