import Mainboard.Proofs.Memory.OwnBlocks

/-!
# The bus as a store of cells

A cell is a byte of storage, in a block of the arena or in a device region. An address resolves to
at most one cell, through the gate and through windows; several addresses may resolve to the same
one. What is read at an address is the byte of its cell, and a store into a page changes the cells
that its addresses resolve to and no others.
-/
namespace Mainboard

namespace Bytes

theorem window_eq_map {data : Bytes} {offset n : Nat} (h : offset + n ≤ data.length) :
    data.window offset n = (List.range n).map fun i => data.getD (offset + i) 0 := by
  apply List.ext_getElem
  · simp
  · intro i hi _
    simp only [length_window] at hi
    have hlen : ((data.drop offset).take n).length = n := by
      rw [List.length_take, List.length_drop]
      omega
    have hlt : offset + i < data.length := by omega
    simp [window, hlen, hi, hlt]

theorem getD_overwrite (data : Bytes) (offset : Nat) (src : Bytes) (i : Nat) :
    (data.overwrite offset src).getD i 0 =
      if offset ≤ i ∧ i < offset + src.length ∧ i < data.length then src.getD (i - offset) 0
      else data.getD i 0 := by
  simp only [List.getD_eq_getElem?_getD, getElem?_overwrite]
  split_ifs <;> rfl

end Bytes

/-- A byte of storage that an address can resolve to. -/
inductive Cell
  | block (id : BlockId) (offset : Nat)
  | region (handle offset : Nat)
  deriving DecidableEq, Repr

def Cell.offset : Cell → Nat
  | .block _ offset => offset
  | .region _ offset => offset

namespace Block

def stored : Block → Bytes
  | .ram data => data
  | .rom data => data
  | .code storage => allocated storage
  | _ => []

def isWritable : Block → Bool
  | .ram _ => true
  | .code _ => true
  | .window _ _ => true
  | _ => false

def cell? (b : Block) (t : RegionTable) (id : BlockId) (offset : Nat) : Option Cell :=
  match b with
  | .unconnected => none
  | .window region base =>
    (target? t region).map fun handle => .region handle (base.toNat + offset)
  | _ => some (.block id offset)

def byte (b : Block) (t : RegionTable) (offset : Nat) : UInt8 :=
  match b with
  | .unconnected => 0xFF
  | .window region base =>
    match target? t region with
    | none => 0xFF
    | some handle => (t.region handle).byte (base.toNat + offset)
  | _ => b.stored.getD offset 0

variable {b : Block} {t : RegionTable} {offset : Nat}

theorem getD_zeroPage (i : Nat) : zeroPage.getD i 0 = 0 := by
  unfold zeroPage
  rw [List.getD_eq_getElem?_getD, List.getElem?_replicate]
  split_ifs <;> rfl

theorem read_eq_map (hsize : b.size = blockSize) (hb : b.Backed t) {n : Nat}
    (hfit : offset + n ≤ blockSize) :
    b.read t offset n = (List.range n).map fun i => b.byte t (offset + i) := by
  cases b with
  | unconnected =>
    unfold read Bytes.floating byte
    simp [List.map_const']
  | ram data => exact Bytes.window_eq_map (hfit.trans_eq hsize.symm)
  | rom data => exact Bytes.window_eq_map (hfit.trans_eq hsize.symm)
  | code storage =>
    cases storage with
    | none =>
      change Bytes.zeros n = (List.range n).map fun i => zeroPage.getD (offset + i) 0
      simp only [getD_zeroPage, Bytes.zeros_eq, List.map_const', List.length_range]
    | some data => exact Bytes.window_eq_map (hfit.trans_eq (hb data rfl).symm)
  | window region base =>
    obtain ⟨handle, htarget, hdvd, hin⟩ := hb
    obtain rfl | hpos := Nat.eq_zero_or_pos n
    · exact List.eq_nil_of_length_eq_zero (length_read _ t offset 0)
    have hguard : base.toNat + offset + n ≤ (t.region handle).size := by omega
    have hread : (t.region handle).read (base.toNat + offset) n =
        .ok ((List.range n).map fun i => (t.region handle).byte (base.toNat + offset + i)) :=
      if_pos hguard
    unfold read byte
    simp only [htarget, windowOffset_of_dvd hdvd (by omega : offset < blockSize), hread,
      Nat.add_assoc]

def storeCell? (b : Block) (t : RegionTable) (id : BlockId) (offset : Nat) : Option Cell :=
  if b.isWritable then b.cell? t id offset else none

end Block

/-! ## What a store does to a region and to a block -/

namespace RegionTable

@[simp] theorem registered_settle (t : RegionTable) (access : Access)
    (result : Except RegionError Region) :
    (t.settle access result).2.registered = t.registered := by
  cases result <;> rfl

/-- A region that is not in the table has no room, so only the empty store is inside of it. -/
theorem byte_region_write {t : RegionTable} {handle offset : Nat} {src : Bytes}
    (hin : offset + src.length ≤ (t.region handle).size) (i j : Nat) :
    ((t.write handle offset src).2.region i).byte j =
      if i = handle ∧ offset ≤ j ∧ j < offset + src.length then src.getD (j - offset) 0
      else (t.region i).byte j := by
  have hwrite : (t.region handle).write offset src =
      .ok { t.region handle with cells := Region.store (t.region handle).cells offset src } :=
    if_pos hin
  have hregion : ∀ i, (t.write handle offset src).2.region i =
      if i = handle ∧ handle < t.regions.size then
        { t.region handle with cells := Region.store (t.region handle).cells offset src }
      else t.region i := by
    intro i
    unfold write settle
    rw [hwrite]
    exact region_setRegion _ _ _ _
  rw [hregion]
  by_cases hlt : handle < t.regions.size
  · by_cases hi : i = handle
    · rw [if_pos ⟨hi, hlt⟩, Region.byte_write hwrite, hi]
      simp
    · simp [hi]
  · have hzero : (t.region handle).size = 0 := by
      simp [region, Region.zeroed, Array.getD_eq_getD_getElem?, not_lt.mp hlt]
    have hnot : ¬(offset ≤ j ∧ j < offset + src.length) := by omega
    rw [if_neg fun h => hlt h.2, if_neg fun h => hnot h.2]

end RegionTable

namespace Block

variable {b : Block} {t t' : RegionTable}

@[simp] theorem isWritable_write (b : Block) (t : RegionTable) (offset : Nat) (src : Bytes) :
    (b.write t offset src).1.isWritable = b.isWritable := by
  unfold write
  split <;> try rfl
  split <;> rfl

@[simp] theorem registered_write (b : Block) (t : RegionTable) (offset : Nat) (src : Bytes) :
    (b.write t offset src).2.registered = t.registered := by
  unfold write
  split <;> try rfl
  split
  · rfl
  · exact t.registered_settle _ _

theorem cell?_congr (h : t'.registered = t.registered) (b : Block) (id : BlockId) (offset : Nat) :
    b.cell? t' id offset = b.cell? t id offset := by
  unfold cell? target?
  rw [h]

/-- A store changes neither what kind of block it meets nor where a window leads. -/
theorem cell?_write (b : Block) (t t' : RegionTable) (offset : Nat) (src : Bytes) (id : BlockId)
    (i : Nat) : (b.write t offset src).1.cell? t' id i = b.cell? t' id i := by
  unfold write
  split <;> try rfl
  split <;> rfl

theorem stored_write (hsize : b.size = blockSize) (hb : b.Backed t)
    (hwritable : b.isWritable = true)
    (hown : b.kind ≠ .window) {offset : Nat} {src : Bytes} (hfit : offset + src.length ≤ blockSize)
    (i : Nat) :
    (b.write t offset src).1.stored.getD i 0 =
      if offset ≤ i ∧ i < offset + src.length then src.getD (i - offset) 0
      else b.stored.getD i 0 := by
  have hoverwrite : (b.write t offset src).1.stored = b.stored.overwrite offset src ∧
      b.stored.length = blockSize := by
    cases b with
    | ram data => exact ⟨rfl, hsize⟩
    | code storage => exact ⟨rfl, length_allocated hb⟩
    | window region base => exact absurd rfl hown
    | _ => cases hwritable
  rw [hoverwrite.1, Bytes.getD_overwrite, hoverwrite.2]
  by_cases hin : offset ≤ i ∧ i < offset + src.length
  · rw [if_pos hin, if_pos ⟨hin.1, hin.2, by omega⟩]
  · rw [if_neg hin, if_neg fun h => hin ⟨h.1, h.2.1⟩]

theorem storeCell?_own (hwritable : b.isWritable = true) (hown : b.kind ≠ .window) (t : RegionTable)
    (id : BlockId) (offset : Nat) : b.storeCell? t id offset = some (.block id offset) := by
  cases b with
  | ram data => rfl
  | code storage => rfl
  | window region base => exact absurd rfl hown
  | _ => cases hwritable

theorem devices_write_own (hwritable : b.isWritable = true) (hown : b.kind ≠ .window)
    (t : RegionTable) (offset : Nat) (src : Bytes) : (b.write t offset src).2 = t := by
  cases b with
  | ram data => rfl
  | code storage => rfl
  | window region base => exact absurd rfl hown
  | _ => cases hwritable

theorem eq_window (h : b.kind = .window) : ∃ region base, b = .window region base := by
  cases b with
  | window region base => exact ⟨region, base, rfl⟩
  | _ => cases h

theorem write_window {region handle : Nat} (h : target? t region = some handle) {base : UInt64}
    (hdvd : blockSize ∣ base.toNat) {offset : Nat} (hoffset : offset < blockSize) (src : Bytes) :
    (window region base).write t offset src =
      (window region base, (t.write handle (base.toNat + offset) src).2) := by
  unfold write
  simp only [h, windowOffset_of_dvd hdvd hoffset]

theorem write_of_not_writable (h : b.isWritable = false) (t : RegionTable) (offset : Nat)
    (src : Bytes) : b.write t offset src = (b, t) := by
  cases b with
  | unconnected => rfl
  | rom data => rfl
  | _ => cases h

end Block

namespace Memory

def cellAt? (m : Memory) (addr : UInt32) : Option Cell :=
  (m.blockAt addr).cell? m.devices (m.blockIdAt addr) (offsetInPage addr)

def storeCell? (m : Memory) (addr : UInt32) : Option Cell :=
  (m.blockAt addr).storeCell? m.devices (m.blockIdAt addr) (offsetInPage addr)

def cellByte (m : Memory) : Cell → UInt8
  | .block id offset => (m.block id).stored.getD offset 0
  | .region handle offset => (m.devices.region handle).byte offset

variable {m m' : Memory} {had : Block → Prop}

namespace Sound

theorem usable_or (h : m.Sound had) (addr : UInt32) :
    m.blockIdAt addr = 0 ∨ m.Usable (m.blockIdAt addr) := by
  have hc := h.safe.coherent
  rw [blockIdAt, hc.lookup_active, hc.plain.lookup]
  exact or_iff_not_imp_left.mpr (h.safe.usable _)

theorem size_blockAt (h : m.Sound had) (addr : UInt32) : (m.blockAt addr).size = blockSize := by
  unfold blockAt
  rcases h.usable_or addr with hid | husable
  · rw [hid, h.safe.sentinel]
    rfl
  · exact husable.2

theorem backed_blockAt (h : m.Sound had) (addr : UInt32) :
    (m.blockAt addr).Backed m.devices := h.backed _

theorem readSpan_eq_map (h : m.Sound had) {addr : UInt32} {n : Nat}
    (hfit : offsetInPage addr + n ≤ blockSize) :
    m.readSpan ⟨addr, n⟩ =
      (List.range n).map fun i => (m.blockAt addr).byte m.devices (offsetInPage addr + i) :=
  Block.read_eq_map (h.size_blockAt addr) (h.backed_blockAt addr) hfit

theorem byteAt_eq_byte (h : m.Sound had) (addr : UInt32) :
    m.byteAt addr = (m.blockAt addr).byte m.devices (offsetInPage addr) := by
  unfold byteAt
  rw [h.readSpan_eq_map (offsetInPage_lt addr)]
  rfl

/-- What is read at an address is the byte of its cell. -/
theorem byteAt_eq (h : m.Sound had) (addr : UInt32) :
    m.byteAt addr = ((m.cellAt? addr).map m.cellByte).getD 0xFF := by
  rw [h.byteAt_eq_byte]
  unfold cellAt? Block.byte Block.cell?
  cases hb : m.blockAt addr with
  | window region base =>
    dsimp only
    cases Block.target? m.devices region <;> rfl
  | unconnected => rfl
  | _ =>
    simp only [Option.map_some, Option.getD_some, cellByte]
    rw [← hb]
    rfl

end Sound

@[simp] theorem blockIdAt_storePiece (m : Memory) (piece : Piece) (addr : UInt32) :
    (m.storePiece piece).blockIdAt addr = m.blockIdAt addr := by
  rw [blockIdAt, index_storePiece, blockIdAt]

theorem kind_storePiece (m : Memory) (piece : Piece) (i : BlockId) :
    ((m.storePiece piece).block i).kind = (m.block i).kind := by
  rw [block_storePiece]
  split_ifs with hid
  · rw [Block.kind_write, blockAt, hid]
  · rfl

theorem kind_blockAt_storePiece (m : Memory) (piece : Piece) (addr : UInt32) :
    ((m.storePiece piece).blockAt addr).kind = (m.blockAt addr).kind := by
  unfold blockAt
  rw [blockIdAt_storePiece, kind_storePiece]

theorem cellAt?_storePiece (m : Memory) (piece : Piece) (addr : UInt32) :
    (m.storePiece piece).cellAt? addr = m.cellAt? addr := by
  have hregistered : (m.storePiece piece).devices.registered = m.devices.registered := by
    rw [devices_storePiece, Block.registered_write]
  unfold cellAt? blockAt
  rw [Block.cell?_congr hregistered, blockIdAt_storePiece, block_storePiece]
  split_ifs with hid
  · rw [Block.cell?_write, blockAt, hid]
  · rfl

theorem storeCell?_storePiece (m : Memory) (piece : Piece) (addr : UInt32) :
    (m.storePiece piece).storeCell? addr = m.storeCell? addr := by
  have hwritable :
      ((m.storePiece piece).blockAt addr).isWritable = (m.blockAt addr).isWritable := by
    unfold blockAt
    rw [blockIdAt_storePiece, block_storePiece]
    split_ifs with hid
    · rw [Block.isWritable_write, blockAt, hid]
    · rfl
  have hcell := m.cellAt?_storePiece piece addr
  unfold cellAt? at hcell
  unfold storeCell? Block.storeCell?
  rw [hwritable, hcell]

end Memory
end Mainboard
