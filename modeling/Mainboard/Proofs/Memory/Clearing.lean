import Mainboard.Proofs.Memory.Cells
import Mainboard.Proofs.Memory.Tidy

/-!
# Clearing

A clear goes through the arena and not through the index: RAM is filled with zeros, a code page
gives its storage back, and a window passes the clear on to its region. In a tidy arena these are
the blocks that pages show. So what is zeroed is the writable memory that is mapped: a byte of a
region is lost if some page shows a window over it at the time, however many do, and windows that
have been given up before do no harm to the regions they led to.
-/
namespace Mainboard

namespace RegionTable

/-- A region that is not in the table has no room, so only the empty range is inside of it. -/
theorem byte_region_clearRange {t : RegionTable} {handle offset length : Nat}
    (hin : offset + length ≤ (t.region handle).size) (i j : Nat) :
    ((t.clearRange handle offset length).2.region i).byte j =
      if i = handle ∧ offset ≤ j ∧ j < offset + length then 0 else (t.region i).byte j := by
  obtain ⟨r, hr⟩ : ∃ r, (t.region handle).clearRange offset length = .ok r := ⟨_, if_pos hin⟩
  unfold clearRange
  rw [hr]
  change (((t.note _).setRegion handle r).region i).byte j = _
  rw [region_setRegion]
  by_cases hi : i = handle
  · subst hi
    by_cases hlt : i < t.regions.size
    · rw [if_pos ⟨rfl, hlt⟩, Region.byte_clearRange hr]
      simp
    · have hzero : (t.region i).size = 0 := by
        simp [region, Region.zeroed, Array.getD_eq_getD_getElem?, not_lt.mp hlt]
      rw [if_neg fun h => hlt h.2, if_neg (by omega)]
      rfl
  · rw [if_neg fun h => hi h.1, if_neg fun h => hi h.1]
    rfl

end RegionTable

namespace Block

def cleared : Block → Block
  | .ram data => .ram data.zeroed
  | .code _ => .lazyCode
  | b => b

def Covers (b : Block) (t : RegionTable) (handle offset : Nat) : Prop :=
  ∃ region base, b = .window region base ∧ target? t region = some handle ∧
    base.toNat ≤ offset ∧ offset < base.toNat + blockSize

variable {b : Block} {t t' : RegionTable} {handle offset : Nat}

theorem clear_fst (b : Block) (t : RegionTable) : (b.clear t).1 = b.cleared := by
  unfold clear clearRange
  cases b with
  | ram data => simp [cleared, zeroInside, size]
  | code storage => rfl
  | window region base =>
    dsimp only
    split <;> rfl
  | _ => rfl

@[simp] theorem cleared_cleared (b : Block) : b.cleared.cleared = b.cleared := by
  cases b with
  | ram data => simp [cleared, Bytes.zeroed]
  | _ => rfl

@[simp] theorem kind_cleared (b : Block) : b.cleared.kind = b.kind := by
  cases b <;> rfl

theorem covers_cleared : b.cleared.Covers t handle offset ↔ b.Covers t handle offset := by
  cases b with
  | window region base => rfl
  | _ => simp [Covers, cleared, lazyCode]

theorem covers_congr (h : t'.registered = t.registered) :
    b.Covers t' handle offset ↔ b.Covers t handle offset := by
  unfold Covers target?
  rw [h]

@[simp] theorem registered_clear (b : Block) (t : RegionTable) :
    (b.clear t).2.registered = t.registered := by
  unfold clear clearRange
  cases b with
  | window region base =>
    dsimp only
    split
    · rfl
    · exact t.registered_settle _ _
  | code storage =>
    dsimp only
    split <;> rfl
  | _ => rfl

theorem devices_clear_own (h : b.kind ≠ .window) (t : RegionTable) : (b.clear t).2 = t := by
  unfold clear clearRange
  cases b with
  | window region base => exact absurd rfl h
  | code storage =>
    dsimp only
    split <;> rfl
  | _ => rfl

/-- A window onto a page of its region zeroes that page, and no other block touches a region. -/
theorem byte_region_clear (hb : b.Backed t) :
    (b.Covers t handle offset → ((b.clear t).2.region handle).byte offset = 0) ∧
      (¬b.Covers t handle offset →
        ((b.clear t).2.region handle).byte offset = (t.region handle).byte offset) := by
  by_cases hkind : b.kind = .window
  · obtain ⟨region, base, rfl⟩ := eq_window hkind
    obtain ⟨target, htarget, -, hin⟩ := hb
    have hclear :
        ((window region base).clear t).2 = (t.clearRange target base.toNat blockSize).2 := by
      unfold clear clearRange
      simp only [htarget, windowOffset_zero]
      rfl
    have hcovers : (window region base).Covers t handle offset ↔
        handle = target ∧ base.toNat ≤ offset ∧ offset < base.toNat + blockSize := by
      constructor
      · rintro ⟨_, _, heq, hhandle, hrange⟩
        cases heq
        exact ⟨Option.some.inj (hhandle.symm.trans htarget), hrange⟩
      · rintro ⟨rfl, hrange⟩
        exact ⟨_, _, rfl, htarget, hrange⟩
    rw [hclear, RegionTable.byte_region_clearRange hin, hcovers]
    exact ⟨fun h => if_pos h, fun h => if_neg h⟩
  · rw [devices_clear_own hkind]
    refine ⟨?_, fun _ => rfl⟩
    rintro ⟨region, base, rfl, -⟩
    exact absurd rfl hkind

theorem getD_zeroed (data : Bytes) (i : Nat) : data.zeroed.getD i 0 = 0 := by
  unfold Bytes.zeroed
  rw [Bytes.zeros_eq, List.getD_eq_getElem?_getD, List.getElem?_replicate]
  split_ifs <;> rfl

theorem byte_cleared (hwritable : b.isWritable = true) (hb : b.Backed t)
    (hzero : ∀ handle i, b.Covers t handle i → (t.region handle).byte i = 0)
    (hoffset : offset < blockSize) :
    b.cleared.byte t offset = 0 := by
  cases b with
  | ram data => exact getD_zeroed data offset
  | code storage => exact getD_zeroPage offset
  | window region base =>
    obtain ⟨handle, htarget, -, -⟩ := hb
    have hcover : (window region base).Covers t handle (base.toNat + offset) :=
      ⟨region, base, rfl, htarget, Nat.le_add_right _ _, Nat.add_lt_add_left hoffset _⟩
    unfold cleared byte
    simp only [htarget]
    exact hzero handle _ hcover
  | _ => cases hwritable

/-- A block that swallows stores is passed by, and what it shows does not depend on any region. -/
theorem byte_cleared_of_not_writable (hwritable : b.isWritable = false)
    (t t' : RegionTable) (i : Nat) :
    b.cleared.byte t' i = b.byte t i := by
  cases b with
  | unconnected => rfl
  | rom data => rfl
  | _ => cases hwritable

end Block

namespace Memory

variable {m m' : Memory} {ramSize : UInt32} {regions : Array Region}

/-- The writable memory that pages show is zeroed, and all else is as before: what the pages show,
ROM, and the bytes of regions that no window is over. Addresses are told under both states of the
gate. -/
structure Cleared (m m' : Memory) : Prop where
  writable : ∀ gate addr, ((m.setGateA20 gate).blockAt addr).isWritable = true →
    (m'.setGateA20 gate).byteAt addr = 0
  rom : ∀ gate addr, ((m.setGateA20 gate).blockAt addr).kind = .rom →
    (m'.setGateA20 gate).byteAt addr = (m.setGateA20 gate).byteAt addr
  unconnected : ∀ gate addr, ((m.setGateA20 gate).blockAt addr).kind = .unconnected →
    (m'.setGateA20 gate).byteAt addr = 0xFF
  covered : ∀ handle offset, (∃ p, (m.pageBlock p).Covers m.devices handle offset) →
    (m'.devices.region handle).byte offset = 0
  uncovered : ∀ handle offset, (∀ p, ¬(m.pageBlock p).Covers m.devices handle offset) →
    (m'.devices.region handle).byte offset = (m.devices.region handle).byte offset
  size_region : ∀ handle, (m'.devices.region handle).size = (m.devices.region handle).size
  registered : m'.devices.registered = m.devices.registered
  plain : m'.index.plain = m.index.plain
  masked : m'.index.masked = m.index.masked
  kind : ∀ id, (m'.block id).kind = (m.block id).kind
  mappedCount : m'.mappedCount = m.mappedCount

/-! ## Going through the arena -/

theorem foldl_clearBlock_eq (m : Memory) (ids : List BlockId) : ∃ blocks devices,
    ids.foldl clearBlock m = { m with blocks := blocks, devices := devices } := by
  induction ids generalizing m with
  | nil => exact ⟨_, _, rfl⟩
  | cons id rest ih => exact ih (m.clearBlock id)

/-- What clearing the blocks at some positions leaves, told by the bus before. -/
structure ClearsAt (m : Memory) (ids : List BlockId) (m' : Memory) : Prop where
  tidy : m'.Tidy
  block : ∀ id, m'.block id = if id ∈ ids then (m.block id).cleared else m.block id
  covered : ∀ handle offset, (∃ id ∈ ids, (m.block id).Covers m.devices handle offset) →
    (m'.devices.region handle).byte offset = 0
  uncovered : ∀ handle offset, (∀ id ∈ ids, ¬(m.block id).Covers m.devices handle offset) →
    (m'.devices.region handle).byte offset = (m.devices.region handle).byte offset
  size_region : ∀ handle, (m'.devices.region handle).size = (m.devices.region handle).size
  registered : m'.devices.registered = m.devices.registered

theorem ClearsAt.extends {ids : List BlockId} (h : m.ClearsAt ids m') :
    m.devices.Extends m'.devices where
  registered hi := by rwa [h.registered]
  size_region := h.size_region

theorem Tidy.clearsAt_clearBlock (h : m.Tidy) (id : BlockId) :
    m.ClearsAt [id] (m.clearBlock id) where
  tidy := stable_tidy.clearBlock id h
  block i := by
    rw [block_clearBlock, Block.clear_fst]
    simp only [List.mem_singleton]
  covered handle offset hcover := by
    obtain ⟨i, hi, hcover⟩ := hcover
    rw [List.mem_singleton.mp hi] at hcover
    exact (Block.byte_region_clear (h.backed id)).1 hcover
  uncovered handle offset hnot :=
    (Block.byte_region_clear (h.backed id)).2 (hnot id (List.mem_singleton_self id))
  size_region := ((m.block id).extends_clear m.devices).size_region
  registered := (m.block id).registered_clear m.devices

/-- A byte that a later clear leaves alone may have been zeroed by an earlier one, and stays zero in
any case. -/
theorem ClearsAt.cons {id : BlockId} {ids : List BlockId} (hfirst : m.ClearsAt [id] m')
    {m'' : Memory} (hrest : m'.ClearsAt ids m'') : m.ClearsAt (id :: ids) m'' := by
  have hcovers : ∀ i handle offset, (m'.block i).Covers m'.devices handle offset ↔
      (m.block i).Covers m.devices handle offset := by
    intro i handle offset
    rw [Block.covers_congr hfirst.registered, hfirst.block]
    split_ifs
    · exact Block.covers_cleared
    · rfl
  refine ⟨hrest.tidy, fun i => ?_, fun handle offset hcover => ?_, fun handle offset hnot => ?_,
    fun handle => (hrest.size_region handle).trans (hfirst.size_region handle),
    hrest.registered.trans hfirst.registered⟩
  · rw [hrest.block, hfirst.block]
    by_cases hi : i = id <;> by_cases hmem : i ∈ ids <;> simp [hi, hmem]
  · by_cases hlater : ∃ i ∈ ids, (m.block i).Covers m.devices handle offset
    · obtain ⟨i, hi, hcover⟩ := hlater
      exact hrest.covered handle offset ⟨i, hi, (hcovers i handle offset).mpr hcover⟩
    · obtain ⟨i, hi, hcover⟩ := hcover
      rw [hrest.uncovered handle offset fun j hj hcov =>
        hlater ⟨j, hj, (hcovers j handle offset).mp hcov⟩]
      refine hfirst.covered handle offset ⟨i, ?_, hcover⟩
      rcases List.mem_cons.mp hi with rfl | hi
      · exact List.mem_singleton_self i
      · exact absurd ⟨i, hi, hcover⟩ hlater
  · rw [hrest.uncovered handle offset fun i hi hcov =>
      hnot i (List.mem_cons_of_mem id hi) ((hcovers i handle offset).mp hcov)]
    exact hfirst.uncovered handle offset fun i hi =>
      hnot i (List.mem_singleton.mp hi ▸ List.mem_cons_self)

theorem Tidy.clearsAt_foldl (h : m.Tidy) (ids : List BlockId) :
    m.ClearsAt ids (ids.foldl clearBlock m) := by
  induction ids generalizing m with
  | nil => exact ⟨h, by simp, by simp, fun _ _ _ => rfl, fun _ => rfl, rfl⟩
  | cons id rest ih =>
    have hfirst := h.clearsAt_clearBlock id
    exact hfirst.cons (ih hfirst.tidy)

/-! ## The arena and the pages -/

theorem mem_positions {size id : Nat} : id ∈ List.range' 1 (size - 1) ↔ id ≠ 0 ∧ id < size := by
  rw [List.mem_range'_1]
  omega

/-- A block is met by the clear exactly if some page shows it. -/
theorem Tidy.exists_covers_iff (h : m.Tidy) {handle offset : Nat} :
    (∃ id ∈ List.range' 1 (m.blocks.size - 1), (m.block id).Covers m.devices handle offset) ↔
      ∃ p, (m.pageBlock p).Covers m.devices handle offset := by
  constructor
  · rintro ⟨id, -, hcover⟩
    by_contra hnot
    have hnone := h.unheld id fun p hp => hnot ⟨p, by rwa [pageBlock, h.safe.pageId_eq, hp]⟩
    obtain ⟨region, base, hwindow, -⟩ := hcover
    rw [hnone] at hwindow
    cases hwindow
  · rintro ⟨p, hcover⟩
    refine ⟨m.pageId p, ?_, hcover⟩
    obtain ⟨region, base, hwindow, -⟩ := hcover
    have hne : m.pageId p ≠ 0 := by
      intro hzero
      rw [pageBlock, hzero, h.safe.sentinel] at hwindow
      cases hwindow
    have hlt := (h.safe.usable p (h.safe.pageId_eq p ▸ hne)).lt
    rw [← h.safe.pageId_eq] at hlt
    exact mem_positions.mpr ⟨hne, hlt⟩

theorem Tidy.block_clear (h : m.Tidy) (id : BlockId) : m.clear.block id = (m.block id).cleared := by
  refine ((h.clearsAt_foldl _).block id).trans ?_
  split_ifs with hid
  · rfl
  · have hnone : m.block id = .unconnected := by
      by_cases hzero : id = 0
      · rw [hzero]
        exact h.safe.sentinel
      · have hge : m.blocks.size ≤ id := not_lt.mp fun hlt => hid (mem_positions.mpr ⟨hzero, hlt⟩)
        simp [Memory.block, Array.getD_eq_getD_getElem?, Array.getElem?_eq_none hge]
    rw [hnone]
    rfl

theorem Tidy.setGateA20 (h : m.Tidy) (gate : Bool) : (m.setGateA20 gate).Tidy :=
  stable_tidy.frame h ⟨rfl, rfl, rfl, rfl, rfl, rfl, rfl, rfl, rfl⟩

theorem clear_eq (m : Memory) : ∃ blocks devices,
    m.clear = { m with blocks := blocks, devices := devices } := m.foldl_clearBlock_eq _

@[simp] theorem index_clear (m : Memory) : m.clear.index = m.index := by
  obtain ⟨blocks, devices, h⟩ := m.clear_eq
  rw [h]

theorem Tidy.blockAt_clear (h : m.Tidy) (gate : Bool) (addr : UInt32) :
    (m.clear.setGateA20 gate).blockAt addr = ((m.setGateA20 gate).blockAt addr).cleared := by
  have hid : (m.clear.setGateA20 gate).blockIdAt addr = (m.setGateA20 gate).blockIdAt addr := by
    unfold Memory.setGateA20 blockIdAt
    rw [index_clear]
  unfold blockAt
  rw [hid]
  exact h.block_clear _

/-- An address shows the block of some page under either state of the gate. -/
theorem exists_pageBlock (h : m.index.Coherent) (gate : Bool) (addr : UInt32) :
    ∃ p, (m.setGateA20 gate).blockAt addr = m.pageBlock p :=
  ⟨_, congrArg m.block (blockIdAt_setGateA20 h gate addr)⟩

theorem Tidy.cleared_clear (h : m.Tidy) : m.Cleared m.clear := by
  have hclears : m.ClearsAt _ m.clear := h.clearsAt_foldl _
  have hcovered : ∀ handle offset, (∃ p, (m.pageBlock p).Covers m.devices handle offset) →
      (m.clear.devices.region handle).byte offset = 0 :=
    fun handle offset hp => hclears.covered handle offset (h.exists_covers_iff.mpr hp)
  have hbyte : ∀ gate addr, (m.clear.setGateA20 gate).byteAt addr =
      ((m.setGateA20 gate).blockAt addr).cleared.byte m.clear.devices (offsetInPage addr) := by
    intro gate addr
    rw [(hclears.tidy.setGateA20 gate).sound.byteAt_eq_byte, h.blockAt_clear]
    rfl
  have hkept : ∀ gate addr, ((m.setGateA20 gate).blockAt addr).isWritable = false →
      (m.clear.setGateA20 gate).byteAt addr = (m.setGateA20 gate).byteAt addr := by
    intro gate addr hwritable
    rw [hbyte, (h.setGateA20 gate).sound.byteAt_eq_byte]
    exact Block.byte_cleared_of_not_writable hwritable _ _ _
  obtain ⟨blocks, devices, hframe⟩ := m.clear_eq
  refine ⟨fun gate addr hwritable => ?_, fun gate addr hrom => hkept gate addr ?_,
    fun gate addr hnone => ?_, hcovered, fun handle offset hnot => ?_, hclears.size_region,
    hclears.registered, ?_, ?_, fun id => ?_, ?_⟩
  · rw [hbyte]
    obtain ⟨p, hp⟩ := exists_pageBlock h.safe.coherent gate addr
    rw [hp] at hwritable ⊢
    refine Block.byte_cleared hwritable ((h.backed _).mono hclears.extends)
      (fun handle i hcover => ?_)
      (offsetInPage_lt addr)
    exact hcovered handle i ⟨p, (Block.covers_congr hclears.registered).mp hcover⟩
  · cases hb : (m.setGateA20 gate).blockAt addr with
    | rom data => rfl
    | _ => simp [hb, Block.kind] at hrom
  · cases hb : (m.setGateA20 gate).blockAt addr with
    | unconnected =>
      rw [hbyte, hb]
      rfl
    | _ => simp [hb, Block.kind] at hnone
  · refine hclears.uncovered handle offset fun id hid hcover => ?_
    obtain ⟨p, hp⟩ := h.exists_covers_iff.mp ⟨id, hid, hcover⟩
    exact hnot p hp
  · rw [index_clear]
  · rw [index_clear]
  · rw [h.block_clear, Block.kind_cleared]
  · rw [hframe]

/-- A reset sets flags after the clear, and the gate. Addresses are told under both states of it. -/
theorem Tidy.cleared_reset (h : m.Tidy) : m.Cleared m.reset :=
  have hclear := h.cleared_clear
  ⟨hclear.writable, hclear.rom, hclear.unconnected, hclear.covered, hclear.uncovered,
    hclear.size_region,
    hclear.registered, hclear.plain, hclear.masked, hclear.kind, hclear.mappedCount⟩

/-- In every state that a bus reaches without restores, when what is handed in has storage or is a
window onto a page of a registered region, a clear zeroes the writable memory that is mapped and
nothing else. The flags stay what they are. A reset does the same, disables the gate and drops the
link to the processor, and does not ask for a flush by that. -/
theorem clear_zeroes_mapped (h : ReachedWith (fun t b => b.Backed t) ramSize regions m) :
    (m.Cleared m.clear ∧ m.clear.gateA20 = m.gateA20 ∧ m.clear.pagingActive = m.pagingActive ∧
      m.clear.tlbFlush = m.tlbFlush) ∧
    (m.Cleared m.reset ∧ m.reset.gateA20 = false ∧ m.reset.pagingActive = false ∧
      m.reset.tlbFlush = false) := by
  obtain ⟨blocks, devices, hframe⟩ := m.clear_eq
  have hflags : m.clear.gateA20 = m.gateA20 ∧ m.clear.pagingActive = m.pagingActive ∧
      m.clear.tlbFlush = m.tlbFlush := by
    rw [hframe]
    exact ⟨rfl, rfl, rfl⟩
  exact ⟨⟨h.tidy.cleared_clear, hflags⟩, h.tidy.cleared_reset, rfl, rfl, rfl⟩

/-- The three pages of a region are mapped, the first two of them at a second place as well. Bytes
are stored on both sides of the boundary to the third page, and that page is unmapped again. -/
def overlapping : List Transaction :=
  [.map 0 0x1000 0x3000, .map 0 0x8000 0x2000, .copyIn 0x2FFF [1, 2], .unmap 0x3000 0x1000,
    .allocate 0x4000 (.rom (List.replicate 4096 7)), .setPagingActive true]

/-- The byte under the two windows is lost, the one under the window that was unmapped is not, and
ROM reads as before. After a reset the gate can be enabled, and the second place reads zero too. -/
theorem unmapped_window_spared :
    let m := (new 0 #[.zeroed 0x3000]).run overlapping
    ReachedWith (fun t b => b.Backed t) 0 #[.zeroed 0x3000] m ∧
      (m.devices.region 0).byte 0x1FFF = 1 ∧ (m.clear.devices.region 0).byte 0x1FFF = 0 ∧
      (m.clear.devices.region 0).byte 0x2000 = 2 ∧ (m.clear.setGateA20 true).byteAt 0x4000 = 7 ∧
      (m.reset.setGateA20 true).byteAt 0x9FFF = 0 ∧ m.reset.tlbFlush = false := by
  intro m
  have hstorage : ∀ t ∈ overlapping,
      (∀ input, t ≠ .load input) ∧ ∀ table, t.Hands (fun _ b => b.OwnStorage) table := by
    simp [overlapping, Transaction.Hands, Block.OwnStorage, -List.reduceReplicate]
  have h : ReachedWith (fun t b => b.Backed t) 0 #[.zeroed 0x3000] m :=
    reachedWith_run _ hstorage .new
  obtain ⟨⟨hclear, -⟩, hreset, -, -, hflush⟩ := clear_zeroes_mapped h
  have hwindows : ∀ b ∈ m.blocks.toList,
      b.kind = .window → b = .window 0 0 ∨ b = .window 0 0x1000 := by
    decide +kernel
  have hnot : ∀ p, ¬(m.pageBlock p).Covers m.devices 0 0x2000 := by
    rintro p ⟨region, base, hwindow, -, -, hlt⟩
    have hmem : Block.window region base ∈ m.blocks.toList := by
      unfold pageBlock block at hwindow
      rw [Array.getD_eq_getD_getElem?] at hwindow
      cases hid : m.blocks[m.pageId p]? with
      | none =>
        rw [hid] at hwindow
        cases hwindow
      | some b =>
        rw [hid, Option.getD_some] at hwindow
        rw [← hwindow]
        exact Array.mem_toList_iff.mpr (Array.mem_of_getElem? hid)
    obtain heq | heq := hwindows _ hmem rfl
    · cases heq
      exact absurd hlt (by decide)
    · cases heq
      exact absurd hlt (by decide)
  have hover : (m.pageBlock 2).Covers m.devices 0 0x1FFF :=
    ⟨0, 0x1000, by decide +kernel, by decide +kernel, by decide, by decide⟩
  refine ⟨h, by decide +kernel, hclear.covered 0 _ ⟨2, hover⟩, ?_, ?_,
    hreset.writable true _ (by decide +kernel), hflush⟩
  · exact (hclear.uncovered 0 _ hnot).trans (by decide +kernel)
  · exact (hclear.rom true _ (by decide +kernel)).trans (by decide +kernel)

/-- A window that is handed in may have been cut for a longer region. To clear it is refused as a
whole then, and the bytes before the end of the region stay. -/
theorem clear_past_region_end : ¬ ∀ (ramSize : UInt32) (regions : Array Region)
    (ts : List Transaction), (∀ t ∈ ts, ∀ input, t ≠ .load input) →
    ((new ramSize regions).run ts).Cleared ((new ramSize regions).run ts).clear := by
  intro h
  have hcleared := h 0 #[.zeroed 0x1800]
    [.map 0 0 0x1000, .allocate 0x1000 (.window 0 0x1000), .writeWord 0x1700 1 0x42] (by simp)
  have hbyte := hcleared.writable false 0x1700 (by decide +kernel)
  revert hbyte
  decide +kernel

end Memory
end Mainboard
