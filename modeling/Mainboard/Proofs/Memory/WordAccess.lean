import Mainboard.Proofs.Bytes.LittleEndian
import Mainboard.Proofs.Memory.Cells

/-!
# Words as bytes

A word that fits into a page is one access to a block, any other one is cut into bytes, each with
its own lookup. Both agree with access byte by byte: a word reads as its bytes read, and a store
changes exactly the writable cells that its addresses resolve to. No two bytes of a store share a
cell, because cells keep their place in the page and an access is not longer than a page.
-/
namespace Mainboard
namespace Memory

variable {m m₁ m₂ : Memory} {had : Block → Prop} {addr : UInt32} {src : Bytes}

/-! ## A store within a page -/

/-- What a store of `src` at `addr` does to the cells. -/
structure Stores (m : Memory) (addr : UInt32) (src : Bytes) (m' : Memory) : Prop where
  cellAt? : ∀ a, m'.cellAt? a = m.cellAt? a
  storeCell? : ∀ a, m'.storeCell? a = m.storeCell? a
  hit : ∀ i < src.length, ∀ c, m.storeCell? (addr + UInt32.ofNat i) = some c →
    m'.cellByte c = src.getD i 0
  miss : ∀ c, (∀ i < src.length, m.storeCell? (addr + UInt32.ofNat i) ≠ some c) →
    m'.cellByte c = m.cellByte c

theorem offsetInPage_add (addr : UInt32) (i : Nat) :
    offsetInPage (addr + UInt32.ofNat i) = (addr.toNat + i) % blockSize := by
  unfold offsetInPage blockSize
  rw [UInt32.toNat_add, UInt32.toNat_ofNat']
  omega

theorem toNat_add_of_fit {addr : UInt32} {i : Nat} (h : offsetInPage addr + i < blockSize) :
    (addr + UInt32.ofNat i).toNat = addr.toNat + i := by
  have haddr := addr.toNat_lt
  unfold offsetInPage blockSize at h
  rw [UInt32.toNat_add, UInt32.toNat_ofNat', Nat.mod_eq_of_lt (a := i) (by omega)]
  exact Nat.mod_eq_of_lt (by omega)

theorem page_add {i : Nat} (h : offsetInPage addr + i < blockSize) :
    Page.ofAddr (addr + UInt32.ofNat i) = Page.ofAddr addr ∧
      offsetInPage (addr + UInt32.ofNat i) = offsetInPage addr + i := by
  have hnat := toNat_add_of_fit h
  constructor
  · unfold offsetInPage blockSize at h
    unfold Page.ofAddr
    rw [Fin.mk.injEq, hnat]
    omega
  · rw [offsetInPage_add]
    unfold offsetInPage blockSize at *
    omega

theorem storeCell?_add (m : Memory) {i : Nat} (h : offsetInPage addr + i < blockSize) :
    m.storeCell? (addr + UInt32.ofNat i) =
      (m.blockAt addr).storeCell? m.devices (m.blockIdAt addr) (offsetInPage addr + i) := by
  obtain ⟨hpage, hoffset⟩ := page_add h
  unfold storeCell? blockAt blockIdAt
  rw [hpage, hoffset]

/-- A store whose cells are consecutive in one block or in one region. -/
theorem Stores.of_range (cell : Nat → Cell) (start : Nat)
    (hcellAt : ∀ a, m₁.cellAt? a = m.cellAt? a)
    (hstoreCell : ∀ a, m₁.storeCell? a = m.storeCell? a)
    (hcell : ∀ i < src.length, m.storeCell? (addr + UInt32.ofNat i) = some (cell (start + i)))
    (hbyte : ∀ i, m₁.cellByte (cell i) =
      if start ≤ i ∧ i < start + src.length then src.getD (i - start) 0 else m.cellByte (cell i))
    (hother : ∀ c, (∀ i, c ≠ cell i) → m₁.cellByte c = m.cellByte c) :
    m.Stores addr src m₁ where
  cellAt? := hcellAt
  storeCell? := hstoreCell
  hit := by
    intro i hi c hc
    rw [hcell i hi] at hc
    cases hc
    rw [hbyte, if_pos (by omega), Nat.add_sub_cancel_left]
  miss := by
    intro c hc
    by_cases hmem : ∃ i, c = cell i
    · obtain ⟨i, rfl⟩ := hmem
      rw [hbyte, if_neg]
      rintro ⟨hle, hlt⟩
      have hi := hcell (i - start) (by omega)
      rw [Nat.add_sub_cancel' hle] at hi
      exact hc _ (by omega) hi
    · exact hother c fun i hi => hmem ⟨i, hi⟩

theorem stores_readOnly (hfit : offsetInPage addr + src.length ≤ blockSize)
    (hwritable : (m.blockAt addr).isWritable = false) :
    m.Stores addr src (m.storePiece ⟨addr, src⟩) where
  cellAt? := m.cellAt?_storePiece _
  storeCell? := m.storeCell?_storePiece _
  hit := by
    intro i hi c hc
    rw [m.storeCell?_add (by omega)] at hc
    simp [Block.storeCell?, hwritable] at hc
  miss := by
    intro c _
    have hblock : ∀ id, (m.storePiece ⟨addr, src⟩).block id = m.block id := by
      intro id
      rw [block_storePiece, Block.write_of_not_writable hwritable]
      split_ifs with hid
      · rw [hid]
        rfl
      · rfl
    have hdevices : (m.storePiece ⟨addr, src⟩).devices = m.devices := by
      rw [devices_storePiece, Block.write_of_not_writable hwritable]
    cases c with
    | block id i => simp only [cellByte, hblock]
    | region handle i => simp only [cellByte, hdevices]

theorem Sound.stores_own (h : m.Sound had)
    (hfit : offsetInPage addr + src.length ≤ blockSize)
    (hwritable : (m.blockAt addr).isWritable = true) (hown : (m.blockAt addr).kind ≠ .window) :
    m.Stores addr src (m.storePiece ⟨addr, src⟩) := by
  refine .of_range (.block (m.blockIdAt addr)) (offsetInPage addr) (m.cellAt?_storePiece _)
    (m.storeCell?_storePiece _) ?_ ?_ ?_
  · intro i hi
    rw [m.storeCell?_add (by omega)]
    exact Block.storeCell?_own hwritable hown _ _ _
  · intro i
    simp only [cellByte]
    rw [block_storePiece, if_pos rfl]
    exact Block.stored_write (h.size_blockAt addr) (h.backed_blockAt addr) hwritable hown hfit i
  · intro c hc
    cases c with
    | block id i =>
      have hid : id ≠ m.blockIdAt addr := fun hid => hc i (hid ▸ rfl)
      simp only [cellByte]
      rw [block_storePiece, if_neg hid]
    | region handle i =>
      simp only [cellByte]
      rw [devices_storePiece, Block.devices_write_own hwritable hown]

theorem Sound.stores_window (h : m.Sound had)
    (hfit : offsetInPage addr + src.length ≤ blockSize) {region : Nat} {base : UInt64}
    (hwindow : m.blockAt addr = .window region base) :
    m.Stores addr src (m.storePiece ⟨addr, src⟩) := by
  have hbacked := h.backed_blockAt addr
  rw [hwindow] at hbacked
  obtain ⟨handle, htarget, hdvd, hin⟩ := hbacked
  have hoffset : offsetInPage addr < blockSize := offsetInPage_lt addr
  have hblock : ∀ id, (m.storePiece ⟨addr, src⟩).block id = m.block id := by
    intro id
    rw [block_storePiece]
    split_ifs with hid
    · dsimp only at hid ⊢
      rw [hwindow, Block.write_window htarget hdvd hoffset, hid, ← hwindow]
      rfl
    · rfl
  have hdevices : (m.storePiece ⟨addr, src⟩).devices =
      (m.devices.write handle (base.toNat + offsetInPage addr) src).2 := by
    rw [devices_storePiece]
    dsimp only
    rw [hwindow, Block.write_window htarget hdvd hoffset]
  have hrange : base.toNat + offsetInPage addr + src.length ≤ (m.devices.region handle).size := by
    omega
  refine .of_range (.region handle) (base.toNat + offsetInPage addr) (m.cellAt?_storePiece _)
    (m.storeCell?_storePiece _) ?_ ?_ ?_
  · intro i hi
    rw [m.storeCell?_add (by omega), hwindow]
    simp [Block.storeCell?, Block.isWritable, Block.cell?, htarget, Nat.add_assoc]
  · intro i
    simp only [cellByte]
    rw [hdevices, RegionTable.byte_region_write hrange]
    simp
  · intro c hc
    cases c with
    | block id i => simp only [cellByte, hblock]
    | region target i =>
      have hne : target ≠ handle := fun heq => hc i (heq ▸ rfl)
      simp only [cellByte]
      rw [hdevices, RegionTable.byte_region_write hrange, if_neg fun h => hne h.1]

theorem Sound.stores_storePiece (h : m.Sound had)
    (hfit : offsetInPage addr + src.length ≤ blockSize) :
    m.Stores addr src (m.storePiece ⟨addr, src⟩) := by
  by_cases hwritable : (m.blockAt addr).isWritable = true
  · by_cases hown : (m.blockAt addr).kind = .window
    · obtain ⟨region, base, hwindow⟩ := Block.eq_window hown
      exact h.stores_window hfit hwindow
    · exact h.stores_own hfit hwritable hown
  · exact stores_readOnly hfit (by simpa using hwritable)

/-! ## Stores byte by byte -/

/-- The offset of a cell counts like the offset of its addresses, since windows start at pages of
their regions. -/
theorem Sound.offset_cellAt? (h : m.Sound had) {c : Cell} (hc : m.cellAt? addr = some c) :
    c.offset % blockSize = offsetInPage addr := by
  have hlt := offsetInPage_lt addr
  have hbacked := h.backed_blockAt addr
  have hown : offsetInPage addr % blockSize = offsetInPage addr := Nat.mod_eq_of_lt hlt
  unfold cellAt? at hc
  cases hb : m.blockAt addr with
  | unconnected =>
    rw [hb] at hc
    cases hc
  | window region base =>
    rw [hb] at hc hbacked
    obtain ⟨handle, htarget, hdvd, -⟩ := hbacked
    simp only [Block.cell?, htarget, Option.map_some, Option.some.injEq] at hc
    subst hc
    obtain ⟨k, hk⟩ := hdvd
    simp only [Cell.offset]
    rw [hk, Nat.mul_add_mod]
    exact hown
  | _ =>
    rw [hb] at hc
    cases hc
    exact hown

theorem cellAt?_of_storeCell? {c : Cell} (hc : m.storeCell? addr = some c) :
    m.cellAt? addr = some c := by
  unfold storeCell? Block.storeCell? at hc
  split_ifs at hc
  exact hc

/-- Addresses that are less than a page apart never resolve to the same cell. -/
theorem Sound.storeCell?_inj (h : m.Sound had) {i j : Nat} (hi : i < blockSize) (hj : j < blockSize)
    {c : Cell} (hci : m.storeCell? (addr + UInt32.ofNat i) = some c)
    (hcj : m.storeCell? (addr + UInt32.ofNat j) = some c) : i = j := by
  have hoi := h.offset_cellAt? (cellAt?_of_storeCell? hci)
  have hoj := h.offset_cellAt? (cellAt?_of_storeCell? hcj)
  rw [offsetInPage_add] at hoi hoj
  unfold blockSize at *
  omega

theorem add_ofNat_zero (addr : UInt32) : addr + UInt32.ofNat 0 = addr := UInt32.add_zero addr

theorem add_ofNat_succ (addr : UInt32) (i : Nat) :
    addr + UInt32.ofNat (i + 1) = addr + 1 + UInt32.ofNat i := by
  rw [UInt32.ofNat_add, UInt32.add_comm (UInt32.ofNat i), UInt32.add_assoc]
  rfl

theorem Stores.cons (h : m.Sound had) {b : UInt8} (hlen : src.length < blockSize)
    (h₁ : m.Stores addr [b] m₁) (h₂ : m₁.Stores (addr + 1) src m₂) :
    m.Stores addr (b :: src) m₂ := by
  have hcell : ∀ i, m₁.storeCell? (addr + 1 + UInt32.ofNat i) =
      m.storeCell? (addr + UInt32.ofNat (i + 1)) := by
    intro i
    rw [h₁.storeCell?, add_ofNat_succ]
  refine ⟨fun a => (h₂.cellAt? a).trans (h₁.cellAt? a),
    fun a => (h₂.storeCell? a).trans (h₁.storeCell? a), ?_, ?_⟩
  · intro i hi c hc
    rw [List.length_cons] at hi
    cases i with
    | zero =>
      -- the rest does not overwrite the first byte, since no two bytes share a cell
      rw [h₂.miss c, h₁.hit 0 Nat.one_pos c hc]
      · rfl
      · intro j hj hcj
        rw [hcell] at hcj
        exact absurd (h.storeCell?_inj (by omega) (by omega) hc hcj) (Nat.succ_ne_zero j).symm
    | succ i =>
      rw [← hcell] at hc
      rw [h₂.hit i (by omega) c hc]
      rfl
  · intro c hc
    rw [h₂.miss c, h₁.miss c]
    · intro i hi
      rw [List.length_singleton, Nat.lt_one_iff] at hi
      subst hi
      exact hc 0 (Nat.succ_pos _)
    · intro i hi
      rw [hcell]
      exact hc (i + 1) (Nat.succ_lt_succ hi)

theorem Sound.stores_bytes (h : m.Sound had) (addr : UInt32) (hlen : src.length ≤ blockSize)
    (k : Nat) :
    m.Stores (addr + UInt32.ofNat k) src
      (((src.zipIdx k).map fun (b, i) => (⟨addr + UInt32.ofNat i, [b]⟩ : Piece)).foldl
        Memory.storePiece m) := by
  induction src generalizing m k with
  | nil =>
    refine ⟨fun _ => rfl, fun _ => rfl, fun i hi => ?_, fun _ _ => rfl⟩
    cases hi
  | cons b bs ih =>
    rw [List.length_cons] at hlen
    have hfit : offsetInPage (addr + UInt32.ofNat k) + [b].length ≤ blockSize :=
      offsetInPage_lt _
    have hnext : addr + UInt32.ofNat k + 1 = addr + UInt32.ofNat (k + 1) := by
      rw [UInt32.ofNat_add, ← UInt32.add_assoc]
      rfl
    have hrest := ih (h.storePiece ⟨addr + UInt32.ofNat k, [b]⟩) (by omega) (k + 1)
    rw [← hnext] at hrest
    exact .cons h (by omega) (h.stores_storePiece hfit) hrest

theorem Sound.stores_writeBytes (h : m.Sound had) (hlen : src.length ≤ blockSize) :
    m.Stores addr src (m.writeBytes addr src) := by
  unfold Memory.writeBytes Piece.ofWord
  split_ifs with hfit
  · exact h.stores_storePiece hfit
  · have hbytes := h.stores_bytes addr hlen 0
    rwa [add_ofNat_zero] at hbytes

/-! ## Words -/

theorem Sound.readSpan_eq_bytes (h : m.Sound had) {n : Nat}
    (hfit : offsetInPage addr + n ≤ blockSize) :
    m.readSpan ⟨addr, n⟩ = (List.range n).map fun i => m.byteAt (addr + UInt32.ofNat i) := by
  rw [h.readSpan_eq_map hfit]
  refine List.map_congr_left fun i hi => ?_
  rw [List.mem_range] at hi
  have hlt : offsetInPage addr + i < blockSize := (Nat.add_lt_add_left hi _).trans_le hfit
  obtain ⟨hpage, hoffset⟩ := page_add hlt
  rw [h.byteAt_eq_byte]
  unfold blockAt blockIdAt
  rw [hpage, hoffset]

theorem Sound.readSpans_ofWord (h : m.Sound had) (addr : UInt32) (width : Nat) :
    m.readSpans (Span.ofWord addr width) =
      (List.range width).map fun i => m.byteAt (addr + UInt32.ofNat i) := by
  unfold Span.ofWord
  split_ifs with hfit
  · have hspan : m.readSpans [⟨addr, width⟩] = m.readSpan ⟨addr, width⟩ := List.append_nil _
    rw [hspan, h.readSpan_eq_bytes hfit]
  · have hbyte : ∀ a, m.readSpan ⟨a, 1⟩ = [m.byteAt a] := by
      intro a
      rw [h.byteAt_eq_byte, h.readSpan_eq_map (offsetInPage_lt a)]
      rfl
    unfold readSpans
    rw [List.flatMap_map]
    simp only [hbyte]
    exact List.map_eq_flatMap.symm

theorem index_writeBytes (m : Memory) (addr : UInt32) (src : Bytes) :
    (m.writeBytes addr src).index = m.index :=
  writeBytes_induction (P := fun n => n.index = m.index)
    (fun n piece hn => (n.index_storePiece piece).trans hn) rfl addr src

theorem mappedCount_writeBytes (m : Memory) (addr : UInt32) (src : Bytes) :
    (m.writeBytes addr src).mappedCount = m.mappedCount := by
  refine writeBytes_induction (P := fun n => n.mappedCount = m.mappedCount) ?_ rfl addr src
  intro n piece hn
  obtain ⟨_, hpiece⟩ := n.storePiece_eq piece
  rw [hpiece]
  exact hn

theorem Sound.writeBytes (h : m.Sound had) (addr : UInt32) (src : Bytes) :
    (m.writeBytes addr src).Sound had :=
  (stable_sound had).writeBytes h addr src

/-- Stores reach the cells of RAM, of code pages and of regions. -/
def Writable (m : Memory) : Cell → Prop
  | .block id _ => (m.block id).isWritable = true
  | .region _ _ => True

theorem storeCell?_eq_some_iff {c : Cell} :
    m.storeCell? addr = some c ↔ m.cellAt? addr = some c ∧ m.Writable c := by
  have hwritable : m.cellAt? addr = some c →
      ((m.blockAt addr).isWritable = true ↔ m.Writable c) := by
    intro hc
    unfold cellAt? at hc
    cases hb : m.blockAt addr with
    | unconnected =>
      rw [hb] at hc
      cases hc
    | window region base =>
      rw [hb] at hc
      obtain ⟨handle, -, rfl⟩ := Option.map_eq_some_iff.mp hc
      simp [Block.isWritable, Writable]
    | _ =>
      rw [hb] at hc
      cases hc
      rw [← hb]
      rfl
  unfold storeCell? Block.storeCell?
  constructor
  · intro hc
    split_ifs at hc with hw
    exact ⟨hc, (hwritable hc).mp hw⟩
  · rintro ⟨hc, hw⟩
    rw [if_pos ((hwritable hc).mpr hw)]
    exact hc

/-- Two addresses resolve to the same cell, one that stores reach. -/
def ShareWritable (m : Memory) (a b : UInt32) : Prop :=
  ∃ c, m.cellAt? a = some c ∧ m.cellAt? b = some c ∧ m.Writable c

theorem Sound.block_writeBytes (h : m.Sound had) {id : BlockId}
    (hid : (m.block id).isWritable = false) (addr : UInt32) (src : Bytes) :
    (m.writeBytes addr src).block id = m.block id := by
  refine (writeBytes_induction (P := fun n => n.Sound had ∧ n.block id = m.block id) ?_
    ⟨h, rfl⟩ addr src).2
  rintro n piece ⟨hn, hsame⟩
  refine ⟨hn.storePiece piece, ?_⟩
  rw [block_storePiece]
  split_ifs with heq
  · rw [blockAt, ← heq, hsame, Block.write_of_not_writable hid]
  · exact hsame

/-- The bus is a memory of bytes: a word reads as its bytes, wherever they lie and also around the
top of the address space, and a store gives each of its bytes to all addresses that resolve to the
same writable cell, and changes nothing else, not what is mapped either. -/
theorem word_access_bytewise {ramSize : UInt32} {regions : Array Region}
    (h : Reached ramSize regions had m) (addr : UInt32) {width : Nat} (hwidth : width ≤ blockSize)
    (value : Nat) :
    let m' := m.writeWord addr width value
    m.readWord addr width =
        LittleEndian.ofBytes ((List.range width).map fun i => m.byteAt (addr + UInt32.ofNat i)) ∧
      (∀ b, ∀ i < width, m.ShareWritable b (addr + UInt32.ofNat i) →
        m'.byteAt b = UInt8.ofNat (value / 256 ^ i)) ∧
      (∀ b, (∀ i < width, ¬ m.ShareWritable b (addr + UInt32.ofNat i)) →
        m'.byteAt b = m.byteAt b) ∧
      (∀ id, (m.block id).isWritable = false → m'.block id = m.block id) ∧
      m'.index = m.index ∧ m'.mappedCount = m.mappedCount := by
  intro m'
  have hsound := h.sound
  have hsound' : m'.Sound had := hsound.writeBytes addr _
  have hlength := LittleEndian.length_toBytes width value
  have hstores : m.Stores addr (LittleEndian.toBytes width value) m' :=
    hsound.stores_writeBytes (hlength.trans_le hwidth)
  refine ⟨?_, ?_, ?_, ?_, index_writeBytes m addr _, mappedCount_writeBytes m addr _⟩
  · rw [readWord, hsound.readSpans_ofWord]
  · rintro b i hi ⟨c, hb, hc, hw⟩
    have hcell := storeCell?_eq_some_iff.mpr ⟨hc, hw⟩
    rw [hsound'.byteAt_eq, hstores.cellAt?, hb, ← LittleEndian.getD_toBytes hi]
    exact hstores.hit i (hi.trans_eq hlength.symm) c hcell
  · intro b hb
    rw [hsound'.byteAt_eq, hsound.byteAt_eq, hstores.cellAt?]
    cases hc : m.cellAt? b with
    | none => rfl
    | some c =>
      refine hstores.miss c fun i hi hcell => ?_
      rw [hlength] at hi
      obtain ⟨hci, hw⟩ := storeCell?_eq_some_iff.mp hcell
      exact hb i hi ⟨c, hc, hci, hw⟩
  · intro id hid
    exact hsound.block_writeBytes hid addr _

/-- With the gate disabled, the second byte of a word at the last address lands at the first one,
and reads at one megabyte as well. -/
theorem word_around_top :
    let m := ((new 0 #[]).step (.allocate 0xFFEFF000 .freshRam)).step (.allocate 0 .freshRam)
    (∃ had, Reached 0 #[] had m) ∧ (m.writeWord 0xFFFFFFFF 2 0x1234).byteAt 0x00100000 = 0x12 := by
  intro m
  have hfirst : Reached 0 #[] _ ((new 0 #[]).step (.allocate 0xFFEFF000 .freshRam)) :=
    .step _ .new (by simp) (Or.inl trivial)
  have hm : Reached 0 #[] _ m := .step _ hfirst (by simp) (Or.inl trivial)
  have hcell : m.cellAt? 0x00100000 = some (.block 2 0) ∧ m.cellAt? 0 = some (.block 2 0) := by
    decide +kernel
  have hwritable : (m.block 2).isWritable = true := by decide +kernel
  refine ⟨⟨_, hm⟩, ?_⟩
  exact (word_access_bytewise hm 0xFFFFFFFF (by decide) 0x1234).2.1 0x00100000 1 (by decide)
    ⟨.block 2 0, hcell.1, hcell.2, hwritable⟩

end Memory
end Mainboard
