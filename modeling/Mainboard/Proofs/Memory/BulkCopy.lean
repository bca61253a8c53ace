import Mainboard.Proofs.Memory.Layout
import Mainboard.Proofs.Memory.PageMap
import Mainboard.Proofs.Memory.WordAccess

/-!
# Bulk transfers byte by byte

A bulk transfer goes page by page: one lookup and one access for all bytes of a page, and a page
that is not connected is connected before its bytes are stored. Byte by byte the same happens, since
the first byte of a page connects it and the others find it connected. Only the records tell the two
apart, which have one entry for each access.
-/
namespace Mainboard

namespace Bytes

theorem overwrite_cons (data : Bytes) (offset : Nat) (b : UInt8) (bs : Bytes) :
    data.overwrite offset (b :: bs) = (data.overwrite offset [b]).overwrite (offset + 1) bs := by
  apply List.ext_getElem?
  intro i
  simp only [getElem?_overwrite, length_overwrite, List.length_cons, List.length_nil]
  by_cases hi : i = offset
  · subst hi
    simp
  · by_cases hle : offset ≤ i
    · obtain ⟨k, rfl⟩ : ∃ k, i = offset + 1 + k := ⟨i - (offset + 1), by omega⟩
      have hindex : offset + 1 + k - offset = k + 1 := by omega
      simp only [hindex, List.getElem?_cons_succ, Nat.add_sub_cancel_left]
      split_ifs <;> first | rfl | omega
    · split_ifs <;> first | rfl | omega

end Bytes

namespace RegionTable

def quiet (t : RegionTable) : RegionTable := { t with accesses := [] }

theorem write_of_fits {t : RegionTable} {handle offset : Nat} {src : Bytes}
    (h : offset + src.length ≤ (t.region handle).size) :
    (t.write handle offset src).2 = (t.note [⟨handle, .write, offset, src.length⟩]).setRegion handle
      { t.region handle with cells := Region.store (t.region handle).cells offset src } := by
  have hwrite : (t.region handle).write offset src =
      .ok { t.region handle with cells := Region.store (t.region handle).cells offset src } :=
    if_pos h
  unfold write settle
  rw [hwrite]

theorem quiet_write_cons {t : RegionTable} {handle offset : Nat} {b : UInt8} {bs : Bytes}
    (h : offset + (b :: bs).length ≤ (t.region handle).size) :
    (t.write handle offset (b :: bs)).2.quiet =
      ((t.write handle offset [b]).2.write handle (offset + 1) bs).2.quiet := by
  rw [List.length_cons] at h
  have hlt : handle < t.regions.size := by
    by_contra hge
    have hzero : (t.region handle).size = 0 := by
      simp [region, Region.zeroed, Array.getD_eq_getD_getElem?, not_lt.mp hge]
    omega
  have hfirst : offset + [b].length ≤ (t.region handle).size := by
    rw [List.length_singleton]
    omega
  have hregion : (t.write handle offset [b]).2.region handle =
      { t.region handle with cells := Region.store (t.region handle).cells offset [b] } := by
    rw [write_of_fits hfirst, region_setRegion]
    exact if_pos ⟨rfl, hlt⟩
  have hrest : offset + 1 + bs.length ≤ ((t.write handle offset [b]).2.region handle).size := by
    rw [hregion]
    dsimp only
    omega
  rw [write_of_fits h, write_of_fits hrest, hregion, write_of_fits hfirst]
  simp only [quiet, setRegion, note, Array.setIfInBounds_setIfInBounds]
  rfl

theorem quiet_quiet_write (t : RegionTable) (handle offset : Nat) (src : Bytes) :
    (t.quiet.write handle offset src).2.quiet = (t.write handle offset src).2.quiet := by
  unfold write settle
  have hregion : t.quiet.region handle = t.region handle := rfl
  rw [hregion]
  cases (t.region handle).write offset src <;> rfl

end RegionTable

namespace Block

variable {b : Block} {t : RegionTable} {offset : Nat}

theorem write_cons (h : b.Backed t) {byte : UInt8} {bs : Bytes} (hnext : offset + 1 < blockSize)
    (hfit : offset + (byte :: bs).length ≤ blockSize) :
    let first := b.write t offset [byte]
    let rest := first.1.write first.2 (offset + 1) bs
    (b.write t offset (byte :: bs)).1 = rest.1 ∧
      (b.write t offset (byte :: bs)).2.quiet = rest.2.quiet := by
  cases b with
  | unconnected => exact ⟨rfl, rfl⟩
  | rom data => exact ⟨rfl, rfl⟩
  | ram data => exact ⟨congrArg Block.ram (data.overwrite_cons offset byte bs), rfl⟩
  | code storage =>
    refine ⟨congrArg (fun data => Block.code (some data)) ?_, rfl⟩
    exact (allocated storage).overwrite_cons offset byte bs
  | window region base =>
    obtain ⟨handle, htarget, hdvd, hin⟩ := h
    have htarget' :
        target? (t.write handle (base.toNat + offset) [byte]).2 region = some handle := by
      unfold target? RegionTable.write
      rw [RegionTable.registered_settle]
      exact htarget
    have hrange : base.toNat + offset + (byte :: bs).length ≤ (t.region handle).size := by omega
    have hoffset : offset < blockSize := Nat.lt_of_succ_lt hnext
    dsimp only
    rw [write_window htarget hdvd hoffset, write_window htarget hdvd hoffset,
      write_window htarget' hdvd hnext, ← Nat.add_assoc]
    exact ⟨rfl, RegionTable.quiet_write_cons hrange⟩

theorem write_quiet (b : Block) (t : RegionTable) (offset : Nat) (src : Bytes) :
    (b.write t.quiet offset src).1 = (b.write t offset src).1 ∧
      (b.write t.quiet offset src).2.quiet = (b.write t offset src).2.quiet := by
  cases b with
  | window region base =>
    have hsame : target? t.quiet region = target? t region := rfl
    unfold write
    dsimp only
    rw [hsame]
    cases target? t region with
    | none => exact ⟨rfl, rfl⟩
    | some handle => exact ⟨rfl, t.quiet_quiet_write handle _ src⟩
  | _ => exact ⟨rfl, rfl⟩

end Block

def Notice.isPromoted : Notice → Bool
  | .promoted _ => true
  | .codeWritten _ _ => false

namespace Memory

/-- The bus without the records of single stores: the accesses to regions and the reports of stores
into code pages. What has been promoted, and in which order, is part of it. -/
def quiet (m : Memory) : Memory :=
  { m with devices := m.devices.quiet, notices := m.notices.filter Notice.isPromoted }

def ensure (m : Memory) (addr : UInt32) : Memory :=
  if m.blockIdAt addr = 0 then m.promote addr else m

def copyInEach (m : Memory) (addr : UInt32) : Bytes → Memory
  | [] => m
  | b :: bs => ((m.ensure addr).writeWord addr 1 b.toNat).copyInEach (addr + 1) bs

variable {m m' : Memory} {had : Block → Prop} {addr : UInt32} {b : UInt8} {bs src : Bytes}

theorem storeOrPromote_eq (m : Memory) (piece : Piece) :
    m.storeOrPromote piece = (m.ensure piece.addr).storePiece piece := rfl

theorem writeWord_byte (m : Memory) (addr : UInt32) (b : UInt8) :
    m.writeWord addr 1 b.toNat = m.storePiece ⟨addr, [b]⟩ := by
  have hbytes : LittleEndian.toBytes 1 b.toNat = [b] := by simp [LittleEndian.toBytes]
  have hfit : offsetInPage addr + [b].length ≤ 4096 := offsetInPage_lt addr
  unfold writeWord writeBytes Piece.ofWord
  rw [hbytes, if_pos hfit]
  rfl

theorem copyInEach_cons (m : Memory) (addr : UInt32) (b : UInt8) (bs : Bytes) :
    m.copyInEach addr (b :: bs) = (m.storeOrPromote ⟨addr, [b]⟩).copyInEach (addr + 1) bs := by
  rw [copyInEach, writeWord_byte, storeOrPromote_eq]

/-! ## What is recorded does not matter -/

theorem quiet_storePiece (m : Memory) (piece : Piece) :
    let stored := (m.blockAt piece.addr).write m.devices (offsetInPage piece.addr) piece.bytes
    (m.storePiece piece).quiet =
      { m.quiet with
        blocks := m.blocks.setIfInBounds (m.blockIdAt piece.addr) stored.1
        devices := stored.2.quiet } := by
  unfold storePiece notify quiet
  dsimp only
  split_ifs
  · simp only [List.filter_append]
    simp [blockAt, Notice.isPromoted]
  · rfl

theorem quiet_storePiece_quiet (m : Memory) (piece : Piece) :
    (m.quiet.storePiece piece).quiet = (m.storePiece piece).quiet := by
  obtain ⟨hblock, hdevices⟩ :=
    (m.blockAt piece.addr).write_quiet m.devices (offsetInPage piece.addr) piece.bytes
  rw [quiet_storePiece, quiet_storePiece, ← hblock, ← hdevices]
  simp only [quiet, List.filter_filter, Bool.and_self]
  rfl

theorem alloc_quiet (m : Memory) (b : Block) :
    m.quiet.alloc b = ((m.alloc b).1, (m.alloc b).2.quiet) := by
  cases hfree : m.free with
  | nil => rw [alloc_nil hfree, alloc_nil (m := m.quiet) hfree]; rfl
  | cons id rest => rw [alloc_cons hfree, alloc_cons (m := m.quiet) hfree]; rfl

theorem release_quiet (m : Memory) (id : BlockId) : m.quiet.release id = (m.release id).quiet := by
  unfold release
  dsimp only [quiet]
  split_ifs <;> rfl

theorem install_quiet (m : Memory) (p : Page) (id : BlockId) :
    m.quiet.install p id = (m.install p id).quiet := by
  unfold install
  dsimp only
  rw [← release_quiet]
  split_ifs <;> rfl

theorem connect_quiet (m : Memory) (p : Page) (b : Block) :
    m.quiet.connect p b = ((m.connect p b).1, (m.connect p b).2.quiet) := by
  unfold connect
  rw [alloc_quiet]
  dsimp only
  rw [install_quiet]
  rfl

theorem promote_quiet (m : Memory) (addr : UInt32) :
    m.quiet.promote addr = (m.promote addr).quiet := by
  have heffective : m.quiet.effective addr = m.effective addr := rfl
  unfold promote
  dsimp only
  rw [heffective, connect_quiet]
  simp only [quiet, notify, List.filter_append]
  rfl

theorem ensure_quiet (m : Memory) (addr : UInt32) :
    m.quiet.ensure addr = (m.ensure addr).quiet := by
  have hid : m.quiet.blockIdAt addr = m.blockIdAt addr := rfl
  unfold ensure
  rw [hid, promote_quiet]
  split_ifs <;> rfl

theorem quiet_storeOrPromote_quiet (m : Memory) (piece : Piece) :
    (m.quiet.storeOrPromote piece).quiet = (m.storeOrPromote piece).quiet := by
  rw [storeOrPromote_eq, storeOrPromote_eq, ensure_quiet, quiet_storePiece_quiet]

theorem quiet_storeOrPromote_congr (h : m.quiet = m'.quiet) (piece : Piece) :
    (m.storeOrPromote piece).quiet = (m'.storeOrPromote piece).quiet := by
  rw [← quiet_storeOrPromote_quiet, h, quiet_storeOrPromote_quiet]

theorem quiet_copyInEach_congr (h : m.quiet = m'.quiet) (addr : UInt32) (src : Bytes) :
    (m.copyInEach addr src).quiet = (m'.copyInEach addr src).quiet := by
  induction src generalizing m m' addr with
  | nil => exact h
  | cons b bs ih =>
    rw [copyInEach_cons, copyInEach_cons]
    exact ih (quiet_storeOrPromote_congr h _) (addr + 1)

/-! ## Promoting a page -/

theorem promote_eq (m : Memory) (addr : UInt32) : m.promote addr =
    (m.connect (m.pageAt addr) .lazyCode).2.notify (.promoted (m.pageAt addr).base) := by
  unfold promote
  rw [ofAddr_effective]
  rfl

theorem index_promote (m : Memory) (addr : UInt32) : (m.promote addr).index =
    m.index.set (m.pageAt addr) (m.connect (m.pageAt addr) .lazyCode).1 := by
  rw [promote_eq]
  exact m.index_connect _ .lazyCode

theorem pageAt_promote (m : Memory) (addr a : UInt32) : (m.promote addr).pageAt a = m.pageAt a := by
  unfold pageAt
  rw [index_promote]
  rfl

/-- The page of an address, and no other, goes over to an empty code page at a new position. -/
structure Promotes (m : Memory) (addr : UInt32) (id : BlockId) (m' : Memory) : Prop where
  ne_zero : id ≠ 0
  unheld : ∀ a, m.blockIdAt a ≠ id
  blockIdAt : ∀ a, m'.blockIdAt a = if m.pageAt a = m.pageAt addr then id else m.blockIdAt a
  block : ∀ i, m'.block i = if i = id then .lazyCode else m.block i
  pageAt : ∀ a, m'.pageAt a = m.pageAt a
  devices : m'.devices = m.devices

theorem Sound.storeOrPromote (h : m.Sound had) (piece : Piece) :
    (m.storeOrPromote piece).Sound had :=
  (stable_sound had).storeOrPromote (fun _ _ => Block.Made.backed) h piece

theorem Sound.promote (h : m.Sound had) (hid : m.blockIdAt addr = 0) : (m.promote addr).Sound had :=
  (stable_sound had).promote (fun _ _ => Block.Made.backed) h hid

theorem Sound.ensure (h : m.Sound had) (addr : UInt32) : (m.ensure addr).Sound had := by
  unfold Memory.ensure
  split_ifs with hid
  · exact h.promote hid
  · exact h

theorem Sound.promotes (h : m.Sound had) (hid : m.blockIdAt addr = 0) :
    ∃ id, m.Promotes addr id (m.promote addr) := by
  have hpageId : m.pageId (m.pageAt addr) = 0 := by
    rw [h.safe.pageId_eq, ← blockIdAt_eq h.safe.coherent]
    exact hid
  have hfresh := h.safe.fresh_alloc .lazyCode
  refine ⟨(m.connect (m.pageAt addr) .lazyCode).1, hfresh.ne_zero, ?_, ?_, ?_,
    m.pageAt_promote addr, ?_⟩
  · intro a
    rw [blockIdAt_eq h.safe.coherent, ← m.index_alloc .lazyCode]
    exact hfresh.unheld (m.pageAt a)
  · intro a
    rw [blockIdAt_eq (h.promote hid).safe.coherent, pageAt_promote, index_promote,
      blockIdAt_eq h.safe.coherent]
    exact PageTable.sparse_store _ _ _ _
  · intro i
    rw [promote_eq]
    exact h.safe.block_connect hpageId .lazyCode i
  · rw [promote_eq]
    exact m.devices_connect _ .lazyCode

theorem Sound.blockIdAt_ensure (h : m.Sound had) (addr : UInt32) :
    (m.ensure addr).blockIdAt addr ≠ 0 := by
  unfold Memory.ensure
  split_ifs with hid
  · obtain ⟨id, hpromotes⟩ := h.promotes hid
    rw [hpromotes.blockIdAt, if_pos rfl]
    exact hpromotes.ne_zero
  · exact hid

/-! ## The bytes of a page -/

theorem page_succ (hfit : offsetInPage addr + 1 < blockSize) :
    Page.ofAddr (addr + 1) = Page.ofAddr addr ∧ offsetInPage (addr + 1) = offsetInPage addr + 1 :=
  page_add hfit

theorem blockIdAt_succ (m : Memory) (hfit : offsetInPage addr + 1 < blockSize) :
    m.blockIdAt (addr + 1) = m.blockIdAt addr := by
  unfold blockIdAt
  rw [(page_succ hfit).1]

theorem Sound.quiet_storePiece_cons (h : m.Sound had) (hbs : bs ≠ [])
    (hfit : offsetInPage addr + (b :: bs).length ≤ blockSize) :
    (m.storePiece ⟨addr, b :: bs⟩).quiet =
      ((m.storePiece ⟨addr, [b]⟩).storePiece ⟨addr + 1, bs⟩).quiet := by
  have hpos := List.length_pos_iff.mpr hbs
  have hnext : offsetInPage addr + 1 < blockSize := by
    rw [List.length_cons] at hfit
    omega
  obtain ⟨hblock, hdevices⟩ := Block.write_cons (h.backed_blockAt addr) hnext hfit
  have hid : (m.storePiece ⟨addr, [b]⟩).blockIdAt (addr + 1) = m.blockIdAt addr := by
    rw [blockIdAt_storePiece, m.blockIdAt_succ hnext]
  have hfirst : (m.storePiece ⟨addr, [b]⟩).blockAt (addr + 1) =
      ((m.blockAt addr).write m.devices (offsetInPage addr) [b]).1 := by
    unfold blockAt
    rw [hid, block_storePiece, if_pos rfl]
    rfl
  rw [quiet_storePiece, quiet_storePiece, quiet_storePiece]
  dsimp only
  rw [hid, hfirst, (page_succ hnext).2, blocks_storePiece, devices_storePiece,
    Array.setIfInBounds_setIfInBounds, ← hblock, ← hdevices]

theorem Sound.quiet_storeOrPromote (h : m.Sound had) (hsrc : src ≠ [])
    (hfit : offsetInPage addr + src.length ≤ blockSize) :
    (m.storeOrPromote ⟨addr, src⟩).quiet = (m.copyInEach addr src).quiet := by
  induction src generalizing m addr with
  | nil => exact absurd rfl hsrc
  | cons b bs ih =>
    by_cases hbs : bs = []
    · subst hbs
      rw [copyInEach_cons]
      rfl
    · have hpos := List.length_pos_iff.mpr hbs
      have hfit' := hfit
      rw [List.length_cons] at hfit'
      have hnext : offsetInPage addr + 1 < blockSize := by omega
      have hrest : offsetInPage (addr + 1) + bs.length ≤ blockSize := by
        rw [(page_succ hnext).2]
        omega
      -- the first byte has connected the page of the others
      have hid : (m.storeOrPromote ⟨addr, [b]⟩).blockIdAt (addr + 1) ≠ 0 := by
        rw [storeOrPromote_eq, blockIdAt_storePiece, blockIdAt_succ _ hnext]
        exact h.blockIdAt_ensure addr
      calc (m.storeOrPromote ⟨addr, b :: bs⟩).quiet
        _ = ((m.storeOrPromote ⟨addr, [b]⟩).storePiece ⟨addr + 1, bs⟩).quiet :=
          (h.ensure addr).quiet_storePiece_cons hbs hfit
        _ = ((m.storeOrPromote ⟨addr, [b]⟩).storeOrPromote ⟨addr + 1, bs⟩).quiet := by
          rw [storeOrPromote_eq _ ⟨addr + 1, bs⟩, Memory.ensure, if_neg hid]
        _ = ((m.storeOrPromote ⟨addr, [b]⟩).copyInEach (addr + 1) bs).quiet :=
          ih (h.storeOrPromote _) hbs hrest
        _ = (m.copyInEach addr (b :: bs)).quiet := by rw [copyInEach_cons]

/-! ## Whole transfers -/

theorem copyInEach_append (m : Memory) (addr : UInt32) (src rest : Bytes) :
    m.copyInEach addr (src ++ rest) =
      (m.copyInEach addr src).copyInEach (addr + UInt32.ofNat src.length) rest := by
  induction src generalizing m addr with
  | nil => simp [copyInEach]
  | cons b bs ih =>
    rw [List.cons_append, copyInEach_cons, ih, copyInEach_cons, List.length_cons, add_ofNat_succ]

theorem copyInEach_take_drop (m : Memory) (addr : UInt32) (src : Bytes) (room : Nat) :
    (m.copyInEach addr (src.take room)).copyInEach (addr + UInt32.ofNat room) (src.drop room) =
      m.copyInEach addr src := by
  by_cases hle : room ≤ src.length
  · have happend := m.copyInEach_append addr (src.take room) (src.drop room)
    rw [List.take_append_drop, List.length_take_of_le hle] at happend
    exact happend.symm
  · have hlt := not_le.mp hle
    rw [List.take_of_length_le hlt.le, List.drop_eq_nil_of_le hlt.le]
    rfl

/-- Storing bytes page by page leaves the same bus as storing them one by one. -/
theorem Sound.quiet_copyIn (h : m.Sound had) (addr : UInt32) (src : Bytes) :
    (m.copyIn addr src).quiet = (m.copyInEach addr src).quiet := by
  unfold Memory.copyIn
  induction addr, src using Piece.ofBulk.induct generalizing m with
  | case1 addr =>
    rw [Piece.ofBulk]
    rfl
  | case2 addr b bs room =>
    rename_i ih
    have hlt := offsetInPage_lt addr
    have hroom : room = 4096 - offsetInPage addr := rfl
    have hhead : (b :: bs).take room ≠ [] := by
      rw [ne_eq, List.take_eq_nil_iff]
      rintro (hzero | hnil)
      · omega
      · cases hnil
    have hfit : offsetInPage addr + ((b :: bs).take room).length ≤ blockSize := by
      rw [List.length_take]
      unfold blockSize
      omega
    rw [Piece.ofBulk, List.foldl_cons]
    calc
      _ = ((m.storeOrPromote ⟨addr, (b :: bs).take room⟩).copyInEach (addr + UInt32.ofNat room)
          ((b :: bs).drop room)).quiet := ih (h.storeOrPromote _)
      _ = ((m.copyInEach addr ((b :: bs).take room)).copyInEach (addr + UInt32.ofNat room)
          ((b :: bs).drop room)).quiet :=
        quiet_copyInEach_congr (h.quiet_storeOrPromote hhead hfit) _ _
      _ = (m.copyInEach addr (b :: bs)).quiet := by rw [copyInEach_take_drop]

/-- Reading bytes page by page is reading them one by one. -/
theorem Sound.copyOut_eq (h : m.Sound had) (addr : UInt32) (n : Nat) :
    m.copyOut addr n = (List.range n).map fun i => m.byteAt (addr + UInt32.ofNat i) := by
  unfold Memory.copyOut
  induction addr, n using Span.ofBulk.induct with
  | case1 addr =>
    rw [Span.ofBulk]
    rfl
  | case2 addr n hn room ih =>
    have hlt := offsetInPage_lt addr
    have hroom : room = 4096 - offsetInPage addr := rfl
    have hfit : offsetInPage addr + min room n ≤ blockSize := by
      unfold blockSize
      omega
    have hspans : m.readSpans (Span.ofBulk addr n) = m.readSpan ⟨addr, min room n⟩ ++
        m.readSpans (Span.ofBulk (addr + UInt32.ofNat room) (n - room)) := by
      rw [Span.ofBulk, if_neg hn]
      rfl
    have hsum : n = min room n + (n - room) := by omega
    rw [hspans, h.readSpan_eq_bytes hfit, ih]
    conv_rhs => rw [hsum, List.range_add, List.map_append, List.map_map]
    refine congrArg _ (List.map_congr_left fun i hi => ?_)
    -- the address goes on from the end of the page, unless nothing is left to be read
    rw [List.mem_range] at hi
    have hmin : min room n = room := by omega
    rw [Function.comp_apply, hmin, UInt32.ofNat_add, UInt32.add_assoc]

end Memory
end Mainboard
