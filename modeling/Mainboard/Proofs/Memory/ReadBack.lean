import Mainboard.Proofs.Memory.BulkCopy

/-!
# Reading back what was stored

Bytes that are stored one after the other are all there in the end unless a later one goes where an
earlier one went. Two addresses can lead to the same place through the gate, through a block that
several pages hold, and through windows onto the same part of a region. A page that is connected on
the way gets a block that no other page holds, so no addresses meet there that did not meet before.
-/
namespace Mainboard
namespace Memory

/-- Two addresses lead to the same place of one page, or to the same cell. -/
def Meet (m : Memory) (a b : UInt32) : Prop :=
  m.pageAt a = m.pageAt b ∧ offsetInPage a = offsetInPage b ∨
    ∃ c, m.cellAt? a = some c ∧ m.cellAt? b = some c

/-- No addresses meet that did not meet before, and no page is disconnected or becomes ROM. -/
structure Widens (m m' : Memory) : Prop where
  meet : ∀ {a b}, m'.Meet a b → m.Meet a b
  connected : ∀ {a}, m.blockIdAt a ≠ 0 → m'.blockIdAt a ≠ 0
  rom : ∀ {a}, (m'.blockAt a).kind = .rom → (m.blockAt a).kind = .rom

variable {m m' m'' : Memory} {had : Block → Prop} {addr a : UInt32} {id : BlockId} {b : UInt8}
  {bs src : Bytes}

theorem widens_self (m : Memory) : m.Widens m := ⟨fun h => h, fun h => h, fun h => h⟩

theorem Widens.trans (h : m.Widens m') (h' : m'.Widens m'') : m.Widens m'' :=
  ⟨fun hm => h.meet (h'.meet hm), fun hc => h'.connected (h.connected hc),
    fun hr => h.rom (h'.rom hr)⟩

/-! ## Promoting a page -/

namespace Promotes

theorem blockAt (h : m.Promotes addr id m') (a : UInt32) :
    m'.blockAt a = if m.pageAt a = m.pageAt addr then .lazyCode else m.blockAt a := by
  unfold Memory.blockAt
  rw [h.blockIdAt]
  split_ifs
  · rw [h.block, if_pos rfl]
  · rw [h.block, if_neg (h.unheld a)]

theorem cellAt? (h : m.Promotes addr id m') (a : UInt32) : m'.cellAt? a =
    if m.pageAt a = m.pageAt addr then some (.block id (offsetInPage a)) else m.cellAt? a := by
  unfold Memory.cellAt?
  rw [h.blockAt, h.blockIdAt, h.devices]
  split_ifs <;> rfl

end Promotes

theorem eq_blockIdAt_of_cellAt? {i : BlockId} {offset : Nat}
    (h : m.cellAt? a = some (.block i offset)) :
    i = m.blockIdAt a := by
  unfold cellAt? Block.cell? at h
  split at h
  · cases h
  · obtain ⟨handle, -, hcell⟩ := Option.map_eq_some_iff.mp h
    cases hcell
  · cases h
    rfl

theorem Promotes.widens (h : m.Promotes addr id m') : m.Widens m' where
  meet := by
    rintro x y (⟨hpage, hoffset⟩ | ⟨c, hx, hy⟩)
    · rw [h.pageAt, h.pageAt] at hpage
      exact .inl ⟨hpage, hoffset⟩
    · rw [h.cellAt?] at hx hy
      -- the new block is held by the promoted page only
      split_ifs at hx hy with hpx hpy hpy
      · have hcell := Option.some.inj (hx.trans hy.symm)
        exact .inl ⟨hpx.trans hpy.symm, (Cell.block.inj hcell).2⟩
      · cases hx
        exact absurd (eq_blockIdAt_of_cellAt? hy).symm (h.unheld y)
      · cases hy
        exact absurd (eq_blockIdAt_of_cellAt? hx).symm (h.unheld x)
      · exact .inr ⟨c, hx, hy⟩
  connected := by
    intro x hx
    rw [h.blockIdAt]
    split_ifs
    · exact h.ne_zero
    · exact hx
  rom := by
    intro x hx
    rw [h.blockAt] at hx
    split_ifs at hx
    · cases hx
    · exact hx

theorem Promotes.byteAt (h : m.Promotes addr id m') (hsound : m.Sound had) (hsound' : m'.Sound had)
    (hid : m.blockIdAt addr = 0) (ha : m.blockIdAt a ≠ 0) : m'.byteAt a = m.byteAt a := by
  have hpage : m.pageAt a ≠ m.pageAt addr := by
    intro hpage
    rw [blockIdAt_eq hsound.safe.coherent, hpage, ← blockIdAt_eq hsound.safe.coherent] at ha
    exact ha hid
  rw [hsound'.byteAt_eq_byte, hsound.byteAt_eq_byte, h.blockAt, if_neg hpage, h.devices]

theorem Sound.widens_ensure (h : m.Sound had) (addr : UInt32) : m.Widens (m.ensure addr) := by
  unfold Memory.ensure
  split_ifs with hid
  · obtain ⟨id, hpromotes⟩ := h.promotes hid
    exact hpromotes.widens
  · exact m.widens_self

theorem Sound.byteAt_ensure (h : m.Sound had) (ha : m.blockIdAt a ≠ 0) :
    (m.ensure addr).byteAt a = m.byteAt a := by
  unfold Memory.ensure
  split_ifs with hid
  · obtain ⟨id, hpromotes⟩ := h.promotes hid
    exact hpromotes.byteAt h (h.promote hid) hid ha
  · rfl

/-! ## Storing one byte -/

theorem widens_storePiece (m : Memory) (piece : Piece) : m.Widens (m.storePiece piece) where
  meet := by
    intro x y hmeet
    unfold Meet pageAt at hmeet
    rw [index_storePiece, cellAt?_storePiece, cellAt?_storePiece] at hmeet
    exact hmeet
  connected := by
    intro x hx
    rwa [blockIdAt_storePiece]
  rom := by
    intro x hx
    rwa [kind_blockAt_storePiece] at hx

theorem Sound.exists_storeCell? (h : m.Sound had) (hid : m.blockIdAt addr ≠ 0)
    (hrom : (m.blockAt addr).kind ≠ .rom) : ∃ c, m.storeCell? addr = some c := by
  have hconnected : (m.blockAt addr).isConnected = true := by
    rcases h.usable_or addr with hzero | husable
    · exact absurd hzero hid
    · exact husable.1
  have hbacked := h.backed_blockAt addr
  unfold storeCell?
  cases hb : m.blockAt addr with
  | unconnected =>
    rw [hb] at hconnected
    cases hconnected
  | rom data =>
    rw [hb] at hrom
    exact absurd rfl hrom
  | window region base =>
    rw [hb] at hbacked
    obtain ⟨handle, htarget, -⟩ := hbacked
    exact ⟨.region handle (base.toNat + offsetInPage addr), by
      simp [Block.storeCell?, Block.isWritable, Block.cell?, htarget]⟩
  | ram data => exact ⟨_, rfl⟩
  | code storage => exact ⟨_, rfl⟩

theorem Sound.byteAt_storePiece (h : m.Sound had) (hid : m.blockIdAt addr ≠ 0)
    (hrom : (m.blockAt addr).kind ≠ .rom) : (m.storePiece ⟨addr, [b]⟩).byteAt addr = b := by
  have hstores : m.Stores addr [b] (m.storePiece ⟨addr, [b]⟩) :=
    h.stores_storePiece (offsetInPage_lt addr)
  obtain ⟨c, hc⟩ := h.exists_storeCell? hid hrom
  rw [(h.storePiece _).byteAt_eq, hstores.cellAt?, cellAt?_of_storeCell? hc]
  have hfirst : m.storeCell? (addr + UInt32.ofNat 0) = some c := by rwa [add_ofNat_zero]
  exact hstores.hit 0 Nat.one_pos c hfirst

theorem Sound.byteAt_storePiece_of_not_meet (h : m.Sound had) (hmeet : ¬m.Meet a addr) :
    (m.storePiece ⟨addr, [b]⟩).byteAt a = m.byteAt a := by
  have hstores : m.Stores addr [b] (m.storePiece ⟨addr, [b]⟩) :=
    h.stores_storePiece (offsetInPage_lt addr)
  rw [(h.storePiece _).byteAt_eq, h.byteAt_eq, hstores.cellAt?]
  cases hc : m.cellAt? a with
  | none => rfl
  | some c =>
    refine hstores.miss c fun i hi hcell => hmeet (.inr ⟨c, hc, ?_⟩)
    obtain rfl : i = 0 := Nat.lt_one_iff.mp hi
    rw [add_ofNat_zero] at hcell
    exact cellAt?_of_storeCell? hcell

/-! ## Storing bytes one by one -/

theorem Sound.widens_storeOrPromote (h : m.Sound had) (addr : UInt32) (b : UInt8) :
    m.Widens (m.storeOrPromote ⟨addr, [b]⟩) :=
  (h.widens_ensure addr).trans ((m.ensure addr).widens_storePiece _)

theorem Sound.byteAt_storeOrPromote (h : m.Sound had) (hrom : (m.blockAt addr).kind ≠ .rom) :
    (m.storeOrPromote ⟨addr, [b]⟩).byteAt addr = b :=
  (h.ensure addr).byteAt_storePiece (h.blockIdAt_ensure addr) fun hr =>
    hrom ((h.widens_ensure addr).rom hr)

theorem Sound.byteAt_storeOrPromote_of_not_meet (h : m.Sound had) (ha : m.blockIdAt a ≠ 0)
    (hmeet : ¬m.Meet a addr) : (m.storeOrPromote ⟨addr, [b]⟩).byteAt a = m.byteAt a := by
  rw [storeOrPromote_eq,
    (h.ensure addr).byteAt_storePiece_of_not_meet fun hm => hmeet ((h.widens_ensure addr).meet hm)]
  exact h.byteAt_ensure ha

theorem Sound.blockIdAt_storeOrPromote (h : m.Sound had) (addr : UInt32) (b : UInt8) :
    (m.storeOrPromote ⟨addr, [b]⟩).blockIdAt addr ≠ 0 := by
  rw [storeOrPromote_eq, blockIdAt_storePiece]
  exact h.blockIdAt_ensure addr

theorem Sound.byteAt_copyInEach_of_not_meet (h : m.Sound had) (ha : m.blockIdAt a ≠ 0)
    (hmeet : ∀ i < src.length, ¬m.Meet a (addr + UInt32.ofNat i)) :
    (m.copyInEach addr src).byteAt a = m.byteAt a := by
  induction src generalizing m addr with
  | nil => rfl
  | cons b bs ih =>
    have hwidens := h.widens_storeOrPromote addr b
    have hfirst : ¬m.Meet a addr := by
      have hzero := hmeet 0 (Nat.succ_pos _)
      rwa [add_ofNat_zero] at hzero
    rw [copyInEach_cons, ih (h.storeOrPromote _) (hwidens.connected ha) ?_]
    · exact h.byteAt_storeOrPromote_of_not_meet ha hfirst
    · intro i hi hm
      rw [← add_ofNat_succ] at hm
      exact hmeet (i + 1) (Nat.succ_lt_succ hi) (hwidens.meet hm)

/-- The addresses of a transfer lead to different places. -/
def Apart (m : Memory) (addr : UInt32) (n : Nat) : Prop :=
  ∀ i j, i < j → j < n → ¬m.Meet (addr + UInt32.ofNat i) (addr + UInt32.ofNat j)

def FreeOfRom (m : Memory) (addr : UInt32) (n : Nat) : Prop :=
  ∀ i < n, (m.blockAt (addr + UInt32.ofNat i)).kind ≠ .rom

theorem Apart.widens {n : Nat} (h : m.Apart addr (n + 1)) (hwidens : m.Widens m') :
    m'.Apart (addr + 1) n := by
  intro i j hij hj hm
  rw [← add_ofNat_succ, ← add_ofNat_succ] at hm
  exact h (i + 1) (j + 1) (Nat.succ_lt_succ hij) (Nat.succ_lt_succ hj) (hwidens.meet hm)

theorem FreeOfRom.widens {n : Nat} (h : m.FreeOfRom addr (n + 1)) (hwidens : m.Widens m') :
    m'.FreeOfRom (addr + 1) n := by
  intro i hi hr
  rw [← add_ofNat_succ] at hr
  exact h (i + 1) (Nat.succ_lt_succ hi) (hwidens.rom hr)

theorem Sound.byteAt_copyInEach (h : m.Sound had) (hapart : m.Apart addr src.length)
    (hrom : m.FreeOfRom addr src.length) {i : Nat} (hi : i < src.length) :
    (m.copyInEach addr src).byteAt (addr + UInt32.ofNat i) = src[i] := by
  induction src generalizing m addr i with
  | nil => cases hi
  | cons b bs ih =>
    have hwidens := h.widens_storeOrPromote addr b
    rw [copyInEach_cons]
    cases i with
    | zero =>
      have hfirst := hrom 0 hi
      rw [add_ofNat_zero] at hfirst ⊢
      -- the bytes that follow go elsewhere
      rw [(h.storeOrPromote _).byteAt_copyInEach_of_not_meet (h.blockIdAt_storeOrPromote addr b) ?_]
      · exact h.byteAt_storeOrPromote hfirst
      · intro j hj hm
        rw [← add_ofNat_succ] at hm
        have hnot := hapart 0 (j + 1) (Nat.succ_pos j) (Nat.succ_lt_succ hj)
        rw [add_ofNat_zero] at hnot
        exact hnot (hwidens.meet hm)
    | succ i =>
      rw [add_ofNat_succ]
      exact ih (h.storeOrPromote _) (hapart.widens hwidens) (hrom.widens hwidens)
        (Nat.lt_of_succ_lt_succ hi)

theorem Sound.apart_of_le (h : m.Sound had) {n : Nat} (hn : n ≤ blockSize) : m.Apart addr n := by
  intro i j hij hj hm
  have hoffset : offsetInPage (addr + UInt32.ofNat i) = offsetInPage (addr + UInt32.ofNat j) := by
    rcases hm with ⟨-, hoffset⟩ | ⟨c, hi, hj⟩
    · exact hoffset
    · exact (h.offset_cellAt? hi).symm.trans (h.offset_cellAt? hj)
  rw [offsetInPage_add, offsetInPage_add] at hoffset
  unfold blockSize at *
  omega

/-! ## Bulk transfers -/

theorem byteAt_of_quiet (h : m.quiet = m'.quiet) (a : UInt32) : m.byteAt a = m'.byteAt a := by
  have hquiet : ∀ n : Memory, n.quiet.byteAt a = n.byteAt a := by
    intro n
    unfold byteAt readSpan
    exact congrArg (List.headD · 0) (Block.read_congr ⟨rfl, fun _ _ => rfl⟩ _ _ _)
  rw [← hquiet m, h, hquiet m']

theorem Sound.copyIn (h : m.Sound had) (addr : UInt32) (src : Bytes) :
    (m.copyIn addr src).Sound had :=
  (stable_sound had).copyIn (fun _ _ => Block.Made.backed) h addr src

theorem Sound.copyOut_copyIn (h : m.Sound had) (hapart : m.Apart addr src.length)
    (hrom : m.FreeOfRom addr src.length) : (m.copyIn addr src).copyOut addr src.length = src := by
  rw [(h.copyIn addr src).copyOut_eq]
  apply List.ext_getElem
  · simp
  · intro i hlen hi
    rw [List.getElem_map, List.getElem_range, byteAt_of_quiet (h.quiet_copyIn addr src)]
    exact h.byteAt_copyInEach hapart hrom hi

/-- A bulk transfer to the bus does what storing its bytes one by one does, each at the next
address, around the top of the address space, and after its page has been connected: the same pages
are promoted in the same order, the index, the number of mapped pages and every byte come out the
same, and in fact the whole bus but for the records of single stores. A bulk transfer from the bus
gives the bytes that are read one by one. So what was stored is read back, if no two of the
addresses lead to the same place and no page that is touched is ROM. -/
theorem bulk_copy_bytewise {ramSize : UInt32} {regions : Array Region}
    (h : Reached ramSize regions had m)
    (addr : UInt32) :
    (∀ src : Bytes,
      let bulk := m.copyIn addr src
      let each := m.copyInEach addr src
      bulk.index = each.index ∧ bulk.mappedCount = each.mappedCount ∧
      bulk.notices.filter Notice.isPromoted = each.notices.filter Notice.isPromoted ∧
      (∀ a, bulk.byteAt a = each.byteAt a) ∧ bulk.quiet = each.quiet) ∧
    (∀ n, m.copyOut addr n = (List.range n).map fun i => m.byteAt (addr + UInt32.ofNat i)) ∧
    ∀ src : Bytes, m.Apart addr src.length → m.FreeOfRom addr src.length →
      (m.copyIn addr src).copyOut addr src.length = src := by
  have hsound := h.sound
  refine ⟨fun src => ?_, hsound.copyOut_eq addr, fun src => hsound.copyOut_copyIn⟩
  have hquiet := hsound.quiet_copyIn addr src
  have hindex := congrArg Memory.index hquiet
  have hcount := congrArg Memory.mappedCount hquiet
  have hnotices := congrArg Memory.notices hquiet
  exact ⟨hindex, hcount, hnotices, byteAt_of_quiet hquiet, hquiet⟩

/-- With the gate disabled, two bytes go to a page of RAM below the top, and the two others to the
first page, which is promoted. -/
theorem copy_around_top :
    let m := (new 0 #[]).step (.allocate 0xFFEFF000 .freshRam)
    let bulk := m.copyIn 0xFFFFFFFE [1, 2, 3, 4]
    (∃ had, Reached 0 #[] had m) ∧ bulk.copyOut 0xFFFFFFFE 4 = [1, 2, 3, 4] ∧
      bulk.notices.filter Notice.isPromoted = [.promoted 0] := by
  intro m bulk
  have hm : Reached 0 #[] _ m := .step _ .new (by simp) (Or.inl trivial)
  obtain ⟨heach, -, hback⟩ := bulk_copy_bytewise hm 0xFFFFFFFE
  have hrom : ∀ i < 4, (m.blockAt (0xFFFFFFFE + UInt32.ofNat i)).kind ≠ .rom := by decide +kernel
  have hpromoted : (m.copyInEach 0xFFFFFFFE [1, 2, 3, 4]).notices.filter Notice.isPromoted =
      [.promoted 0] := by decide +kernel
  refine ⟨⟨_, hm⟩, hback [1, 2, 3, 4] (hm.sound.apart_of_le (by decide)) hrom, ?_⟩
  exact (heach [1, 2, 3, 4]).2.2.1.trans hpromoted

/-- A window that is handed in may have been cut for a longer region. A transfer over the end of its
region is refused as a whole, while the bytes before the end are stored if they come one by one. -/
theorem copy_past_region_end : ¬ ∀ (ramSize : UInt32) (regions : Array Region)
    (ts : List Transaction), (∀ t ∈ ts, ∀ input, t ≠ .load input) →
    ∀ (addr : UInt32) (src : Bytes) (a : UInt32),
      (((new ramSize regions).run ts).copyIn addr src).byteAt a =
        (((new ramSize regions).run ts).copyInEach addr src).byteAt a := by
  intro h
  have hbyte := h 0 #[.zeroed 0x1800]
    [.map 0 0 0x1000, .allocate 0x1000 (.window 0 0x1000)] (by simp) 0x17FF [0x41, 0x42] 0x17FF
  revert hbyte
  decide +kernel

end Memory
end Mainboard
