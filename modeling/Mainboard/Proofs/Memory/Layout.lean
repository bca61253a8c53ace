import Mainboard.Proofs.Memory.Numbering

/-!
# Layouts

What is saved of the arena and the index is the layout of the bus: the connected pages, which of
them share a block, and the blocks. Positions in the arena are only names; two buses of the same
layout have lists of the same blocks, in the same order, and give each page the same number. If the
same regions are registered on both, all reads give the same bytes.
-/
namespace Mainboard

structure RegionTable.SameRegions (t t' : RegionTable) : Prop where
  registered : t'.registered = t.registered
  region : ∀ handle ∈ t.registered, t'.region handle = t.region handle

theorem Block.read_congr {t t' : RegionTable} (h : t.SameRegions t') (b : Block) (offset n : Nat) :
    b.read t' offset n = b.read t offset n := by
  cases b with
  | window region base =>
    unfold read target?
    dsimp only
    rw [h.registered]
    cases hget : t.registered[region]? with
    | none => rfl
    | some handle =>
      dsimp only
      rw [h.region handle (Array.mem_of_getElem? hget)]
  | code storage => cases storage <;> rfl
  | _ => rfl

namespace Memory

/-! ## The saved lists -/

def usedIds (m : Memory) : List BlockId :=
  (m.index.plain.pages.map m.index.plain.sparse).eraseDups

def savedBlocks (m : Memory) : List Block := m.usedIds.map m.block

def savedNumber (m : Memory) (p : Page) : Nat := m.usedIds.idxOf (m.index.plain.sparse p)

def savedPages (m : Memory) : List (Page × Nat) :=
  m.index.plain.pages.map fun p => (p, m.savedNumber p)

variable {m m' : Memory}

theorem mem_usedIds {id : BlockId} :
    id ∈ m.usedIds ↔ id ≠ 0 ∧ ∃ p, m.index.plain.sparse p = id := by
  unfold usedIds
  rw [List.mem_eraseDups, List.mem_map]
  constructor
  · rintro ⟨p, hp, rfl⟩
    exact ⟨PageTable.mem_pages.mp hp, p, rfl⟩
  · rintro ⟨hid, p, rfl⟩
    exact ⟨p, PageTable.mem_pages.mpr hid, rfl⟩

theorem length_usedIds_le (m : Memory) : m.usedIds.length ≤ 1048576 := by
  refine (length_eraseDups_le _).trans ?_
  rw [List.length_map]
  exact m.index.plain.length_pages_le

theorem length_savedBlocks_lt (m : Memory) : m.savedBlocks.length < 2 ^ 32 := by
  have hle := m.length_usedIds_le
  rw [savedBlocks, List.length_map]
  omega

theorem length_savedPages_le (m : Memory) : m.savedPages.length ≤ 1048576 := by
  rw [savedPages, List.length_map]
  exact m.index.plain.length_pages_le

theorem savedNumber_lt {p : Page} (hp : m.index.plain.sparse p ≠ 0) :
    m.savedNumber p < m.savedBlocks.length := by
  unfold savedBlocks
  rw [List.length_map]
  exact List.idxOf_lt_length_of_mem (mem_usedIds.mpr ⟨hp, p, rfl⟩)

theorem lt_of_mem_savedPages {e : Page × Nat} (he : e ∈ m.savedPages) :
    e.2 < m.savedBlocks.length := by
  obtain ⟨p, hp, heq⟩ := List.mem_map.mp he
  subst heq
  dsimp only
  exact savedNumber_lt (PageTable.mem_pages.mp hp)

theorem getElem?_savedBlocks {p : Page} (hp : m.index.plain.sparse p ≠ 0) :
    m.savedBlocks[m.savedNumber p]? = some (m.block (m.index.plain.sparse p)) := by
  unfold savedBlocks savedNumber
  rw [List.getElem?_map, List.getElem?_idxOf (mem_usedIds.mpr ⟨hp, p, rfl⟩), Option.map_some]

theorem savedNumber_inj {p q : Page} (hp : m.index.plain.sparse p ≠ 0)
    (hq : m.index.plain.sparse q ≠ 0) (h : m.savedNumber p = m.savedNumber q) :
    m.index.plain.sparse p = m.index.plain.sparse q := by
  have hgetp := List.getElem?_idxOf (mem_usedIds.mpr ⟨hp, p, rfl⟩)
  have hgetq := List.getElem?_idxOf (mem_usedIds.mpr ⟨hq, q, rfl⟩)
  unfold savedNumber at h
  rw [h, hgetq] at hgetp
  exact (Option.some.inj hgetp).symm

theorem ArenaSafe.sparse_lt {exact : Prop} (h : m.ArenaSafe exact) (p : Page) :
    m.index.plain.sparse p < m.blocks.size := by
  by_cases hp : m.index.plain.sparse p = 0
  · rw [hp]
    exact h.size_pos
  · exact (h.usable p hp).lt

/-- No block is saved twice, so there are no more of them than positions. -/
theorem ArenaSafe.length_savedBlocks_le {exact : Prop} (h : m.ArenaSafe exact) :
    m.savedBlocks.length ≤ m.blocks.size := by
  have hsub : m.usedIds ⊆ List.range m.blocks.size := by
    intro id hid
    obtain ⟨-, p, rfl⟩ := mem_usedIds.mp hid
    exact List.mem_range.mpr (h.sparse_lt p)
  have hle := (List.subperm_of_subset (nodup_eraseDups _) hsub).length_le
  rwa [List.length_range, ← List.length_map (f := m.block)] at hle

theorem mem_savedBlocks {b : Block} :
    b ∈ m.savedBlocks ↔ ∃ p, m.index.plain.sparse p ≠ 0 ∧ m.block (m.index.plain.sparse p) = b := by
  unfold savedBlocks
  rw [List.mem_map]
  constructor
  · rintro ⟨id, hid, rfl⟩
    obtain ⟨hne, p, rfl⟩ := mem_usedIds.mp hid
    exact ⟨p, hne, rfl⟩
  · rintro ⟨p, hp, rfl⟩
    exact ⟨_, mem_usedIds.mpr ⟨hp, p, rfl⟩, rfl⟩

/-- Saving a bus numbers the installed positions in the order in which the pages first use them. -/
theorem ArenaSafe.numbers {exact : Prop} (h : m.ArenaSafe exact) :
    Numbers (m.index.plain.pages.map m.index.plain.sparse) m.blocks.size
      (.ofEntries m.blocks.size m.index.plain.occupied) := by
  have hids :
      m.index.plain.occupied.map Prod.snd = m.index.plain.pages.map m.index.plain.sparse := by
    rw [PageTable.occupied_eq, List.map_map]
    rfl
  rw [← hids]
  apply numbers_ofEntries
  rintro ⟨p, id⟩ he
  rw [← (PageTable.mem_occupied.mp he).1]
  exact h.sparse_lt p

theorem ArenaSafe.toContainer_eq {exact : Prop} (h : m.ArenaSafe exact) : m.toContainer =
    (Container.empty deviceId deviceVersion
      |>.set Tag.ramSize (Encode.u32 m.ramSize)
      |>.set Tag.gateA20 (Encode.bool m.gateA20)
      |>.set Tag.mappedCount (Encode.u32 m.mappedCount)
      |>.set Tag.pagingActive (Encode.bool m.pagingActive)
      |>.set Tag.tlbFlush (Encode.bool m.tlbFlush)
      |>.set Tag.regionCount (Encode.u32 (UInt32.ofNat m.devices.registered.size))
      |>.set Tag.blocks (encodeBlocks m.savedBlocks)
      |>.set Tag.index (encodeEntries m.savedPages)) := by
  have hnumbers := h.numbers
  have hblocks :
      (Numbering.ofEntries m.blocks.size m.index.plain.occupied).order.toList.map m.block =
      m.savedBlocks := by
    rw [hnumbers.order]
    rfl
  have hpages : (m.index.plain.occupied.map fun e =>
      (e.1, ((Numbering.ofEntries m.blocks.size m.index.plain.occupied).number? e.2).getD 0)) =
      m.savedPages := by
    generalize Numbering.ofEntries m.blocks.size m.index.plain.occupied = numbering at hnumbers
    rw [m.index.plain.occupied_eq, List.map_map]
    refine List.map_congr_left fun p hp => ?_
    have hnumber := hnumbers.number? (m.index.plain.sparse p)
    rw [if_pos (List.mem_map_of_mem hp)] at hnumber
    change (p, (numbering.number? (m.index.plain.sparse p)).getD 0) = _
    rw [hnumber, Option.getD_some, savedNumber, usedIds]
  unfold toContainer
  dsimp only
  rw [hblocks]
  exact congrArg (fun pages => Container.set _ Tag.index (encodeEntries pages)) hpages

/-! ## Buses of the same layout -/

/-- The same pages are connected, to equal blocks, and they share them in the same way. -/
structure SameLayout (m m' : Memory) : Prop where
  free : ∀ p, m'.index.plain.sparse p = 0 ↔ m.index.plain.sparse p = 0
  shared : ∀ p q, m'.index.plain.sparse p = m'.index.plain.sparse q ↔
    m.index.plain.sparse p = m.index.plain.sparse q
  block : ∀ p, m'.block (m'.index.plain.sparse p) = m.block (m.index.plain.sparse p)

namespace SameLayout

/-- One bus has the positions of the other under other names. -/
theorem exists_renaming (h : m.SameLayout m') :
    ∃ f : BlockId → BlockId, (∀ p, m'.index.plain.sparse p = f (m.index.plain.sparse p)) ∧
      ∀ p q, f (m.index.plain.sparse p) = f (m.index.plain.sparse q) →
        m.index.plain.sparse p = m.index.plain.sparse q := by
  classical
  let f (id : BlockId) : BlockId :=
    if hid : ∃ p, m.index.plain.sparse p = id then m'.index.plain.sparse hid.choose else 0
  have hf : ∀ p, m'.index.plain.sparse p = f (m.index.plain.sparse p) := by
    intro p
    have hid : ∃ q, m.index.plain.sparse q = m.index.plain.sparse p := ⟨p, rfl⟩
    change _ = dite _ _ _
    rw [dif_pos hid, h.shared]
    exact hid.choose_spec.symm
  refine ⟨f, hf, fun p q hpq => ?_⟩
  rw [← hf, ← hf, h.shared] at hpq
  exact hpq

theorem pages_eq (h : m.SameLayout m') : m'.index.plain.pages = m.index.plain.pages := by
  unfold PageTable.pages
  refine List.filter_congr fun p _ => ?_
  rw [decide_eq_decide, ne_eq, ne_eq, h.free]

theorem usedIds_eq {f : BlockId → BlockId} (h : m.SameLayout m')
    (hf : ∀ p, m'.index.plain.sparse p = f (m.index.plain.sparse p))
    (hinj : ∀ p q, f (m.index.plain.sparse p) = f (m.index.plain.sparse q) →
      m.index.plain.sparse p = m.index.plain.sparse q) : m'.usedIds = m.usedIds.map f := by
  unfold usedIds
  rw [h.pages_eq, ← eraseDups_map, List.map_map]
  · exact congrArg _ (List.map_congr_left fun p _ => hf p)
  · intro i hi j hj heq
    obtain ⟨p, -, rfl⟩ := List.mem_map.mp hi
    obtain ⟨q, -, rfl⟩ := List.mem_map.mp hj
    exact hinj p q heq

theorem savedBlocks_eq (h : m.SameLayout m') : m'.savedBlocks = m.savedBlocks := by
  obtain ⟨f, hf, hinj⟩ := h.exists_renaming
  unfold savedBlocks
  rw [h.usedIds_eq hf hinj, List.map_map]
  refine List.map_congr_left fun id hid => ?_
  obtain ⟨-, p, rfl⟩ := mem_usedIds.mp hid
  change m'.block (f (m.index.plain.sparse p)) = _
  rw [← hf]
  exact h.block p

theorem savedPages_eq (h : m.SameLayout m') : m'.savedPages = m.savedPages := by
  obtain ⟨f, hf, hinj⟩ := h.exists_renaming
  unfold savedPages savedNumber
  rw [h.pages_eq, h.usedIds_eq hf hinj]
  refine List.map_congr_left fun p _ => ?_
  rw [hf, idxOf_map]
  intro i hi heq
  obtain ⟨-, q, rfl⟩ := mem_usedIds.mp hi
  exact hinj q p heq

theorem toContainer_eq (h : m.SameLayout m') {exact exact' : Prop} (hsafe : m.ArenaSafe exact)
    (hsafe' : m'.ArenaSafe exact') (hram : m'.ramSize = m.ramSize) (hgate : m'.gateA20 = m.gateA20)
    (hcount : m'.mappedCount = m.mappedCount) (hpaging : m'.pagingActive = m.pagingActive)
    (hflush : m'.tlbFlush = m.tlbFlush)
    (hregions : m'.devices.registered.size = m.devices.registered.size) :
    m'.toContainer = m.toContainer := by
  rw [hsafe.toContainer_eq, hsafe'.toContainer_eq, h.savedBlocks_eq, h.savedPages_eq, hram, hgate,
    hcount, hpaging, hflush, hregions]

end SameLayout

/-! ## What is seen of a layout -/

def pageAt (m : Memory) (addr : UInt32) : Page :=
  if m.index.gateA20 then .ofAddr addr else (Page.ofAddr addr).withoutA20

theorem blockIdAt_eq (h : m.index.Coherent) (addr : UInt32) :
    m.blockIdAt addr = m.index.plain.sparse (m.pageAt addr) := by
  unfold blockIdAt pageAt
  rw [h.lookup_active, h.plain.lookup]

namespace SameLayout

theorem setGateA20 (h : m.SameLayout m') (gate : Bool) :
    (m.setGateA20 gate).SameLayout (m'.setGateA20 gate) := ⟨h.free, h.shared, h.block⟩

theorem blockAt_eq (h : m.SameLayout m') (hc : m.index.Coherent) (hc' : m'.index.Coherent)
    (hgate : m'.index.gateA20 = m.index.gateA20) (addr : UInt32) :
    m'.blockAt addr = m.blockAt addr := by
  unfold blockAt
  rw [blockIdAt_eq hc, blockIdAt_eq hc', pageAt, pageAt, hgate]
  exact h.block _

theorem blockIdAt_eq_iff (h : m.SameLayout m') (hc : m.index.Coherent) (hc' : m'.index.Coherent)
    (hgate : m'.index.gateA20 = m.index.gateA20) (addr addr' : UInt32) :
    m'.blockIdAt addr = m'.blockIdAt addr' ↔ m.blockIdAt addr = m.blockIdAt addr' := by
  simp only [blockIdAt_eq hc, blockIdAt_eq hc', pageAt, hgate]
  exact h.shared _ _

theorem readSpan_eq (h : m.SameLayout m') (hc : m.index.Coherent) (hc' : m'.index.Coherent)
    (hgate : m'.index.gateA20 = m.index.gateA20) (hregions : m.devices.SameRegions m'.devices) :
    m'.readSpan = m.readSpan := by
  funext s
  unfold readSpan
  rw [h.blockAt_eq hc hc' hgate, Block.read_congr hregions]

end SameLayout

end Memory
end Mainboard
