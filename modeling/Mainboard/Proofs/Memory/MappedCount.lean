import Mainboard.Proofs.Memory.PageMap
import Mainboard.Proofs.Memory.SnapshotRoundTrip

/-!
# The count of connected pages

The bus keeps the number of connected pages beside the index: connecting a page counts up,
disconnecting one counts down and stops at zero, a substitution leaves the count alone, and a
restore takes it from a field of its own. The count is exact all the same. Each elementary change
moves it together with the set of connected pages, and a saved bus has both from the same state. A
count that is exact is not zero while a page is connected, so it never stops at zero, and it is far
below the end of 32 bits.
-/
namespace Mainboard

namespace Decode

theorem length_of_parse_counted {item : Decode α} {n : UInt32} {bs : Bytes} {l : List α}
    (h : (counted item).parse (Encode.u32 n ++ bs) = .ok l) : l.length = n.toNat := by
  obtain ⟨rest, hrun⟩ := eq_ok_of_parse h
  have hword : word 4 (Encode.u32 n ++ bs) = .ok n.toNat bs := reads_word n.toNat_lt bs
  unfold counted at hrun
  change EStateM.bind (word 4) _ _ = .ok l rest at hrun
  unfold EStateM.bind at hrun
  rw [hword] at hrun
  have hlength := yields_length_listInto item n.toNat [] bs l rest hrun
  rwa [List.length_nil, Nat.zero_add] at hlength

end Decode

namespace Memory

variable {m m' : Memory} {exact : Prop} {p q : Page} {b : Block}

/-! ## Connected pages -/

def connected (m : Memory) : Finset Page := Finset.univ.filter fun p => m.pageId p ≠ 0

@[simp] theorem mem_connected : p ∈ m.connected ↔ m.pageId p ≠ 0 := by
  simp [connected]

theorem card_connected_le (m : Memory) : m.connected.card ≤ 1048576 :=
  (Finset.card_le_univ _).trans_eq (Fintype.card_fin 1048576)

theorem ArenaSafe.length_savedPages (h : m.ArenaSafe exact) :
    m.savedPages.length = m.connected.card := by
  have hnodup : m.index.plain.pages.Nodup := m.index.plain.pairwise_pages.imp fun hlt => hlt.ne
  rw [savedPages, List.length_map, ← List.toFinset_card_of_nodup hnodup]
  refine congrArg Finset.card (Finset.ext fun p => ?_)
  rw [List.mem_toFinset, PageTable.mem_pages, mem_connected, h.pageId_eq]

theorem connected_congr (h : ∀ p, m'.pageId p = 0 ↔ m.pageId p = 0) :
    m'.connected = m.connected := by
  ext p
  simp only [mem_connected, ne_eq, h p]

theorem ArenaSafe.connected_connect (h : m.ArenaSafe exact) (hp : m.pageId p = 0)
    (hb : b.isConnected = true) (hsize : b.size = blockSize) :
    (m.connect p b).2.connected = insert p m.connected := by
  have hid : (m.connect p b).1 ≠ 0 := (h.fresh_alloc b).ne_zero
  ext q
  rw [mem_connected, h.pageId_connect hp hb hsize, Finset.mem_insert, mem_connected]
  by_cases hq : q = p <;> simp [hq, hid]

theorem ArenaSafe.connected_disconnect (h : m.ArenaSafe exact) (p : Page) :
    (m.disconnect p).connected = m.connected.erase p := by
  ext q
  rw [mem_connected, h.pageId_disconnect, Finset.mem_erase, mem_connected]
  by_cases hq : q = p <;> simp [hq]

theorem ArenaSafe.connected_replaceBlock (h : m.ArenaSafe exact) {old : BlockId}
    (hb : b.isConnected = true) (hsize : b.size = blockSize) (hold : old ≠ 0) :
    (left (m.replaceBlock old b)).connected = m.connected := by
  have hid : (m.alloc b).1 ≠ 0 := (h.fresh_alloc b).ne_zero
  refine connected_congr fun p => ?_
  rw [(h.replaceBlock hb hsize hold).pageId_eq, h.pageId_eq, index_replaceBlock hb hsize hold]
  change (m.index.plain.substitute old _).sparse p = 0 ↔ _
  rw [PageTable.sparse_substitute _ hold]
  by_cases hp : m.index.plain.sparse p = old <;> simp [hp, hid, hold]

/-! ## What happens to the count -/

@[simp] theorem mappedCount_alloc (m : Memory) (b : Block) :
    (m.alloc b).2.mappedCount = m.mappedCount := by
  unfold alloc
  split <;> rfl

@[simp] theorem mappedCount_release (m : Memory) (id : BlockId) :
    (m.release id).mappedCount = m.mappedCount := by
  unfold release discard
  dsimp only
  split_ifs <;> rfl

@[simp] theorem mappedCount_install (m : Memory) (p : Page) (id : BlockId) :
    (m.install p id).mappedCount = m.mappedCount := by
  unfold install
  dsimp only
  rw [mappedCount_release]
  split_ifs <;> rfl

@[simp] theorem mappedCount_connect (m : Memory) (p : Page) (b : Block) :
    (m.connect p b).2.mappedCount = m.mappedCount + 1 := by
  simp [connect, countUp]

theorem mappedCount_disconnect (m : Memory) (p : Page) : (m.disconnect p).mappedCount =
    if m.pageId p = 0 then m.mappedCount
    else if m.mappedCount = 0 then 0 else m.mappedCount - 1 := by
  unfold disconnect pageId
  split_ifs with hp hzero
  · rfl
  · simp [countDown, hzero]
  · simp [countDown, hzero]

theorem mappedCount_replaceBlock {old : BlockId} (hb : b.isConnected = true)
    (hsize : b.size = blockSize) (hold : old ≠ 0) :
    (left (m.replaceBlock old b)).mappedCount = m.mappedCount := by
  rw [left_replaceBlock hb hsize hold]
  dsimp only
  split_ifs <;> simp [discard]

/-- The arena is safe and the count is the number of connected pages. -/
structure Counted (m : Memory) : Prop where
  safe : m.ArenaSafe False
  mappedCount : m.mappedCount.toNat = m.connected.card

namespace Counted

theorem connect (h : m.Counted) (hp : m.pageId p = 0) (hb : b.isConnected = true)
    (hsize : b.size = blockSize) : (m.connect p b).2.Counted where
  safe := h.safe.connect (h.safe.pageId_eq p ▸ hp) hb hsize
  mappedCount := by
    have hnot : p ∉ m.connected := by simp [hp]
    have hle := m.card_connected_le
    rw [h.safe.connected_connect hp hb hsize, Finset.card_insert_of_notMem hnot,
      mappedCount_connect, UInt32.toNat_add, h.mappedCount]
    change (m.connected.card + 1) % 4294967296 = _
    omega

/-- Disconnecting a connected page takes exactly one off the count, so the count was not zero. -/
theorem disconnect_connected (h : m.Counted) (hp : m.pageId p ≠ 0) :
    (m.disconnect p).mappedCount.toNat + 1 = m.mappedCount.toNat := by
  have hpos : 0 < m.mappedCount.toNat := by
    rw [h.mappedCount]
    exact Finset.card_pos.mpr ⟨p, mem_connected.mpr hp⟩
  have hne : m.mappedCount ≠ 0 := by
    intro hzero
    rw [hzero] at hpos
    exact absurd hpos (by decide)
  have hone : (1 : UInt32) ≤ m.mappedCount := UInt32.le_iff_toNat_le.mpr hpos
  rw [mappedCount_disconnect, if_neg hp, if_neg hne, UInt32.toNat_sub_of_le _ _ hone]
  exact Nat.sub_add_cancel hpos

theorem disconnect (h : m.Counted) (p : Page) : (m.disconnect p).Counted where
  safe := h.safe.disconnect p
  mappedCount := by
    rw [h.safe.connected_disconnect]
    by_cases hp : m.pageId p = 0
    · rw [mappedCount_disconnect, if_pos hp, h.mappedCount,
        Finset.erase_eq_of_notMem (by simp [hp])]
    · have hstep := h.disconnect_connected hp
      have hcard := Finset.card_erase_add_one (mem_connected.mpr hp)
      rw [h.mappedCount] at hstep
      omega

theorem congr (h : m.Counted) (hsafe : m'.ArenaSafe False) (hplain : m'.index.plain = m.index.plain)
    (hcount : m'.mappedCount = m.mappedCount) : m'.Counted where
  safe := hsafe
  mappedCount := by
    rw [hcount, h.mappedCount]
    refine congrArg Finset.card (connected_congr fun p => ?_).symm
    rw [pageId, pageId, hplain]

end Counted

theorem stable_counted : Stable (fun _ _ => True) Counted where
  coherent h := h.safe.coherent
  frame h hsame :=
    h.congr ((stable_arenaSafe (fun _ _ => True) False).frame h.safe hsame) hsame.plain
    hsame.mappedCount
  register handle h :=
    h.congr ((stable_arenaSafe (fun _ _ => True) False).register handle h.safe) rfl rfl
  connect h hp hb hsize _ := h.connect ((h.safe.pageId_eq _).trans hp) hb hsize
  disconnect p h := h.disconnect p
  replaceBlock h hb hsize hold _ := by
    refine ⟨h.safe.replaceBlock hb hsize hold, ?_⟩
    rw [mappedCount_replaceBlock hb hsize hold, h.safe.connected_replaceBlock hb hsize hold,
      h.mappedCount]
  storePiece := by
    intro m piece h
    obtain ⟨notices, hpiece⟩ := m.storePiece_eq piece
    exact h.congr (h.safe.storePiece piece) (congrArg PageIndex.plain (m.index_storePiece piece))
      (by rw [hpiece])
  clearBlock id h := h.congr (h.safe.clearBlock id) rfl rfl

theorem counted_new (ramSize : UInt32) (regions : Array Region) :
    (new ramSize regions).Counted where
  safe := arenaSafe_new ramSize regions False
  mappedCount := by
    have hnone : (new ramSize regions).connected = ∅ := by
      refine Finset.eq_empty_of_forall_notMem fun p hp => mem_connected.mp hp ?_
      rw [(arenaSafe_new ramSize regions False).pageId_eq]
      exact PageTable.sparse_empty _ p
    rw [hnone]
    rfl

/-! ## Saved buses -/

/-- The pages that a restore of a saved bus stages, whatever the blocks are read as. -/
theorem entries_of_stage (h : m.ArenaSafe exact) {t : Memory} {s : Staged}
    (hs : t.stage m.toContainer = .ok s) : s.entries = m.savedStage.entries := by
  obtain ⟨hblocks, hentries⟩ := stage_lists hs
  have hlength : s.blocks.length = m.savedBlocks.length := by
    unfold parseList at hblocks
    rw [h.bytes_blocks] at hblocks
    rw [Decode.length_of_parse_counted hblocks, UInt32.toNat_ofNat',
      Nat.mod_eq_of_lt m.length_savedBlocks_lt]
  rw [hlength, parseList_pages h] at hentries
  exact (Except.ok.inj hentries).symm

/-- A restore of a saved bus, on any bus: if it is not refused, then the same pages are connected
afterwards as on the saved bus, and the count is the saved one. -/
theorem Counted.load_save {t : Memory} (ht : t.Counted) (hm : m.Counted)
    (hfit : ∀ payload, m.toContainer.bytes Tag.blocks = some payload → payload.length < 2 ^ 32) :
    (left (t.load m.save)).Counted := by
  have hsafe := ht.safe.load m.save
  have hparse := hm.safe.parseFor_save hfit
  obtain ⟨-, -, -, hcount, hpaging, hflush⟩ := hm.safe.items_toContainer
  cases hstage : t.stage m.toContainer with
  | error e =>
    have hload : t.load m.save = .error e t := by
      unfold load
      rw [hparse]
      dsimp only
      rw [hstage]
    rw [hload]
    exact ht
  | ok s =>
    -- What the blocks are read as is left open, since only the pages matter for the count.
    let t' : Memory := { t.adopt s with
      mappedCount := m.mappedCount, pagingActive := m.pagingActive, tlbFlush := m.tlbFlush }
    have hload : t.load m.save = .ok () t' := by
      unfold load
      rw [hparse]
      dsimp only
      rw [hstage]
      dsimp only
      unfold adoptFlags
      rw [hcount, hpaging, hflush]
      rfl
    have hsparse : ∀ p, t'.index.plain.sparse p = (t.withSaved m).index.plain.sparse p := by
      intro p
      have hentries := entries_of_stage hm.safe hstage
      rw [index_withSaved, ← hentries, PageIndex.sparse_plain_ofEntries]
      exact PageIndex.sparse_plain_ofEntries _ _ _ p
    rw [hload] at hsafe ⊢
    have hsafe' : t'.ArenaSafe False := hsafe
    have hconnected : t'.connected = m.connected := by
      refine connected_congr fun p => ?_
      rw [hsafe'.pageId_eq, hm.safe.pageId_eq, hsparse]
      exact (hm.safe.sameLayout_withSaved t).free p
    exact ⟨hsafe', hm.mappedCount.trans (congrArg Finset.card hconnected).symm⟩

/-- The states that a bus reaches by transactions and by restores of what buses of this kind have
saved, each restore on any of them. A bus whose blocks do not fit into a field is not saved. -/
inductive Grown : Memory → Prop
  | new (ramSize : UInt32) (regions : Array Region) : Grown (new ramSize regions)
  | step {m : Memory} (t : Transaction) : Grown m → (∀ input, t ≠ .load input) → Grown (m.step t)
  | restore {m t : Memory} : Grown t → Grown m →
      (∀ payload, m.toContainer.bytes Tag.blocks = some payload → payload.length < 2 ^ 32) →
      Grown (t.step (.load m.save))

theorem Grown.counted (h : m.Grown) : m.Counted := by
  induction h with
  | new ramSize regions => exact counted_new ramSize regions
  | @step m t _ hload ih =>
    have hands : t.Hands (fun _ _ => True) m.devices := by cases t <;> trivial
    exact stable_counted.step (fun _ _ _ => trivial) ih t hands
      fun input ht => absurd ht (hload input)
  | restore _ _ hfit iht ihm => exact iht.load_save ihm hfit

/-- The count of connected pages is exact in every state that transactions and restores of saved
buses lead to. So while a range is unmapped, each connected page takes one off a count that is not
zero, and the allocated bytes are those of the connected pages. -/
theorem mappedCount_exact (h : m.Grown) :
    m.mappedCount.toNat = m.connected.card ∧
    (∀ pages p, (m.disconnectAll pages).pageId p ≠ 0 →
      ((m.disconnectAll pages).disconnect p).mappedCount.toNat + 1 =
        (m.disconnectAll pages).mappedCount.toNat) ∧
    m.allocatedSize = 4096 * m.connected.card := by
  have hcounted := h.counted
  refine ⟨hcounted.mappedCount, fun pages p hp => ?_, ?_⟩
  · exact (stable_counted.disconnectAll hcounted pages).1.disconnect_connected hp
  · rw [allocatedSize, hcounted.mappedCount, Nat.mul_comm]
    rfl

/-- A bulk store with the gate disabled connects page 5 of one bus; another bus, with a page of its
own, is restored from it. -/
theorem mappedCount_exact_restored :
    let m := (new 0 #[]).step (.copyIn 0x105000 [1, 2, 3])
    let t := ((new 0x2000 #[]).step (.allocate 0x1000 .freshRam)).step (.load m.save)
    t.mappedCount.toNat = t.connected.card ∧
    (∀ pages p, (t.disconnectAll pages).pageId p ≠ 0 →
      ((t.disconnectAll pages).disconnect p).mappedCount.toNat + 1 =
        (t.disconnectAll pages).mappedCount.toNat) ∧
    t.allocatedSize = 4096 * t.connected.card := by
  intro m t
  have hlived : Lived 0 #[] _ m := .step (.copyIn 0x105000 [1, 2, 3]) .new trivial
  have hsize : m.blocks.size = 2 := by decide +kernel
  have hregistered : m.devices.registered = #[] := by decide +kernel
  have hencodable : m.Encodable := by
    refine hlived.encodable ?_ ?_
    · rw [hsize]
      decide
    · rw [hregistered]
      decide
  have hm : Grown m := .step _ (.new 0 #[]) nofun
  have ht : Grown ((new 0x2000 #[]).step (.allocate 0x1000 .freshRam)) :=
    .step _ (.new 0x2000 #[]) nofun
  exact mappedCount_exact (.restore ht hm hencodable.length)

end Memory
end Mainboard
