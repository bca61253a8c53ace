import Mainboard.Proofs.Memory.SavedLength

/-!
# A saved bus is restored

A bus that has the same regions registered reads back all that was saved: the staged blocks are the
saved ones, the staged pages name them by their numbers, and so the restored bus has the layout of
the saved one. Positions in the arena, counts and free positions may differ, but nothing that is
seen or saved depends on them.
-/
namespace Mainboard

open Decode

namespace Memory

/-! ## Reading blocks and pages back -/

theorem reads_decodePage (fault : FieldFault) {data : Bytes} (h : data.length = blockSize) :
    (decodePage fault).Reads (Encode.vec data) data := by
  have hvec : vec.Reads (Encode.vec data) data := reads_vec (by rw [h]; decide)
  exact hvec.bind_last ((reads_pure data).of_pos h)

theorem reads_decodeBlock {t : RegionTable} {b : Block} (hconn : b.isConnected = true)
    (hsize : b.size = blockSize) (hb : b.Restorable t)
    (hregion : ∀ region base, b = .window region base → region < 2 ^ 32) :
    (decodeBlock t.registered.size).Reads (encodeBlock b) b := by
  have htag : ∀ k k' : BlockKind, k ≠ k' → k.tag ≠ k'.tag := by
    intro k k'
    cases k <;> cases k' <;> decide
  refine (reads_u8 b.kind.tag).bind ?_
  cases b with
  | unconnected => cases hconn
  | ram data =>
    apply Reads.of_pos _ rfl
    exact (reads_decodePage _ hsize).map Block.ram
  | rom data =>
    apply Reads.of_neg _ (htag .rom .ram nofun)
    apply Reads.of_pos _ rfl
    exact (reads_decodePage _ hsize).map Block.rom
  | code storage =>
    apply Reads.of_neg _ (htag .code .ram nofun)
    apply Reads.of_neg _ (htag .code .rom nofun)
    apply Reads.of_pos _ rfl
    cases storage with
    | none => exact (reads_bool false).bind_last (reads_pure _)
    | some data =>
      have hpage := (reads_decodePage .codePageLength (hb data rfl)).map
        fun d => Block.code (some d)
      exact (reads_bool true).bind hpage
  | window region base =>
    have hnumber : (UInt32.ofNat region).toNat = region := by
      rw [UInt32.toNat_ofNat', Nat.mod_eq_of_lt (hregion region base rfl)]
    apply Reads.of_neg _ (htag .window .ram nofun)
    apply Reads.of_neg _ (htag .window .rom nofun)
    apply Reads.of_neg _ (htag .window .code nofun)
    apply Reads.of_pos _ rfl
    refine (reads_u32 (UInt32.ofNat region)).bind ((reads_u64 base).bind_last ?_)
    rw [hnumber]
    exact (reads_pure _).of_pos hb

theorem reads_decodeEntry {blocks : Nat} {e : Page × Nat} (he : e.2 < blocks) (h32 : e.2 < 2 ^ 32) :
    (decodeEntry blocks).Reads (encodeEntry e) (e.1, e.2 + 1) := by
  obtain ⟨p, number⟩ := e
  have hpage : (UInt32.ofNat p.val).toNat = p.val := by
    have hlt := p.isLt
    rw [UInt32.toNat_ofNat', Nat.mod_eq_of_lt (by omega)]
  have hlt : (UInt32.ofNat p.val).toNat < 1048576 := by
    rw [hpage]
    exact p.isLt
  have hnumber : (UInt32.ofNat number).toNat = number := by
    rw [UInt32.toNat_ofNat', Nat.mod_eq_of_lt h32]
  have hpair : (⟨(UInt32.ofNat p.val).toNat, hlt⟩ : Page) = p := Fin.ext hpage
  refine (reads_u32 (UInt32.ofNat p.val)).bind ((reads_u32 (UInt32.ofNat number)).bind_last ?_)
  rw [hnumber, dif_pos hlt, if_pos he, hpair]
  exact reads_pure _

/-! ## Reading a saved bus -/

/-- The saved blocks fit: their field is no longer than a length of 32 bits can say, and neither are
the numbers of the regions behind the windows among them. -/
structure Encodable (m : Memory) : Prop where
  length : ∀ payload, m.toContainer.bytes Tag.blocks = some payload → payload.length < 2 ^ 32
  region : ∀ p region base, m.block (m.index.plain.sparse p) = .window region base → region < 2 ^ 32

variable {m t : Memory} {exact : Prop}

namespace ArenaSafe

theorem bytes_blocks (h : m.ArenaSafe exact) :
    m.toContainer.bytes Tag.blocks = some (encodeBlocks m.savedBlocks) := by
  rw [h.toContainer_eq]
  rfl

theorem bytes_index (h : m.ArenaSafe exact) :
    m.toContainer.bytes Tag.index = some (encodeEntries m.savedPages) := by
  rw [h.toContainer_eq]
  rfl

theorem items_toContainer (h : m.ArenaSafe exact) :
    m.toContainer.u32 Tag.regionCount = .ok (some (UInt32.ofNat m.devices.registered.size)) ∧
      m.toContainer.u32 Tag.ramSize = .ok (some m.ramSize) ∧
      m.toContainer.bool Tag.gateA20 = .ok (some m.gateA20) ∧
      m.toContainer.u32 Tag.mappedCount = .ok (some m.mappedCount) ∧
      m.toContainer.bool Tag.pagingActive = .ok (some m.pagingActive) ∧
      m.toContainer.bool Tag.tlbFlush = .ok (some m.tlbFlush) := by
  rw [h.toContainer_eq]
  exact ⟨Container.u32_of_bytes rfl, Container.u32_of_bytes rfl, Container.bool_of_bytes rfl,
    Container.u32_of_bytes rfl, Container.bool_of_bytes rfl, Container.bool_of_bytes rfl⟩

theorem wellFormed_toContainer (h : m.ArenaSafe exact)
    (hfit : ∀ payload, m.toContainer.bytes Tag.blocks = some payload → payload.length < 2 ^ 32) :
    m.toContainer.WellFormed := by
  have hword : ∀ v : UInt32, (Encode.u32 v).length < 256 ^ 4 := by simp
  have hflag : ∀ v : Bool, (Encode.bool v).length < 256 ^ 4 := by simp
  have hblocks : (encodeBlocks m.savedBlocks).length < 256 ^ 4 := hfit _ h.bytes_blocks
  have hpages : (encodeEntries m.savedPages).length < 256 ^ 4 := by
    have hle := m.length_savedPages_le
    rw [length_encodeEntries]
    omega
  rw [h.toContainer_eq]
  exact (Container.wellFormed_empty deviceId deviceVersion).set _ (hword _) |>.set _ (hflag _)
    |>.set _ (hword _) |>.set _ (hflag _) |>.set _ (hflag _) |>.set _ (hword _) |>.set _ hblocks
    |>.set _ hpages

theorem parseFor_save (h : m.ArenaSafe exact)
    (hfit : ∀ payload, m.toContainer.bytes Tag.blocks = some payload → payload.length < 2 ^ 32) :
    Container.parseFor m.save deviceId deviceVersion = .ok m.toContainer := by
  have hid : m.toContainer.id = deviceId ∧ m.toContainer.device = deviceVersion := by
    rw [h.toContainer_eq]
    exact ⟨rfl, rfl⟩
  rw [← hid.1]
  exact Container.parseFor_encode (h.wellFormed_toContainer hfit) (congrArg Version.major hid.2)

end ArenaSafe

/-- What a restore stages from a saved bus: the block with number `k` goes to position `k + 1`. -/
def savedStage (m : Memory) : Staged :=
  ⟨m.ramSize, m.gateA20, m.savedBlocks, m.savedPages.map fun e => (e.1, e.2 + 1)⟩

theorem parseList_blocks {regions : RegionTable} (h : m.ArenaSafe exact) (hm : m.Encodable)
    (hstock : ∀ id, (m.block id).Restorable regions) :
    parseList m.toContainer Tag.blocks (decodeBlock regions.registered.size) =
      .ok m.savedBlocks := by
  have hread : ∀ b ∈ m.savedBlocks,
      (decodeBlock regions.registered.size).Reads (encodeBlock b) (id b) := by
    intro b hb
    obtain ⟨p, hp, rfl⟩ := mem_savedBlocks.mp hb
    obtain ⟨hconn, hsize⟩ := h.usable p hp
    exact reads_decodeBlock hconn hsize (hstock _) fun region base => hm.region p region base
  have hparse := (Reads.counted hread m.length_savedBlocks_lt).parse
  rw [List.map_id] at hparse
  unfold parseList
  rw [h.bytes_blocks]
  exact hparse

theorem parseList_pages (h : m.ArenaSafe exact) :
    parseList m.toContainer Tag.index (decodeEntry m.savedBlocks.length) =
      .ok (m.savedPages.map fun e => (e.1, e.2 + 1)) := by
  have hlength : m.savedPages.length < 2 ^ 32 := m.length_savedPages_le.trans_lt (by decide)
  have hread : ∀ e ∈ m.savedPages,
      (decodeEntry m.savedBlocks.length).Reads (encodeEntry e) (e.1, e.2 + 1) := by
    intro e he
    have hlt := lt_of_mem_savedPages he
    exact reads_decodeEntry hlt (hlt.trans m.length_savedBlocks_lt)
  unfold parseList
  rw [h.bytes_index]
  exact (Reads.counted hread hlength).parse

theorem stage_toContainer (h : m.ArenaSafe exact) (hm : m.Encodable)
    (hregistered : t.devices.registered = m.devices.registered)
    (hstock : ∀ id, (m.block id).Restorable t.devices) :
    t.stage m.toContainer = .ok m.savedStage := by
  obtain ⟨hcount, hram, hgate, -⟩ := h.items_toContainer
  have hcheck : t.checkRegions m.toContainer = .ok () := by
    have hle : ¬(UInt32.ofNat m.devices.registered.size).toNat > t.devices.registered.size := by
      rw [hregistered, UInt32.toNat_ofNat']
      exact not_lt.mpr (Nat.mod_le _ _)
    unfold checkRegions
    rw [hcount]
    exact if_neg hle
  have hblocks := parseList_blocks h hm hstock
  have hpages := parseList_pages h
  simp only [stage, bind, Except.bind, hcheck, hram, hgate, hblocks, hpages]
  rfl

def withSaved (t m : Memory) : Memory :=
  { t.adopt m.savedStage with
    mappedCount := m.mappedCount, pagingActive := m.pagingActive, tlbFlush := m.tlbFlush }

theorem load_save (h : m.ArenaSafe exact) (hm : m.Encodable)
    (hregistered : t.devices.registered = m.devices.registered)
    (hstock : ∀ id, (m.block id).Restorable t.devices) :
    t.load m.save = .ok () (t.withSaved m) := by
  obtain ⟨-, -, -, hcount, hpaging, hflush⟩ := h.items_toContainer
  unfold load
  rw [h.parseFor_save hm.length]
  dsimp only
  rw [stage_toContainer h hm hregistered hstock]
  dsimp only
  unfold adoptFlags withSaved
  rw [hcount, hpaging, hflush]
  dsimp only [Option.getD_some]

/-! ## The restored bus -/

theorem lookup_map_pair (g : Page → Nat) (l : List Page) (p : Page) :
    (l.map fun q => (q, g q)).lookup p = if p ∈ l then some (g p) else none := by
  induction l with
  | nil => rfl
  | cons q l ih =>
    rw [List.map_cons, List.lookup_cons, ih]
    by_cases hp : p = q
    · subst hp
      simp
    · simp [hp, beq_false_of_ne hp]

theorem index_withSaved (t m : Memory) : (t.withSaved m).index =
    .ofEntries (quickPages m.ramSize) m.gateA20 m.savedStage.entries := rfl

theorem gateA20_withSaved (t m : Memory) : (t.withSaved m).gateA20 = m.gateA20 := by
  unfold gateA20
  rw [index_withSaved, PageIndex.gateA20_ofEntries, gateA20]

theorem sparse_withSaved (t m : Memory) (p : Page) : (t.withSaved m).index.plain.sparse p =
    if m.index.plain.sparse p = 0 then 0 else m.savedNumber p + 1 := by
  have hentries : m.savedStage.entries.reverse =
      m.index.plain.pages.reverse.map fun q => (q, m.savedNumber q + 1) := by
    unfold savedStage savedPages
    rw [List.map_map, ← List.map_reverse]
    rfl
  rw [index_withSaved, PageIndex.sparse_plain_ofEntries, hentries, lookup_map_pair]
  by_cases hp : m.index.plain.sparse p = 0 <;> simp [hp]

theorem block_withSaved (t m : Memory) (id : BlockId) : (t.withSaved m).block id =
    (Block.unconnected :: m.savedBlocks).getD id .unconnected := block_adopt t m.savedStage id

/-- The restored bus has the layout of the saved one, under the numbers of the saved blocks. -/
theorem ArenaSafe.sameLayout_withSaved (h : m.ArenaSafe exact) (t : Memory) :
    m.SameLayout (t.withSaved m) where
  free p := by
    rw [sparse_withSaved]
    by_cases hp : m.index.plain.sparse p = 0
    · rw [if_pos hp, hp]
    · rw [if_neg hp]
      exact iff_of_false (Nat.add_one_ne_zero _) hp
  shared p q := by
    rw [sparse_withSaved, sparse_withSaved]
    by_cases hp : m.index.plain.sparse p = 0 <;> by_cases hq : m.index.plain.sparse q = 0
    · rw [if_pos hp, if_pos hq, hp, hq]
    · rw [if_pos hp, if_neg hq, hp]
      exact iff_of_false (Nat.add_one_ne_zero _).symm (Ne.symm hq)
    · rw [if_neg hp, if_pos hq, hq]
      exact iff_of_false (Nat.add_one_ne_zero _) hp
    · rw [if_neg hp, if_neg hq, Nat.add_right_cancel_iff]
      refine ⟨savedNumber_inj hp hq, fun heq => ?_⟩
      unfold savedNumber
      rw [heq]
  block p := by
    rw [sparse_withSaved, block_withSaved, List.getD_eq_getElem?_getD]
    by_cases hp : m.index.plain.sparse p = 0
    · rw [if_pos hp, hp, h.sentinel]
      rfl
    · rw [if_neg hp, List.getElem?_cons_succ, getElem?_savedBlocks hp, Option.getD_some]

theorem ArenaSafe.wellFormed_savedStage (h : m.ArenaSafe exact) : m.savedStage.WellFormed where
  connected b hb := by
    obtain ⟨p, hp, rfl⟩ := mem_savedBlocks.mp hb
    exact (h.usable p hp).1
  size b hb := by
    obtain ⟨p, hp, rfl⟩ := mem_savedBlocks.mp hb
    exact (h.usable p hp).2
  entry_ne e he := by
    obtain ⟨e, -, rfl⟩ := List.mem_map.mp he
    exact Nat.succ_ne_zero _
  entry_le e he := by
    obtain ⟨e, hmem, rfl⟩ := List.mem_map.mp he
    exact lt_of_mem_savedPages hmem

theorem ArenaSafe.withSaved (h : m.ArenaSafe exact) (t : Memory) :
    (t.withSaved m).ArenaSafe False :=
  (ArenaSafe.adopt t h.wellFormed_savedStage).sameShape
    ⟨rfl, rfl, rfl, rfl, rfl, fun _ => rfl, fun _ => rfl⟩

/-- One bus is seen as the other from outside, under both states of the gate and wherever the blocks
stand in the arenas. -/
structure SeenAs (m' m : Memory) : Prop where
  blockAt : ∀ gate addr, (m'.setGateA20 gate).blockAt addr = (m.setGateA20 gate).blockAt addr
  shared : ∀ gate addr addr',
    (m'.setGateA20 gate).blockIdAt addr = (m'.setGateA20 gate).blockIdAt addr' ↔
      (m.setGateA20 gate).blockIdAt addr = (m.setGateA20 gate).blockIdAt addr'
  readWord : ∀ gate addr width,
    (m'.setGateA20 gate).readWord addr width = (m.setGateA20 gate).readWord addr width
  copyOut : ∀ gate addr n, (m'.setGateA20 gate).copyOut addr n = (m.setGateA20 gate).copyOut addr n
  gateA20 : m'.gateA20 = m.gateA20
  ramSize : m'.ramSize = m.ramSize
  mappedCount : m'.mappedCount = m.mappedCount
  pagingActive : m'.pagingActive = m.pagingActive
  tlbFlush : m'.tlbFlush = m.tlbFlush

theorem gateA20_setGateA20 (m : Memory) (gate : Bool) :
    (m.setGateA20 gate).index.gateA20 = gate := rfl

theorem ArenaSafe.seenAs_withSaved (h : m.ArenaSafe exact)
    (hregions : m.devices.SameRegions t.devices) : (t.withSaved m).SeenAs m := by
  have hsame := fun gate => (h.sameLayout_withSaved t).setGateA20 gate
  have hc : ∀ gate, (m.setGateA20 gate).index.Coherent := h.coherent.setGate
  have hc' : ∀ gate, ((t.withSaved m).setGateA20 gate).index.Coherent :=
    (h.withSaved t).coherent.setGate
  have hgate : ∀ gate, ((t.withSaved m).setGateA20 gate).index.gateA20 =
      (m.setGateA20 gate).index.gateA20 :=
    fun gate => (gateA20_setGateA20 _ gate).trans (gateA20_setGateA20 m gate).symm
  have hread : ∀ gate, ((t.withSaved m).setGateA20 gate).readSpan = (m.setGateA20 gate).readSpan :=
    fun gate => (hsame gate).readSpan_eq (hc gate) (hc' gate) (hgate gate) hregions
  refine ⟨fun gate => ?_, fun gate => ?_, fun gate addr width => ?_, fun gate addr n => ?_,
    gateA20_withSaved t m, rfl, rfl, rfl, rfl⟩
  · exact (hsame gate).blockAt_eq (hc gate) (hc' gate) (hgate gate)
  · exact (hsame gate).blockIdAt_eq_iff (hc gate) (hc' gate) (hgate gate)
  · unfold readWord readSpans
    rw [hread]
  · unfold copyOut readSpans
    rw [hread]

section Size

variable {ramSize : UInt32} {regions : Array Region} {had : Block → Prop}

/-- A bus can be saved if it has not had more than 2 GiB of blocks at a time. -/
theorem Lived.encodable (h : Lived ramSize regions had m) (hblocks : m.blocks.size ≤ 2 ^ 19)
    (hregions : m.devices.registered.size ≤ 2 ^ 32) : m.Encodable where
  length payload hpayload := by
    obtain ⟨hsafe, hpresent, -⟩ := h.stocked
    have hle := hsafe.blocksLength_le
    rw [hsafe.bytes_blocks] at hpayload
    rw [← Option.some.inj hpayload, hsafe.length_encodeBlocks fun id => (hpresent id).wholeStorage]
    omega
  region p region base hwindow := by
    have hregion := h.stocked.present (m.index.plain.sparse p)
    rw [hwindow] at hregion
    exact hregion.trans_le hregions

/-- Up to this size a saved bus fits into a field of another snapshot, too. -/
theorem Lived.length_save_lt (h : Lived ramSize regions had m) (hblocks : m.blocks.size ≤ 2 ^ 19) :
    m.save.length < 2 ^ 32 := by
  obtain ⟨hsafe, hpresent, -⟩ := h.stocked
  have hle := hsafe.saveLength_le
  rw [hsafe.length_save fun id => (hpresent id).wholeStorage]
  omega

end Size

theorem Lived.load_save {ramSize : UInt32} {regions : Array Region} {had : Block → Prop}
    (h : Lived ramSize regions had m) (hm : m.Encodable)
    (hregions : m.devices.SameRegions t.devices) :
    t.load m.save = .ok () (t.withSaved m) ∧ (t.withSaved m).SeenAs m ∧
      (t.withSaved m).save = m.save := by
  obtain ⟨hsafe, hpresent, -⟩ := h.stocked
  have hload := Memory.load_save hsafe hm hregions.registered fun id =>
    (hpresent id).congr hregions.registered
  have hsave : (t.withSaved m).toContainer = m.toContainer :=
    (hsafe.sameLayout_withSaved t).toContainer_eq hsafe (hsafe.withSaved t) rfl
      (gateA20_withSaved t m) rfl rfl rfl (congrArg Array.size hregions.registered)
  exact ⟨hload, hsafe.seenAs_withSaved hregions, congrArg Container.encode hsave⟩

/-- What a bus with any history saves is accepted by every bus that has the same regions registered,
whatever it held before. Afterwards this bus is seen as the saved one was, and saves the same bytes.
-/
theorem saved_bus_restored {ramSize : UInt32} {regions : Array Region} {had : Block → Prop}
    (h : Lived ramSize regions had m) (hm : m.Encodable)
    (hregions : m.devices.SameRegions t.devices) :
    ∃ t', t.load m.save = .ok () t' ∧ t'.SeenAs m ∧ t'.devices = t.devices ∧ t'.save = m.save := by
  obtain ⟨hload, hseen, hsave⟩ := h.load_save hm hregions
  exact ⟨t.withSaved m, hload, hseen, rfl, hsave⟩

/-- A bus with a page of RAM and a window, restored by one that is smaller and has other contents.
-/
theorem sample_bus_restored :
    let m := (((new 0x2000 #[.zeroed 4096]).step (.map 0 0x5000 4096)).step
      (.allocate 0x3000 .freshRam)).step (.setGateA20 true)
    let t := ((new 0 #[.zeroed 4096]).step (.register 0)).step (.allocate 0x7000 .lazyCode)
    ∃ t', t.load m.save = .ok () t' ∧ t'.SeenAs m ∧ t'.devices = t.devices ∧ t'.save = m.save := by
  intro m t
  have hmap : Lived 0x2000 #[.zeroed 4096] _
      ((new 0x2000 #[.zeroed 4096]).step (.map 0 0x5000 4096)) := .step _ .new trivial
  have hallocate : Lived 0x2000 #[.zeroed 4096] _ (((new 0x2000 #[.zeroed 4096]).step
      (.map 0 0x5000 4096)).step (.allocate 0x3000 .freshRam)) := .step _ hmap (Or.inl trivial)
  have hlived : Lived 0x2000 #[.zeroed 4096] _ m := .step _ hallocate trivial
  have hsize : m.blocks.size = 3 := by decide +kernel
  have hregistered : m.devices.registered = #[0] ∧ t.devices.registered = #[0] := by decide +kernel
  have hencodable : m.Encodable := by
    refine hlived.encodable ?_ ?_
    · rw [hsize]
      decide
    · rw [hregistered.1]
      decide
  have hregions : m.devices.regions = #[.zeroed 4096] ∧ t.devices.regions = #[.zeroed 4096] := by
    have gate_frame : ∀ (m : Memory) gate,
        (m.step (.setGateA20 gate)).devices.regions = m.devices.regions := fun _ _ => rfl
    have allocate_frame : ∀ (m : Memory) start b,
        (m.step (.allocate start b)).devices.regions = m.devices.regions :=
      fun m start b => congrArg RegionTable.regions (Stable.devices_allocate m start b)
    constructor
    · exact (gate_frame _ _).trans
        ((allocate_frame _ _ _).trans (regions_mapRegion _ 0 0x5000 4096))
    · exact (allocate_frame _ _ _).trans (RegionTable.regions_register _ 0)
  refine saved_bus_restored hlived hencodable ⟨hregistered.2.trans hregistered.1.symm, ?_⟩
  intro handle _
  unfold RegionTable.region
  rw [hregions.1, hregions.2]

end Memory
end Mainboard
