import Mainboard.Proofs.Machine.Reset
import Mainboard.Proofs.Memory.Canonical

/-!
# Which machines can be saved

Lengths in a saved machine are written with 32 bits. Only two of them ever need more: that of the
blocks of the bus, and that of the saved bus as a field of the machine, which is the longer one. So
a machine is saved exactly if its saved bus is shorter than 4 GiB. A block takes a few bytes more in
a saved bus than on the bus. This is why a configuration with nearly 4 GiB of RAM, in which nothing
is wrong, makes a machine that cannot be saved.
-/
namespace Mainboard

/-! ## RAM in a configuration -/

namespace Config

variable {config : Config}

def pagesBetween (a b : Nat) : Finset Page := Finset.univ.filter fun p => a ≤ p.val ∧ p.val < b

@[simp] theorem mem_pagesBetween {a b : Nat} {p : Page} :
    p ∈ pagesBetween a b ↔ a ≤ p.val ∧ p.val < b := by
  simp [pagesBetween]

theorem card_pagesBetween {a b : Nat} (hb : b ≤ 1048576) : (pagesBetween a b).card = b - a := by
  rw [← Nat.card_Ico, ← Finset.card_map Fin.valEmbedding]
  refine congrArg Finset.card (Finset.ext fun n => ?_)
  simp only [Finset.mem_map, mem_pagesBetween, Fin.valEmbedding_apply, Finset.mem_Ico]
  constructor
  · rintro ⟨p, hp, rfl⟩
    exact hp
  · rintro ⟨hle, hlt⟩
    exact ⟨⟨n, hlt.trans_le hb⟩, ⟨hle, hlt⟩, rfl⟩

/-- There is RAM below the hole, from page 0 on, and above the hole, from page 256 on. -/
theorem card_hasRam (hsize : config.ramSize.toNat % blockSize = 0) :
    (Finset.univ.filter config.hasRam).card = if config.mapSystemRam = true then
      min (config.ramSize.toNat / blockSize) 160 + (config.ramSize.toNat / blockSize - 256)
    else 0 := by
  have hlt := config.ramSize.toNat_lt
  split_ifs with hmap
  · have hparts : Finset.univ.filter config.hasRam =
        pagesBetween 0 (min (config.ramSize.toNat / blockSize) 160) ∪
          pagesBetween 256 (config.ramSize.toNat / blockSize) := by
      ext p
      simp only [Finset.mem_filter, Finset.mem_univ, true_and, Finset.mem_union, mem_pagesBetween,
        hasRam, hmap, legacyHoleStart, legacyHoleEnd]
      unfold blockSize at *
      omega
    have hdisjoint : Disjoint (pagesBetween 0 (min (config.ramSize.toNat / blockSize) 160))
        (pagesBetween 256 (config.ramSize.toNat / blockSize)) := by
      refine Finset.disjoint_left.mpr fun p hlow hhigh => ?_
      rw [mem_pagesBetween] at hlow hhigh
      omega
    have hinside : config.ramSize.toNat / blockSize ≤ 1048576 := by
      unfold blockSize
      omega
    rw [hparts, Finset.card_union_of_disjoint hdisjoint, card_pagesBetween hinside,
      card_pagesBetween ((min_le_left _ _).trans hinside), Nat.sub_zero]
  · exact Finset.card_eq_zero.mpr (Finset.filter_eq_empty_iff.mpr fun p _ hp => hmap hp.1)

end Config

namespace Machine

variable {σ δ : Type} {m : Machine σ δ}

/-- The lengths that are written with 32 bits when a machine is saved: of the storage of its blocks,
of the fields of its three parts, and of the saved parts themselves. -/
def writtenLengths (m : Machine σ δ) : List Nat :=
  m.memory.savedBlocks.filterMap (fun b => b.contents.map List.length) ++
    m.memory.toContainer.fieldLengths ++
    m.controller.toContainer.fieldLengths ++ m.core.dispatcher.toContainer.fieldLengths ++
    m.toContainer.fieldLengths

theorem fieldLengths_toContainer (m : Machine σ δ) : m.toContainer.fieldLengths =
    [m.memory.save.length, m.controller.save.length, m.core.dispatcher.save.length] := rfl

theorem save?_eq (m : Machine σ δ) :
    m.save? = if m.memory.saveLength < 2 ^ 32 then some m.save else none := by
  rw [← size_eq_pow]
  rfl

theorem save?_eq_none_iff : m.save? = none ↔ 2 ^ 32 ≤ m.memory.saveLength := by
  rw [save?_eq]
  split_ifs with h
  · exact iff_of_false nofun h.not_ge
  · exact iff_of_true rfl (not_lt.mp h)

theorem saveLength_eq {exact : Prop} (h : m.memory.ArenaSafe exact) : m.memory.saveLength =
    87 + (m.memory.savedBlocks.map Memory.blockLength).sum + 8 * m.memory.connected.card := by
  rw [h.saveLength_eq, h.length_savedPages]

section Whole

variable {exact : Prop} (h : m.memory.ArenaSafe exact)
    (hwhole : ∀ id, (m.memory.block id).WholeStorage)
include h hwhole

theorem long_of_mem_writtenLengths {n : Nat} (hn : n ∈ m.writtenLengths) (hlong : 2 ^ 32 ≤ n) :
    n = m.memory.blocksLength ∨ n = m.memory.saveLength := by
  have hcontroller := m.controller.wellFormed_toContainer
  have hdispatcher := m.core.dispatcher.wellFormed_toContainer
  have hpages := m.memory.length_savedPages_le
  simp only [writtenLengths, List.mem_append] at hn
  obtain (((hblock | hmemory) | hn) | hn) | hmachine := hn
  · obtain ⟨b, hb, hlength⟩ := List.mem_filterMap.mp hblock
    obtain ⟨data, hdata, rfl⟩ := Option.map_eq_some_iff.mp hlength
    rw [h.length_contents hwhole hb hdata] at hlong
    exact absurd hlong (by decide)
  · rw [h.fieldLengths_toContainer hwhole] at hmemory
    simp only [List.mem_cons, List.not_mem_nil, or_false] at hmemory
    omega
  · exact absurd (hcontroller.lt_of_mem_fieldLengths hn) hlong.not_gt
  · exact absurd (hdispatcher.lt_of_mem_fieldLengths hn) hlong.not_gt
  · have hpic : m.controller.save.length < 2 ^ 32 := m.controller.length_save_lt
    have hexec : m.core.dispatcher.save.length < 2 ^ 32 := m.core.dispatcher.length_save_lt
    rw [fieldLengths_toContainer, h.length_save hwhole] at hmachine
    simp only [List.mem_cons, List.not_mem_nil, or_false] at hmachine
    omega

/-- The saved bus is the longer one of the two, and it is one of the lengths. -/
theorem exists_long_iff :
    (∃ n ∈ m.writtenLengths, 2 ^ 32 ≤ n) ↔ 2 ^ 32 ≤ m.memory.saveLength := by
  constructor
  · rintro ⟨n, hn, hlong⟩
    obtain heq | heq := long_of_mem_writtenLengths h hwhole hn hlong
    · rw [heq] at hlong
      unfold Memory.saveLength
      omega
    · rw [← heq]
      exact hlong
  · intro hlong
    refine ⟨m.memory.saveLength, ?_, hlong⟩
    unfold writtenLengths
    rw [fieldLengths_toContainer, h.length_save hwhole]
    exact List.mem_append_right _ List.mem_cons_self

end Whole

/-! ## All histories -/

variable [Processor σ] {config : Config} {cpu : σ} {regions : Array Region} {m₀ : Machine σ δ}

theorem stocked_new (hnew : new config cpu regions = .ok m₀) :
    m₀.memory.Stocked (fun _ b => b.WholeStorage) False fun _ => False := by
  rw [memory_new hnew]
  refine (Memory.stocked_new Block.lasting_wholeStorage config.ramSize regions False).run_whole ?_
  intro t ht
  obtain ⟨addr, rfl⟩ | rfl := config.cases_startTraffic ht <;> trivial

/-- After any history, restores of arbitrary bytes included, all lengths that are written fit into
32 bits except for those of the blocks of the bus and of the bus itself, and these two are as
follows: every block that some page shows is saved once, with a few bytes beside its storage, and
each connected page takes eight bytes. The machine is saved exactly if all lengths fit, that is, if
the saved bus takes less than 4 GiB. -/
theorem saved_below_four_gib [PortDevice δ] (hnew : new config cpu regions = .ok m₀)
    (ops : List (Operation σ δ)) (hwhole : ∀ t ∈ m₀.runTraffic ops, t.HandsWhole) :
    let m := m₀.run ops
    let blocks := (m.memory.savedBlocks.map Memory.blockLength).sum
    let size := 87 + blocks + 8 * m.memory.connected.card
    m.memory.save.length = size ∧
    (∀ n ∈ m.writtenLengths, 2 ^ 32 ≤ n → n = 4 + blocks ∨ n = size) ∧
    ((∃ n ∈ m.writtenLengths, 2 ^ 32 ≤ n) ↔ 2 ^ 32 ≤ size) ∧
    m.save? = if size < 2 ^ 32 then some m.save else none := by
  intro m blocks size
  obtain ⟨hsafe, hstored, -⟩ :
      m.memory.Stocked (fun _ b => b.WholeStorage) False fun _ => False := by
    unfold m
    rw [memory_run]
    exact (stocked_new hnew).run_whole hwhole
  have hblocks : m.memory.blocksLength = 4 + blocks := hsafe.blocksLength_eq
  have hsize : m.memory.saveLength = size := saveLength_eq hsafe
  rw [← hblocks, ← hsize]
  exact ⟨hsafe.length_save hstored, fun n => long_of_mem_writtenLengths hsafe hstored,
    exists_long_iff hsafe hstored, m.save?_eq⟩

/-- Two pages of RAM, of which one is replaced by ROM, and two windows. -/
theorem sample_saved_below_four_gib :
    let config := { Config.default with ramSize := 0x2000 }
    let start : Machine PinLog Empty := left (assemble config ⟨[]⟩ #[.zeroed 0x2000]).configure
    let m := start.run [.memory (.map 0 0x5000 0x2000), .memory (.allocate 0x1000 (.rom zeroPage))]
    m.save? = some m.save ∧ m.memory.save.length < 2 ^ 32 := by
  intro config start m
  have hnew : new config ⟨[]⟩ #[.zeroed 0x2000] = .ok start := new_eq_ok_iff.mpr ⟨by decide, rfl⟩
  have hwhole : ∀ t ∈ start.runTraffic
      [.memory (.map 0 0x5000 0x2000), .memory (.allocate 0x1000 (.rom zeroPage))], t.HandsWhole :=
    List.forall_mem_cons.mpr ⟨trivial, List.forall_mem_cons.mpr ⟨trivial, nofun⟩⟩
  obtain ⟨hlength, -, -, hsave⟩ := saved_below_four_gib hnew _ hwhole
  have hsafe : m.memory.ArenaSafe False := by
    unfold m
    rw [memory_run]
    exact (stocked_new hnew).safe.run _
  have hsize : m.memory.blocks.size = 5 := by decide +kernel
  have hlt : m.memory.saveLength < 2 ^ 32 := by
    have hle := hsafe.saveLength_le
    rw [hsize] at hle
    omega
  rw [← saveLength_eq hsafe] at hlength hsave
  rw [hlength]
  exact ⟨hsave.trans (if_pos hlt), hlt⟩

/-! ## New machines -/

theorem pageBlock_new (hnew : new config cpu regions = .ok m₀) (p : Page) :
    m₀.memory.pageBlock p = if config.hasRam p then .freshRam else .unconnected := by
  have hsize := (Config.error?_eq_none (new_eq_ok_iff.mp hnew).1).1
  have hbus : (Memory.new config.ramSize regions).ArenaSafe False := Memory.arenaSafe_new _ _ _
  have hblock : m₀.memory.pageBlock p =
      ((Memory.new config.ramSize regions).run config.ramTraffic).pageBlock p := by
    rw [memory_new hnew, Memory.run_append]
    rfl
  have hempty : (Memory.new config.ramSize regions).pageBlock p = .unconnected :=
    hbus.pageBlock_eq_unconnected_iff.mpr ((hbus.pageId_eq p).trans (PageTable.sparse_empty _ p))
  rw [hblock, pageBlock_ramTraffic hbus hsize, hempty]

theorem saveLength_new (hnew : new config cpu regions = .ok m₀) :
    m₀.memory.saveLength = 87 + 4109 * (Finset.univ.filter config.hasRam).card := by
  have hunshared : m₀.memory.Unshared := by
    rw [memory_new hnew]
    refine Memory.stable_unshared.run _ (fun input hmem => ?_)
      (Memory.unshared_new config.ramSize regions)
    obtain ⟨addr, heq⟩ | heq := config.cases_startTraffic hmem <;> cases heq
  have hconnected : ∀ p, m₀.memory.pageId p ≠ 0 ↔ config.hasRam p := by
    intro p
    rw [ne_eq, ← hunshared.safe.pageBlock_eq_unconnected_iff, pageBlock_new hnew]
    split_ifs with hram
    · exact iff_of_true nofun hram
    · exact iff_of_false (fun h => h rfl) hram
  have hblocks := hunshared.sum_blockLength (k := 4101) fun p hp => by
    rw [pageBlock_new hnew, if_pos ((hconnected p).mp hp)]
    rfl
  have hpages : m₀.memory.connected = Finset.univ.filter config.hasRam :=
    Finset.filter_congr fun p _ => hconnected p
  rw [saveLength_eq hunshared.safe, hblocks, hpages]
  omega

/-- A new machine cannot be saved exactly if its RAM reaches into the last 3221 pages of the bus. -/
theorem save?_new_eq_none_iff (hnew : new config cpu regions = .ok m₀) :
    m₀.save? = none ↔ config.mapSystemRam = true ∧ 0xFF36B000 ≤ config.ramSize.toNat := by
  have hsize := (Config.error?_eq_none (new_eq_ok_iff.mp hnew).1).1
  rw [save?_eq_none_iff, saveLength_new hnew, Config.card_hasRam hsize]
  have hlt := config.ramSize.toNat_lt
  unfold blockSize at *
  split_ifs with hmap
  · rw [and_iff_right hmap]
    omega
  · exact iff_of_false (by omega) fun h => hmap h.1

/-- All of the bus but its last page is RAM, with the usual hole. -/
theorem full_ram_not_saved :
    let config := { Config.default with ramSize := 0xFFFFF000 }
    config.error? = none ∧ ∃ m₀ : Machine PinLog Empty, new config ⟨[]⟩ #[] = .ok m₀ ∧
      m₀.save? = none ∧ ∃ n ∈ m₀.writtenLengths, 2 ^ 32 ≤ n := by
  intro config
  have hvalid : config.error? = none := by decide
  obtain ⟨m₀, hnew⟩ : ∃ m₀ : Machine PinLog Empty, new config ⟨[]⟩ #[] = .ok m₀ :=
    ⟨_, new_eq_ok_iff.mpr ⟨hvalid, rfl⟩⟩
  have hnone := (save?_new_eq_none_iff hnew).mpr ⟨rfl, by decide⟩
  obtain ⟨hsafe, hstored, -⟩ := stocked_new hnew
  exact ⟨hvalid, m₀, hnew, hnone, (exists_long_iff hsafe hstored).mpr (save?_eq_none_iff.mp hnone)⟩

end Machine
end Mainboard
