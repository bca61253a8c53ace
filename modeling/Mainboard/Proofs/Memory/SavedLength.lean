import Mainboard.Proofs.Memory.Layout
import Mainboard.Proofs.Memory.Restorable
import Mainboard.Proofs.Snapshot.Codec
import Mainboard.Proofs.Snapshot.Container

/-!
# The length of a saved bus

Every field of a saved bus but one is short whatever the bus holds: a flag, a word, or eight bytes
for each connected page. The field of the blocks grows with the blocks, which are saved once each
however many pages show them. So the length of a saved bus is found by counting blocks and pages,
without writing it; all that it needs is that code pages with storage have a whole page of it.
-/
namespace Mainboard

/-- A code page that is handed to the bus has no storage or a whole page of it. -/
def Transaction.HandsWhole : Transaction → Prop
  | .allocate _ b => b.WholeStorage
  | .replace _ b => b.WholeStorage
  | _ => True

def Container.fieldLengths (c : Container) : List Nat := c.fields.map fun field => field.2.length

theorem Container.WellFormed.lt_of_mem_fieldLengths {c : Container} (h : c.WellFormed) {n : Nat}
    (hn : n ∈ c.fieldLengths) : n < 2 ^ 32 := by
  obtain ⟨field, hfield, rfl⟩ := List.mem_map.mp hn
  exact h.fit field hfield

theorem Container.length_encode_eq (c : Container) :
    c.encode.length = headerLength + (c.fieldLengths.map (6 + ·)).sum := by
  unfold fieldLengths
  rw [encode_eq, List.length_append, length_header, Fields.encode, List.length_flatMap,
    List.map_map]
  exact congrArg _ (congrArg _ (List.map_congr_left fun field _ => Fields.length_encodeField field))

theorem size_eq_pow : UInt32.size = 2 ^ 32 := by norm_num [UInt32.size]

namespace Memory

variable {m : Memory} {exact : Prop} {had : Block → Prop}

/-- Code pages keep whole pages of storage under transactions, restores of arbitrary bytes included.
-/
theorem Stocked.run_whole (h : m.Stocked (fun _ b => b.WholeStorage) False had)
    {ts : List Transaction}
    (hts : ∀ t ∈ ts, t.HandsWhole) : (m.run ts).Stocked (fun _ b => b.WholeStorage) False had := by
  induction ts generalizing m with
  | nil => exact h
  | cons t ts ih =>
    have hands : t.Hands (fun _ b => b.WholeStorage) m.devices := by
      have ht := hts t List.mem_cons_self
      cases t <;> exact ht
    refine ih ?_ fun u hu => hts u (List.mem_cons_of_mem t hu)
    have hstable := stable_stocked Block.lasting_wholeStorage False had
    refine hstable.step (fun _ _ hb => hb.restorable.wholeStorage) h t hands fun input _ => ?_
    refine h.load Block.lasting_wholeStorage ?_ input
    exact (decodeBlock_yields_restorable m.devices).mono fun _ hb => hb.wholeStorage

/-! ## Blocks and pages -/

theorem length_encodeEntries (entries : List (Page × Nat)) :
    (encodeEntries entries).length = 4 + 8 * entries.length := by
  have hentry : ∀ e : Page × Nat, (encodeEntry e).length = 8 := by simp [encodeEntry]
  unfold encodeEntries
  rw [List.length_append, Encode.length_u32, List.length_flatMap,
    List.map_congr_left fun e _ => hentry e, List.map_const', List.sum_replicate, smul_eq_mul,
    Nat.mul_comm]

theorem length_encodeBlock {b : Block} (hsize : b.size = blockSize) (hwhole : b.WholeStorage) :
    (encodeBlock b).length = blockLength b := by
  have hpage : ∀ data : Bytes,
      data.length = blockSize → (Encode.vec data).length = 4 + blockSize := by
    intro data hdata
    rw [Encode.length_vec, hdata]
  cases b with
  | unconnected => rfl
  | window region base => rfl
  | ram data => exact congrArg (· + 1) (hpage data hsize)
  | rom data => exact congrArg (· + 1) (hpage data hsize)
  | code storage =>
    cases storage with
    | none => rfl
    | some data => exact congrArg (· + 2) (hpage data (hwhole data rfl))

theorem blockLength_le (b : Block) : blockLength b ≤ 4102 := by
  cases b with
  | code storage => cases storage <;> exact Nat.le_of_ble_eq_true rfl
  | _ => exact Nat.le_of_ble_eq_true rfl

theorem foldl_add (f : BlockId → Nat) (ids : List BlockId) (n : Nat) :
    ids.foldl (fun n id => n + f id) n = n + (ids.map f).sum := by
  induction ids generalizing n with
  | nil => rfl
  | cons id ids ih => rw [List.foldl_cons, ih, List.map_cons, List.sum_cons, Nat.add_assoc]

theorem ArenaSafe.blocksLength_eq (h : m.ArenaSafe exact) :
    m.blocksLength = 4 + (m.savedBlocks.map blockLength).sum := by
  unfold blocksLength
  dsimp only
  rw [foldl_add, h.numbers.order, savedBlocks, usedIds, List.map_map]
  rfl

theorem ArenaSafe.blocksLength_le (h : m.ArenaSafe exact) :
    m.blocksLength ≤ 4 + m.blocks.size * 4102 := by
  have hsum :=
    List.sum_le_card_nsmul (m.savedBlocks.map blockLength) 4102 (by simp [blockLength_le])
  rw [List.length_map, smul_eq_mul] at hsum
  rw [h.blocksLength_eq]
  exact Nat.add_le_add_left (hsum.trans (Nat.mul_le_mul_right 4102 h.length_savedBlocks_le)) 4

theorem length_occupied (m : Memory) : m.index.plain.occupied.length = m.savedPages.length := by
  rw [PageTable.occupied_eq, savedPages, List.length_map, List.length_map]

theorem ArenaSafe.saveLength_eq (h : m.ArenaSafe exact) :
    m.saveLength = 87 + (m.savedBlocks.map blockLength).sum + 8 * m.savedPages.length := by
  unfold saveLength
  rw [h.blocksLength_eq, m.length_occupied]
  omega

/-- What a bus can take in a snapshot at most, from the size of its arena alone. -/
theorem ArenaSafe.saveLength_le (h : m.ArenaSafe exact) :
    m.saveLength ≤ 87 + m.blocks.size * 4102 + 8 * 1048576 := by
  have hblocks := h.blocksLength_le
  have hpages := m.length_savedPages_le
  unfold saveLength
  rw [m.length_occupied]
  omega

section Whole

variable (h : m.ArenaSafe exact) (hwhole : ∀ id, (m.block id).WholeStorage)
include h hwhole

theorem ArenaSafe.length_encodeBlocks : (encodeBlocks m.savedBlocks).length = m.blocksLength := by
  have hblock : ∀ b ∈ m.savedBlocks, (encodeBlock b).length = blockLength b := by
    intro b hb
    obtain ⟨p, hp, rfl⟩ := mem_savedBlocks.mp hb
    exact length_encodeBlock (h.usable p hp).2 (hwhole _)
  rw [h.blocksLength_eq, encodeBlocks, List.length_append, Encode.length_u32, List.length_flatMap,
    List.map_congr_left hblock]

theorem ArenaSafe.length_contents {b : Block} (hb : b ∈ m.savedBlocks) {data : Bytes}
    (hdata : b.contents = some data) : data.length = blockSize := by
  obtain ⟨p, hp, rfl⟩ := mem_savedBlocks.mp hb
  have hsize := (h.usable p hp).2
  have hstored := hwhole (m.index.plain.sparse p)
  generalize m.block (m.index.plain.sparse p) = b at hdata hsize hstored
  cases b with
  | ram stored => exact Option.some.inj hdata ▸ hsize
  | rom stored => exact Option.some.inj hdata ▸ hsize
  | code storage => exact hstored data hdata
  | _ => cases hdata

/-! ## The fields -/

/-- The lengths of the fields of a saved bus, in the order of their tags. -/
theorem ArenaSafe.fieldLengths_toContainer : m.toContainer.fieldLengths =
    [4, 1, 4, 1, 1, m.blocksLength, 4 + 8 * m.savedPages.length, 4] := by
  have hlengths : m.toContainer.fieldLengths = [(Encode.u32 m.ramSize).length,
      (Encode.bool m.gateA20).length, (Encode.u32 m.mappedCount).length,
      (Encode.bool m.pagingActive).length, (Encode.bool m.tlbFlush).length,
      (encodeBlocks m.savedBlocks).length, (encodeEntries m.savedPages).length,
      (Encode.u32 (UInt32.ofNat m.devices.registered.size)).length] := by
    rw [h.toContainer_eq]
    rfl
  simp only [hlengths, Encode.length_u32, Encode.length_bool, h.length_encodeBlocks hwhole,
    length_encodeEntries]

theorem ArenaSafe.length_save : m.save.length = m.saveLength := by
  have hsum : ∀ blocks pages : Nat, Container.headerLength +
      ([4, 1, 4, 1, 1, blocks, 4 + 8 * pages, 4].map (6 + ·)).sum = 83 + blocks + 8 * pages := by
    intro blocks pages
    simp only [List.map_cons, List.map_nil, List.sum_cons, List.sum_nil, Container.headerLength]
    omega
  unfold save saveLength
  rw [Container.length_encode_eq, h.fieldLengths_toContainer hwhole, m.length_occupied]
  exact hsum _ _

/-- A bus is saved exactly if the lengths of all fields fit into 32 bits. -/
theorem ArenaSafe.save?_eq_none_iff :
    m.save? = none ↔ ∃ n ∈ m.toContainer.fieldLengths, 2 ^ 32 ≤ n := by
  have hpages := m.length_savedPages_le
  unfold save?
  rw [size_eq_pow, h.fieldLengths_toContainer hwhole]
  split_ifs with hfits
  · refine iff_of_false nofun ?_
    rintro ⟨n, hn, hlong⟩
    simp only [List.mem_cons, List.not_mem_nil, or_false] at hn
    omega
  · exact iff_of_true rfl ⟨m.blocksLength, by simp, not_lt.mp hfits⟩

end Whole

end Memory
end Mainboard
