import Mainboard.Proofs.Memory.Restore
import Mainboard.Proofs.Memory.Stability

/-!
# The A20 gate over whole runs

In every state that a run of transactions reaches, restores of arbitrary bytes included, the gate
selects between two views of one mapping: with the gate enabled an address finds the block that is
installed at its page, with the gate disabled the one at the address with bit 20 cleared. The quick
part never contradicts the groups, and switching the gate leaves the installed blocks alone.
-/
namespace Mainboard
namespace Memory

theorem index_replaceBlock {m : Memory} {old : BlockId} {b : Block} (hb : b.isConnected = true)
    (hsize : b.size = blockSize) (hold : old ≠ 0) :
    (left (m.replaceBlock old b)).index = m.index.substitute old (m.alloc b).1 := by
  rw [left_replaceBlock hb hsize hold]
  dsimp only
  split_ifs <;> simp [discard]

/-- Coherence of the index is kept by every elementary change, whatever blocks are handed in. -/
theorem stable_coherent (A : RegionTable → Block → Prop) :
    Stable A fun m => m.index.Coherent where
  coherent h := h
  frame := by
    intro m m' h hsame
    refine ⟨?_, ?_, ?_⟩
    · rw [hsame.plain]
      exact h.plain
    · rw [hsame.masked]
      exact h.masked
    · rw [hsame.masked, hsame.plain]
      exact h.sparse_masked
  register _ h := h
  connect h _ _ _ _ := by
    rw [index_connect]
    exact h.set _ _
  disconnect := by
    intro m p h
    unfold disconnect
    split_ifs
    · exact h
    · rw [index_install]
      exact h.set _ _
  replaceBlock h hb hsize hold _ := by
    rw [index_replaceBlock hb hsize hold]
    exact h.substitute hold _
  storePiece _ h := by
    rw [index_storePiece]
    exact h
  clearBlock _ h := h

theorem coherent_load {m : Memory} (input : Bytes) (h : m.index.Coherent) :
    (left (m.load input)).index.Coherent := by
  rcases left_load m input with hload | ⟨s, -, count, paging, flush, hload⟩
  · rw [hload]
    exact h
  · rw [hload]
    exact PageIndex.coherent_ofEntries (quickPages_le _) _ _

theorem coherent_run (ramSize : UInt32) (regions : Array Region) (ts : List Transaction) :
    ((new ramSize regions).run ts).index.Coherent :=
  (stable_coherent _).run ts (fun input _ => coherent_load input)
    (PageIndex.coherent_empty (quickPages_le _) _)

theorem run_setGateA20 (m : Memory) (gates : List Bool) :
    (m.run (gates.map .setGateA20)).index.plain = m.index.plain := by
  induction gates generalizing m with
  | nil => rfl
  | cons enabled rest ih => exact ih _

/-- After every run the gate shows the installed blocks at the address it lets through, quick and
sparse answers agree, and no switching of the gate changes what is installed. -/
theorem gate_selects_view (ramSize : UInt32) (regions : Array Region) (ts : List Transaction)
    (addr : UInt32) :
    let m := (new ramSize regions).run ts
    m.blockIdAt addr =
        (if m.gateA20 then m.plainBlockIdAt addr else m.plainBlockIdAt (addr &&& 0xFFEFFFFF)) ∧
      (∀ id, m.quickBlockIdAt? addr = some id → id = m.sparseBlockIdAt addr) ∧
      ∀ gates : List Bool,
        (m.run (gates.map .setGateA20)).plainBlockIdAt addr = m.plainBlockIdAt addr := by
  intro m
  have hc : m.index.Coherent := coherent_run ramSize regions ts
  refine ⟨?_, ?_, ?_⟩
  · have hpage := Page.ofAddr_and_a20Mask addr
    unfold a20Mask at hpage
    unfold blockIdAt plainBlockIdAt gateA20
    rw [hc.lookup_active, hpage]
    split_ifs <;> rfl
  · intro id hid
    exact hc.active.agree _ id hid
  · intro gates
    unfold plainBlockIdAt
    rw [run_setGateA20]

end Memory
end Mainboard
