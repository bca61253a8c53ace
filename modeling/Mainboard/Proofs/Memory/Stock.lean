import Mainboard.Proofs.Memory.Backing

/-!
# Properties of the blocks that a bus holds

A property of blocks lasts if it does not depend on more than what is registered and how large the
regions are, holds of the blocks that a bus makes by itself, and is kept by stores and clearing. If
it holds of all blocks in the arena and of those that are handed in, it holds of them at every later
time; and it goes on to hold of copies of former blocks, which can be handed in again.
-/
namespace Mainboard

structure Block.Lasting (B : RegionTable → Block → Prop) : Prop where
  unconnected : ∀ t, B t .unconnected
  made : ∀ {t b}, b.Made t → B t b
  mono : ∀ {t t' b}, B t b → t.Extends t' → B t' b
  write : ∀ {t b} (offset : Nat) (src : Bytes), B t b → B t (b.write t offset src).1
  clear : ∀ {t b}, B t b → B t (b.clear t).1

theorem Transaction.Hands.imp {A B : RegionTable → Block → Prop} {t : RegionTable}
    (h : ∀ b, A t b → B t b) {tr : Transaction} (ht : tr.Hands A t) : tr.Hands B t := by
  cases tr with
  | allocate start b => exact h b ht
  | replace old b => exact h b ht
  | _ => trivial

namespace Memory

/-- The arena is safe, and all blocks that are in it or have been have the property. -/
structure Stocked (B : RegionTable → Block → Prop) (exact : Prop) (had : Block → Prop)
    (m : Memory) :
    Prop where
  safe : m.ArenaSafe exact
  present : ∀ id, B m.devices (m.block id)
  past : ∀ b, had b → B m.devices b

variable {B : RegionTable → Block → Prop} {exact : Prop} {had : Block → Prop} {m m' : Memory}
  {t : RegionTable}

/-! ## The blocks that a change leaves in the arena -/

theorem block_discard (m : Memory) (id i : BlockId) :
    (m.discard id).block i = m.block i ∨ (m.discard id).block i = .unconnected := by
  rw [block_discard_eq]
  split_ifs
  · exact Or.inr rfl
  · exact Or.inl rfl

theorem block_release (m : Memory) (id i : BlockId) :
    (m.release id).block i = m.block i ∨ (m.release id).block i = .unconnected := by
  unfold release
  dsimp only
  split_ifs
  · exact Or.inl rfl
  · exact block_discard _ id i
  · exact Or.inl rfl

theorem block_install (m : Memory) (p : Page) (id i : BlockId) :
    (m.install p id).block i = m.block i ∨ (m.install p id).block i = .unconnected := by
  unfold install
  dsimp only
  split_ifs <;> exact block_release _ _ i

@[simp] theorem blocks_storePiece (m : Memory) (piece : Piece) :
    (m.storePiece piece).blocks = m.blocks.setIfInBounds (m.blockIdAt piece.addr)
      ((m.blockAt piece.addr).write m.devices (offsetInPage piece.addr) piece.bytes).1 := by
  obtain ⟨_, h⟩ := m.storePiece_eq piece
  rw [h]

@[simp] theorem devices_storePiece (m : Memory) (piece : Piece) :
    (m.storePiece piece).devices =
      ((m.blockAt piece.addr).write m.devices (offsetInPage piece.addr) piece.bytes).2 := by
  obtain ⟨_, h⟩ := m.storePiece_eq piece
  rw [h]

/-- A position beyond the arena has no block, and a store there puts none. -/
theorem block_storePiece (m : Memory) (piece : Piece) (i : BlockId) : (m.storePiece piece).block i =
    if i = m.blockIdAt piece.addr then
      ((m.blockAt piece.addr).write m.devices (offsetInPage piece.addr) piece.bytes).1
    else m.block i := by
  unfold block
  rw [blocks_storePiece, getD_setIfInBounds]
  by_cases hi : i = m.blockIdAt piece.addr
  · by_cases hlt : m.blockIdAt piece.addr < m.blocks.size
    · rw [if_pos ⟨hi, hlt⟩, if_pos hi]
    · have hnone : m.blocks.getD i .unconnected = .unconnected := by
        simp [hi, Array.getD_eq_getD_getElem?, Array.getElem?_eq_none (not_lt.mp hlt)]
      have hblock : m.blockAt piece.addr = .unconnected := by
        rw [blockAt, block, ← hi, hnone]
      rw [if_neg fun h => hlt h.2, if_pos hi, hblock, hnone]
      rfl
  · rw [if_neg fun h => hi h.1, if_neg hi]

/-- A position beyond the arena has no block, and a clear there puts none. -/
theorem block_clearBlock (m : Memory) (id i : BlockId) : (m.clearBlock id).block i =
    if i = id then ((m.block i).clear m.devices).1 else m.block i := by
  unfold clearBlock
  dsimp only
  unfold block
  dsimp only
  rw [getD_setIfInBounds]
  by_cases hi : i = id
  · subst hi
    by_cases hlt : i < m.blocks.size
    · rw [if_pos ⟨rfl, hlt⟩, if_pos rfl]
    · have hnone : m.blocks.getD i .unconnected = .unconnected := by
        simp [Array.getD_eq_getD_getElem?, Array.getElem?_eq_none (not_lt.mp hlt)]
      rw [if_neg fun h => hlt h.2, if_pos rfl, hnone]
      rfl
  · rw [if_neg fun h => hi h.1, if_neg hi]

namespace Stocked

theorem alloc (h : m.Stocked B exact had) {b : Block} (hb : B m.devices b) (id : BlockId) :
    B m.devices ((m.alloc b).2.block id) := by
  rw [h.safe.block_alloc]
  split_ifs
  · exact hb
  · exact h.present id

theorem setBlock (hB : Block.Lasting B) (h : m.Stocked B exact had) (hsafe : m'.ArenaSafe exact)
    {id : BlockId} {b : Block} (hb : B m'.devices b) (hext : m.devices.Extends m'.devices)
    (hblocks : m'.blocks = m.blocks.setIfInBounds id b) : m'.Stocked B exact had where
  safe := hsafe
  present := by
    intro i
    unfold block
    rw [hblocks, getD_setIfInBounds]
    split_ifs
    · exact hb
    · exact hB.mono (h.present i) hext
  past b hhad := hB.mono (h.past b hhad) hext

/-- A change that leaves the arena safe, keeps all blocks or gives them up, and extends what is
registered. -/
theorem of_subset (hB : Block.Lasting B) (h : m.Stocked B exact had) (hsafe : m'.ArenaSafe exact)
    (hext : m.devices.Extends m'.devices)
    (hblock : ∀ id, B m.devices (m'.block id)) : m'.Stocked B exact had where
  safe := hsafe
  present id := hB.mono (hblock id) hext
  past b hhad := hB.mono (h.past b hhad) hext

end Stocked

theorem extends_of_eq {t t' : RegionTable} (h : t' = t) : t.Extends t' := h ▸ t.extends_self

theorem lasting_of_eq_or (hB : Block.Lasting B) {b b' : Block} (h : B t b)
    (hb : b' = b ∨ b' = .unconnected) : B t b' := by
  rcases hb with rfl | rfl
  · exact h
  · exact hB.unconnected t

theorem stable_stocked (hB : Block.Lasting B) (exact : Prop) (had : Block → Prop) :
    Stable B (Stocked B exact had) where
  coherent h := h.safe.coherent
  frame := by
    intro m m' h hsame
    have hext : m.devices.Extends m'.devices := by
      refine ⟨?_, ?_⟩
      · rw [hsame.registered]
        exact fun hi => hi
      · intro handle
        rw [RegionTable.region, hsame.regions]
        rfl
    refine h.of_subset hB ((stable_arenaSafe B exact).frame h.safe hsame) hext fun id => ?_
    rw [block, hsame.blocks]
    exact h.present id
  register := by
    intro m handle h
    exact h.of_subset hB ((stable_arenaSafe B exact).register handle h.safe)
      (m.devices.extends_register handle) h.present
  connect := by
    intro m p b h hp hconn hsize hb
    refine h.of_subset hB (h.safe.connect hp hconn hsize) (extends_of_eq (devices_connect m p b))
      fun id => ?_
    exact lasting_of_eq_or hB (h.alloc hb id) (block_install _ p _ id)
  disconnect := by
    intro m p h
    refine h.of_subset hB (h.safe.disconnect p) (extends_of_eq (devices_disconnect m p))
      fun id => ?_
    refine lasting_of_eq_or hB (h.present id) ?_
    unfold Memory.disconnect
    split_ifs
    · exact Or.inl rfl
    · exact block_install _ p 0 id
  replaceBlock := by
    intro m old b h hconn hsize hold hb
    have hsafe := h.safe.replaceBlock hconn hsize hold
    rw [left_replaceBlock hconn hsize hold] at hsafe ⊢
    dsimp only at hsafe ⊢
    split_ifs at hsafe ⊢ with hheld
    · refine h.of_subset hB hsafe (extends_of_eq (devices_alloc m b)) fun id => ?_
      exact lasting_of_eq_or hB (h.alloc hb id) (block_discard _ _ id)
    · refine h.of_subset hB hsafe (extends_of_eq ?_) fun id => ?_
      · rw [devices_release, devices_alloc]
      · exact lasting_of_eq_or hB (h.alloc hb id) (block_release _ old id)
  storePiece := by
    intro m piece h
    have hext :=
      (m.blockAt piece.addr).extends_write m.devices (offsetInPage piece.addr) piece.bytes
    rw [← devices_storePiece] at hext
    exact h.setBlock hB (h.safe.storePiece piece) (hB.mono (hB.write _ _ (h.present _)) hext) hext
      (blocks_storePiece m piece)
  clearBlock := by
    intro m id h
    have hext := (m.block id).extends_clear m.devices
    exact h.setBlock hB (h.safe.clearBlock id) (hB.mono (hB.clear (h.present id)) hext) hext rfl

theorem stocked_new (hB : Block.Lasting B) (ramSize : UInt32) (regions : Array Region)
    (exact : Prop) :
    (new ramSize regions).Stocked B exact fun _ => False where
  safe := arenaSafe_new ramSize regions exact
  present := by
    intro id
    have hblock : (new ramSize regions).block id = .unconnected := by
      unfold block new
      cases id <;> rfl
    rw [hblock]
    exact hB.unconnected _
  past b h := h.elim

/-- The history grows by the present blocks before a step, so that they outlive it. -/
theorem Stocked.remember (h : m.Stocked B exact had) :
    m.Stocked B exact fun b => had b ∨ ∃ id, m.block id = b where
  safe := h.safe
  present := h.present
  past := by
    rintro b (hb | ⟨id, rfl⟩)
    · exact h.past b hb
    · exact h.present id

end Memory
end Mainboard
