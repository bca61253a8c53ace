import Mainboard.Proofs.Memory.Gate
import Mainboard.Proofs.Memory.Holders

/-!
# Safety of the block arena

The arena is safe if every installed position holds a whole connected block, the stack of positions
to be used again has no duplicates and nothing on it is installed, and the recorded count of a block
is at least the number of plain pages that hold it. Then a position that is given out again answers
at no page. Without restores the counts are exact; a restore may count a page that its data names
twice, so from then on they are bounds.
-/
namespace Mainboard

namespace Block

@[simp] theorem isConnected_write (b : Block) (t : RegionTable) (offset : Nat) (src : Bytes) :
    (b.write t offset src).1.isConnected = b.isConnected := by
  unfold write
  split <;> try rfl
  split <;> rfl

@[simp] theorem size_write (b : Block) (t : RegionTable) (offset : Nat) (src : Bytes) :
    (b.write t offset src).1.size = b.size := by
  unfold write
  split <;> try rfl
  · simp [size]
  · split <;> rfl

@[simp] theorem isConnected_clear (b : Block) (t : RegionTable) :
    (b.clear t).1.isConnected = b.isConnected := by
  unfold clear clearRange
  split <;> try rfl
  all_goals split <;> rfl

theorem length_zeroInside (data : Bytes) (offset length : Nat) :
    (zeroInside data offset length).length = data.length := by
  unfold zeroInside
  split_ifs <;> simp [Bytes.zeroed]

@[simp] theorem size_clear (b : Block) (t : RegionTable) : (b.clear t).1.size = b.size := by
  unfold clear clearRange
  split <;> try rfl
  · simp [size, length_zeroInside]
  all_goals split <;> rfl

theorem eq_unconnected {b : Block} (h : b.isConnected = false) : b = .unconnected := by
  cases b <;> simp_all [isConnected]

end Block

namespace Memory

def refCount (m : Memory) (id : BlockId) : Nat := m.refs.getD id 0

/-- The block at a position can answer at a page: it is connected and a whole page. -/
def Usable (m : Memory) (id : BlockId) : Prop :=
  (m.block id).isConnected = true ∧ (m.block id).size = blockSize

/-- A position that is neither installed nor waiting to be used again. -/
structure Fresh (m : Memory) (id : BlockId) : Prop where
  ne_zero : id ≠ 0
  lt : id < m.blocks.size
  notMem_free : id ∉ m.free
  unheld : ∀ p, m.index.plain.sparse p ≠ id

structure ArenaSafe (exact : Prop) (m : Memory) : Prop where
  coherent : m.index.Coherent
  size_refs : m.refs.size = m.blocks.size
  size_pos : 0 < m.blocks.size
  sentinel : m.block 0 = .unconnected
  usable : ∀ p, m.index.plain.sparse p ≠ 0 → m.Usable (m.index.plain.sparse p)
  free_nodup : m.free.Nodup
  free_ne_zero : ∀ id ∈ m.free, id ≠ 0
  free_lt : ∀ id ∈ m.free, id < m.blocks.size
  free_unheld : ∀ id ∈ m.free, ∀ p, m.index.plain.sparse p ≠ id
  refCount_zero : m.refCount 0 = 0
  holders_le : ∀ id, id ≠ 0 → (m.index.plain.holders id).card ≤ m.refCount id
  refCount_le : exact → ∀ id, id ≠ 0 → m.refCount id ≤ (m.index.plain.holders id).card

variable {m : Memory} {exact : Prop} {p : Page} {b : Block} {id : BlockId}

theorem Usable.lt (h : m.Usable id) : id < m.blocks.size := by
  by_contra hge
  have hnone : m.block id = .unconnected := by
    simp [block, Array.getD_eq_getD_getElem?, Array.getElem?_eq_none (not_lt.mp hge)]
  rw [Usable, hnone] at h
  exact absurd h.1 (by simp [Block.isConnected])

theorem getD_setIfInBounds {α : Type} (xs : Array α) (i : Nat) (x d : α) (j : Nat) :
    (xs.setIfInBounds i x).getD j d = if j = i ∧ i < xs.size then x else xs.getD j d := by
  simp only [Array.getD_eq_getD_getElem?, Array.getElem?_setIfInBounds]
  by_cases hij : j = i
  · subst hij
    by_cases hlt : j < xs.size <;> simp [hlt]
  · simp [hij, Ne.symm hij]

theorem getD_push {α : Type} (xs : Array α) (x d : α) (j : Nat) :
    (xs.push x).getD j d = if j = xs.size then x else xs.getD j d := by
  simp only [Array.getD_eq_getD_getElem?, Array.getElem?_push]
  split_ifs <;> rfl

theorem getD_modify (xs : Array Nat) (i j : Nat) :
    (xs.modify i (· + 1)).getD j 0 = xs.getD j 0 + if j = i ∧ i < xs.size then 1 else 0 := by
  simp only [Array.getD_eq_getD_getElem?, Array.getElem?_modify]
  by_cases hij : i = j
  · subst hij
    by_cases hlt : i < xs.size <;> simp [hlt]
  · simp [hij, Ne.symm hij]

/-! ## Changes that leave the arena in shape -/

/-- Installed pages, counts and free positions are the same, and so is what matters of the blocks:
whether they are connected and how large they are. -/
structure SameShape (m m' : Memory) : Prop where
  plain : m'.index.plain = m.index.plain
  masked : m'.index.masked = m.index.masked
  refs : m'.refs = m.refs
  free : m'.free = m.free
  size : m'.blocks.size = m.blocks.size
  isConnected : ∀ id, (m'.block id).isConnected = (m.block id).isConnected
  size_block : ∀ id, (m'.block id).size = (m.block id).size

theorem ArenaSafe.sameShape {m' : Memory} (h : m.ArenaSafe exact) (hs : m.SameShape m') :
    m'.ArenaSafe exact where
  coherent := by
    refine ⟨?_, ?_, ?_⟩
    · exact hs.plain ▸ h.coherent.plain
    · exact hs.masked ▸ h.coherent.masked
    · rw [hs.plain, hs.masked]
      exact h.coherent.sparse_masked
  size_refs := by rw [hs.refs, hs.size, h.size_refs]
  size_pos := hs.size ▸ h.size_pos
  sentinel := by
    apply Block.eq_unconnected
    rw [hs.isConnected, h.sentinel]
    rfl
  usable := by
    intro p hp
    rw [hs.plain] at hp ⊢
    rw [Usable, hs.isConnected, hs.size_block]
    exact h.usable p hp
  free_nodup := hs.free ▸ h.free_nodup
  free_ne_zero := by
    rw [hs.free]
    exact h.free_ne_zero
  free_lt := by
    rw [hs.free, hs.size]
    exact h.free_lt
  free_unheld := by
    rw [hs.free, hs.plain]
    exact h.free_unheld
  refCount_zero := by
    unfold refCount
    rw [hs.refs]
    exact h.refCount_zero
  holders_le := by
    rw [hs.plain]
    unfold refCount
    rw [hs.refs]
    exact h.holders_le
  refCount_le := by
    rw [hs.plain]
    unfold refCount
    rw [hs.refs]
    exact h.refCount_le

theorem sameShape_setBlock (m : Memory) (id : BlockId) {b : Block}
    (hconn : b.isConnected = (m.block id).isConnected) (hsize : b.size = (m.block id).size)
    (devices : RegionTable) :
    m.SameShape { m with blocks := m.blocks.setIfInBounds id b, devices := devices } where
  plain := rfl
  masked := rfl
  refs := rfl
  free := rfl
  size := Array.size_setIfInBounds
  isConnected := by
    intro i
    unfold block
    rw [getD_setIfInBounds]
    split_ifs with hi
    · rw [hconn, hi.1]
      rfl
    · rfl
  size_block := by
    intro i
    unfold block
    rw [getD_setIfInBounds]
    split_ifs with hi
    · rw [hsize, hi.1]
      rfl
    · rfl

theorem ArenaSafe.storePiece (h : m.ArenaSafe exact) (piece : Piece) :
    (m.storePiece piece).ArenaSafe exact := by
  have hset := h.sameShape (m.sameShape_setBlock (m.blockIdAt piece.addr)
    (Block.isConnected_write _ m.devices (offsetInPage piece.addr) piece.bytes)
    (Block.size_write _ m.devices (offsetInPage piece.addr) piece.bytes)
    ((m.block (m.blockIdAt piece.addr)).write m.devices (offsetInPage piece.addr) piece.bytes).2)
  obtain ⟨_, hpiece⟩ := m.storePiece_eq piece
  rw [hpiece]
  exact hset.sameShape ⟨rfl, rfl, rfl, rfl, rfl, fun _ => rfl, fun _ => rfl⟩

theorem ArenaSafe.clearBlock (h : m.ArenaSafe exact) (id : BlockId) :
    (m.clearBlock id).ArenaSafe exact :=
  h.sameShape (m.sameShape_setBlock id (Block.isConnected_clear _ m.devices)
    (Block.size_clear _ m.devices) _)

/-! ## Positions given out and given up -/

theorem alloc_nil (h : m.free = []) (b : Block) :
    m.alloc b = (m.blocks.size, { m with blocks := m.blocks.push b, refs := m.refs.push 0 }) := by
  unfold alloc
  rw [h]

theorem alloc_cons {rest : List BlockId} (h : m.free = id :: rest) (b : Block) :
    m.alloc b = (id, { m with blocks := m.blocks.setIfInBounds id b, free := rest }) := by
  unfold alloc
  rw [h]

theorem ArenaSafe.block_alloc (h : m.ArenaSafe exact) (b : Block) (i : BlockId) :
    (m.alloc b).2.block i = if i = (m.alloc b).1 then b else m.block i := by
  cases hfree : m.free with
  | nil =>
    rw [alloc_nil hfree]
    exact getD_push _ _ _ _
  | cons id rest =>
    have hlt : id < m.blocks.size := h.free_lt id (by simp [hfree])
    rw [alloc_cons hfree]
    unfold block
    dsimp only
    rw [getD_setIfInBounds]
    simp [hlt]

theorem refCount_alloc (m : Memory) (b : Block) (i : BlockId) :
    (m.alloc b).2.refCount i = m.refCount i := by
  cases hfree : m.free with
  | nil =>
    rw [alloc_nil hfree]
    unfold refCount
    rw [getD_push]
    split_ifs with hi
    · simp [hi]
    · rfl
  | cons id rest => rw [alloc_cons hfree]; rfl

/-- A position that is given out is installed nowhere, so it can take any block. -/
theorem ArenaSafe.fresh_alloc (h : m.ArenaSafe exact) (b : Block) :
    (m.alloc b).2.Fresh (m.alloc b).1 := by
  cases hfree : m.free with
  | nil =>
    rw [alloc_nil hfree]
    refine ⟨h.size_pos.ne', by simp, by simp [hfree], ?_⟩
    intro p hp
    have hne : m.index.plain.sparse p ≠ 0 := hp ▸ h.size_pos.ne'
    exact absurd (h.usable p hne).lt (by rw [hp]; exact lt_irrefl _)
  | cons id rest =>
    have hmem : id ∈ m.free := by simp [hfree]
    have hnodup := h.free_nodup
    rw [hfree, List.nodup_cons] at hnodup
    rw [alloc_cons hfree]
    exact ⟨h.free_ne_zero id hmem, by simpa using h.free_lt id hmem, hnodup.1,
      h.free_unheld id hmem⟩

theorem ArenaSafe.alloc (h : m.ArenaSafe exact) (b : Block) :
    (m.alloc b).2.ArenaSafe exact := by
  have hfresh := h.fresh_alloc b
  have hunheld : ∀ p, m.index.plain.sparse p ≠ (m.alloc b).1 := by
    simpa using hfresh.unheld
  have hsub : ∀ i ∈ (m.alloc b).2.free, i ∈ m.free := by
    intro i hi
    cases hfree : m.free with
    | nil =>
      rw [alloc_nil hfree, hfree] at hi
      exact hi
    | cons id rest =>
      rw [alloc_cons hfree] at hi
      exact List.mem_cons_of_mem _ hi
  have hsize : m.blocks.size ≤ (m.alloc b).2.blocks.size := by
    cases hfree : m.free with
    | nil => simp [alloc_nil hfree]
    | cons id rest => simp [alloc_cons hfree]
  refine ⟨?_, ?_, ?_, ?_, ?_, ?_, ?_, ?_, ?_, ?_, ?_, ?_⟩
  · simpa using h.coherent
  · cases hfree : m.free with
    | nil => simp [alloc_nil hfree, h.size_refs]
    | cons id rest => simp [alloc_cons hfree, h.size_refs]
  · exact h.size_pos.trans_le hsize
  · rw [h.block_alloc, if_neg hfresh.ne_zero.symm, h.sentinel]
  · intro p hp
    rw [index_alloc] at hp ⊢
    rw [Usable, h.block_alloc, if_neg (hunheld p)]
    exact h.usable p hp
  · cases hfree : m.free with
    | nil => simp [alloc_nil hfree, hfree]
    | cons id rest =>
      have hnodup := h.free_nodup
      rw [hfree, List.nodup_cons] at hnodup
      simpa [alloc_cons hfree] using hnodup.2
  · exact fun i hi => h.free_ne_zero i (hsub i hi)
  · exact fun i hi => (h.free_lt i (hsub i hi)).trans_le hsize
  · intro i hi p
    rw [index_alloc]
    exact h.free_unheld i (hsub i hi) p
  · rw [refCount_alloc, h.refCount_zero]
  · intro i hi
    rw [index_alloc, refCount_alloc]
    exact h.holders_le i hi
  · intro he i hi
    rw [index_alloc, refCount_alloc]
    exact h.refCount_le he i hi

theorem block_discard_eq (m : Memory) (id i : BlockId) :
    (m.discard id).block i = if i = id then .unconnected else m.block i := by
  unfold block discard
  dsimp only
  rw [getD_setIfInBounds]
  by_cases hi : i = id
  · by_cases hlt : id < m.blocks.size
    · simp [hi, hlt]
    · simp [hi, Array.getD_eq_getD_getElem?, Array.getElem?_eq_none (not_lt.mp hlt)]
  · simp [hi]

theorem ArenaSafe.discard (h : m.ArenaSafe exact) (hf : m.Fresh id) :
    (m.discard id).ArenaSafe exact := by
  have hblock : ∀ i, i ≠ id → (m.discard id).block i = m.block i := by
    intro i hi
    rw [block_discard_eq, if_neg hi]
  refine ⟨h.coherent, ?_, ?_, ?_, ?_, ?_, ?_, ?_, ?_, h.refCount_zero, h.holders_le,
    h.refCount_le⟩
  · simpa [Memory.discard] using h.size_refs
  · simpa [Memory.discard] using h.size_pos
  · rw [hblock 0 hf.ne_zero.symm, h.sentinel]
  · intro p hp
    have hne : (m.discard id).index.plain.sparse p ≠ id := hf.unheld p
    rw [Usable, hblock _ hne]
    exact h.usable p hp
  · exact List.nodup_cons.mpr ⟨hf.notMem_free, h.free_nodup⟩
  · exact List.forall_mem_cons.mpr ⟨hf.ne_zero, h.free_ne_zero⟩
  · simpa [Memory.discard] using ⟨hf.lt, h.free_lt⟩
  · exact List.forall_mem_cons.mpr ⟨hf.unheld, h.free_unheld⟩

end Memory
end Mainboard
