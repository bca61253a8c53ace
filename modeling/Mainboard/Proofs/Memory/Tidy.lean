import Mainboard.Proofs.Memory.OwnBlocks
import Mainboard.Proofs.Memory.Replacement

/-!
# Nothing is left behind in the arena

Without restores a block leaves the arena with the last page that shows it, on every path that takes
a page away from it: a page is disconnected, mapped anew or replaced. So the arena holds what the
pages show and nothing else, and what is done to each of its blocks in turn is done to what is
mapped. The counts have to be exact for this; a restore that counts a page twice would leave its
block behind for good.
-/
namespace Mainboard
namespace Memory

/-- The states that a bus reaches without restores if the blocks handed in satisfy `A` at the time.
-/
inductive ReachedWith (A : RegionTable → Block → Prop) (ramSize : UInt32) (regions : Array Region) :
    Memory → Prop
  | new : ReachedWith A ramSize regions (new ramSize regions)
  | step {m : Memory} (t : Transaction) : ReachedWith A ramSize regions m →
      (∀ input, t ≠ .load input) → t.Hands A m.devices → ReachedWith A ramSize regions (m.step t)

/-- The arena is safe with exact counts, its blocks are backed, and none of them is shown by no
page. -/
structure Tidy (m : Memory) : Prop where
  safe : m.ArenaSafe True
  backed : ∀ id, (m.block id).Backed m.devices
  unheld : ∀ id, (∀ p, m.index.plain.sparse p ≠ id) → m.block id = .unconnected

variable {A : RegionTable → Block → Prop} {P : Memory → Prop} {ramSize : UInt32}
    {regions : Array Region}
  {m m' : Memory} {p : Page} {b : Block} {old : BlockId} {had : Block → Prop}

/-! ## Runs -/

theorem ReachedWith.keeps (h : ReachedWith A ramSize regions m) (hs : Stable A P)
    (hmade : ∀ t b, b.Made t → A t b) (hnew : P (Memory.new ramSize regions)) : P m := by
  induction h with
  | new => exact hnew
  | step t _ hload hands ih =>
    exact hs.step hmade ih t hands fun input ht => absurd ht (hload input)

/-- Transactions that hand in no block but storage can be made in any order. -/
theorem reachedWith_run (ts : List Transaction)
    (hts : ∀ t ∈ ts, (∀ input, t ≠ .load input) ∧ ∀ table, t.Hands (fun _ b => b.OwnStorage) table)
    (h : ReachedWith (fun t b => b.Backed t) ramSize regions m) :
    ReachedWith (fun t b => b.Backed t) ramSize regions (m.run ts) := by
  induction ts generalizing m with
  | nil => exact h
  | cons t rest ih =>
    obtain ⟨hload, hands⟩ := hts t List.mem_cons_self
    exact ih (fun u hu => hts u (List.mem_cons_of_mem t hu))
      (h.step t hload ((hands _).imp fun _ hown => hown.backed _))

/-! ## Blocks without pages -/

theorem Tidy.sound (h : m.Tidy) : m.Sound fun _ => False :=
  ⟨h.safe, h.backed, fun _ hb => hb.elim⟩

theorem tidy_of_sound (h : m.Sound fun _ => False)
    (hunheld : ∀ id, (∀ p, m.index.plain.sparse p ≠ id) → m.block id = .unconnected) : m.Tidy :=
  ⟨h.safe, h.backed, hunheld⟩

theorem ArenaSafe.block_disconnect_last (h : m.ArenaSafe True) (hp : m.index.plain.sparse p ≠ 0)
    (hlast : ∀ q, q ≠ p → m.index.plain.sparse q ≠ m.index.plain.sparse p) :
    (m.disconnect p).block (m.index.plain.sparse p) = .unconnected := by
  have hholders : m.index.plain.holders (m.index.plain.sparse p) = {p} := by
    ext q
    rw [h.coherent.plain.mem_holders, Finset.mem_singleton]
    constructor
    · intro heq
      by_contra hne
      exact hlast q hne heq
    · rintro rfl
      rfl
  have hcount := h.refCount_le trivial _ hp
  rw [hholders, Finset.card_singleton] at hcount
  have hleft : m.refs.getD (m.index.plain.sparse p) 0 - 1 = 0 := Nat.sub_eq_zero_of_le hcount
  rw [disconnect_of_ne (by rwa [h.coherent.plain.lookup])]
  unfold Memory.release
  rw [if_neg hp]
  dsimp only [countDown]
  rw [if_pos hleft, block_discard_eq, if_pos rfl]

theorem Tidy.disconnect (h : m.Tidy) (p : Page) : (m.disconnect p).Tidy := by
  refine tidy_of_sound ((stable_sound _).disconnect p h.sound) fun id hid => ?_
  have hother : ∀ q, q ≠ p → m.index.plain.sparse q ≠ id := by
    intro q hq
    have hnow := hid q
    rwa [sparse_disconnect p h.safe.coherent, if_neg hq] at hnow
  have hnow : (m.disconnect p).block id = m.block id ∨
      (m.disconnect p).block id = .unconnected := by
    unfold Memory.disconnect
    split_ifs
    · exact Or.inl rfl
    · exact block_install _ p 0 id
  by_cases hp : m.index.plain.sparse p = id
  · subst hp
    by_cases hzero : m.index.plain.sparse p = 0
    · rw [hzero]
      exact (h.safe.disconnect p).sentinel
    · exact h.safe.block_disconnect_last hzero hother
  · have hgone : m.block id = .unconnected := by
      refine h.unheld id fun q => ?_
      by_cases hq : q = p
      · rwa [hq]
      · exact hother q hq
    rcases hnow with hsame | hnone
    · exact hsame.trans hgone
    · exact hnone

theorem Tidy.connect (h : m.Tidy) (hp : m.index.plain.sparse p = 0) (hb : b.isConnected = true)
    (hsize : b.size = blockSize) (hbacked : b.Backed m.devices) : (m.connect p b).2.Tidy := by
  refine tidy_of_sound ((stable_sound _).connect h.sound hp hb hsize hbacked) fun id hid => ?_
  have hnew : id ≠ (m.connect p b).1 := by
    have hhere := hid p
    rw [sparse_connect, if_pos rfl] at hhere
    exact hhere.symm
  rw [h.safe.block_connect ((h.safe.pageId_eq p).trans hp), if_neg hnew]
  by_cases hzero : id = 0
  · rw [hzero]
    exact h.safe.sentinel
  · refine h.unheld id fun q => ?_
    by_cases hq : q = p
    · rw [hq, hp]
      exact Ne.symm hzero
    · have hthere := hid q
      rwa [sparse_connect, if_neg hq] at hthere

/-- The new block takes over all pages of the old one, which is given up; if there are none, the new
one is. -/
theorem Tidy.replaceBlock (h : m.Tidy) (hb : b.isConnected = true) (hsize : b.size = blockSize)
    (hold : old ≠ 0) (hbacked : b.Backed m.devices) : (left (m.replaceBlock old b)).Tidy := by
  refine tidy_of_sound ((stable_sound _).replaceBlock h.sound hb hsize hold hbacked)
    fun id hid => ?_
  have hid : ∀ p,
      (if m.index.plain.sparse p = old then (m.alloc b).1 else m.index.plain.sparse p) ≠ id := by
    intro p
    have hslot := hid p
    rw [index_replaceBlock hb hsize hold] at hslot
    rwa [← PageTable.sparse_substitute _ hold]
  by_cases hheld : ∃ p, m.pageId p = old
  · obtain ⟨refs, hreplace⟩ := h.safe.replaceBlock_of_held hb hsize hold hheld
    obtain ⟨p, hp⟩ := hheld
    rw [h.safe.pageId_eq] at hp
    have hnew : id ≠ (m.alloc b).1 := by
      have hhere := hid p
      rw [if_pos hp] at hhere
      exact hhere.symm
    rw [hreplace]
    refine (h.safe.block_sweep old b refs old id).trans ?_
    rw [if_neg hnew]
    split_ifs with hio
    · rfl
    · refine h.unheld id fun q hq => ?_
      have hthere := hid q
      rw [hq, if_neg hio] at hthere
      exact hthere rfl
  · rw [h.safe.replaceBlock_of_unheld hb hsize hold fun p hp => hheld ⟨p, hp⟩]
    refine (h.safe.block_sweep old b _ _ id).trans ?_
    split_ifs with hnew
    · rfl
    · refine h.unheld id fun q hq => ?_
      have hqo : m.index.plain.sparse q ≠ old :=
        fun heq => hheld ⟨q, (h.safe.pageId_eq q).trans heq⟩
      have hthere := hid q
      rw [if_neg hqo] at hthere
      exact hthere hq

theorem Tidy.of_sameIndex (h : m.Tidy) (hsound : m'.Sound fun _ => False)
    (hindex : m'.index = m.index)
    (hblock : ∀ id, m.block id = .unconnected → m'.block id = .unconnected) : m'.Tidy := by
  refine tidy_of_sound hsound fun id hid => hblock id (h.unheld id ?_)
  rwa [hindex] at hid

theorem stable_tidy : Stable (fun t b => b.Backed t) Tidy where
  coherent h := h.safe.coherent
  frame h hsame := by
    refine tidy_of_sound ((stable_sound _).frame h.sound hsame) fun id hid => ?_
    rw [hsame.plain] at hid
    rw [block, hsame.blocks]
    exact h.unheld id hid
  register handle h :=
    h.of_sameIndex ((stable_sound _).register handle h.sound) rfl fun _ hid => hid
  connect h hp hb hsize hbacked := h.connect hp hb hsize hbacked
  disconnect p h := h.disconnect p
  replaceBlock h hb hsize hold hbacked := h.replaceBlock hb hsize hold hbacked
  storePiece := by
    intro m piece h
    refine h.of_sameIndex (h.sound.storePiece piece) (m.index_storePiece piece) fun id hid => ?_
    rw [block_storePiece]
    split_ifs with hi
    · rw [blockAt, ← hi, hid]
      rfl
    · exact hid
  clearBlock := by
    intro m id h
    refine h.of_sameIndex ((stable_sound _).clearBlock id h.sound) rfl fun i hi => ?_
    rw [block_clearBlock]
    split_ifs
    · rw [hi]
      rfl
    · exact hi

/-- A bus that hands in only backed blocks, and is never restored, is tidy at every time. -/
theorem ReachedWith.tidy (h : ReachedWith (fun t b => b.Backed t) ramSize regions m) : m.Tidy := by
  refine h.keeps stable_tidy (fun _ _ => Block.Made.backed) ?_
  have hnew := sound_iff_stocked.mpr (stocked_new Block.lasting_backed ramSize regions True)
  refine tidy_of_sound hnew fun id _ => ?_
  cases id <;> rfl

end Memory
end Mainboard
