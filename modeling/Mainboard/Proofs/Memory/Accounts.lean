import Mainboard.Proofs.Memory.MappedCount
import Mainboard.Proofs.Memory.RestoreFailure

/-!
# Accounts of the arena

Beside the index the bus keeps three accounts: how many pages are connected, how many pages hold
each block, and which positions are to be used again. Transactions other than restores keep them:
the count is exact, the counts of holders are exact, and a position without holders is on the stack.
A restore takes the three from fields of its data that are checked one by one. The accounts are
right afterwards exactly if the fields agree: no page is listed twice, each block is listed for some
page, and the count is the number of listed pages.
-/
namespace Mainboard
namespace Memory

variable {m m' : Memory} {exact : Prop} {p : Page} {b : Block} {id hole : BlockId}

/-- The three accounts are right. -/
structure Accounted (m : Memory) : Prop where
  mappedCount : m.mappedCount.toNat = m.connected.card
  refCount : ∀ id, id ≠ 0 → id < m.blocks.size → m.refCount id = (m.index.plain.holders id).card
  free : ∀ id, id ≠ 0 → id < m.blocks.size → m.refCount id = 0 → id ∈ m.free

/-! ## Accounts that transactions keep -/

/-- Positions that are not held wait to be used again, with one exception: the position `hole`,
which has been given out and is about to be installed. There is no exception if it is zero. -/
def Reclaimed (m : Memory) (hole : BlockId) : Prop :=
  ∀ id, id ≠ 0 → id ≠ hole → id < m.blocks.size → m.refCount id = 0 → id ∈ m.free

theorem Reclaimed.congr (h : m.Reclaimed hole) (hsize : m'.blocks.size = m.blocks.size)
    (hrefs : m'.refs = m.refs) (hfree : m'.free = m.free) : m'.Reclaimed hole := by
  unfold Reclaimed refCount
  rw [hsize, hrefs, hfree]
  exact h

theorem Reclaimed.alloc (h : m.Reclaimed 0) (b : Block) :
    (m.alloc b).2.Reclaimed (m.alloc b).1 := by
  intro id hid hhole hlt hcount
  rw [refCount_alloc] at hcount
  cases hfree : m.free with
  | nil =>
    rw [alloc_nil hfree] at hhole hlt ⊢
    simp only [Array.size_push] at hhole hlt
    have hle : id ≤ m.blocks.size := Nat.le_of_lt_succ hlt
    exact h id hid hid (lt_of_le_of_ne hle hhole) hcount
  | cons first rest =>
    rw [alloc_cons hfree] at hhole hlt ⊢
    simp only [Array.size_setIfInBounds] at hhole hlt
    have hmem := h id hid hid hlt hcount
    rw [hfree] at hmem
    exact (List.mem_cons.mp hmem).resolve_left hhole

theorem Reclaimed.discard (h : m.Reclaimed hole) : (m.discard hole).Reclaimed 0 := by
  intro id hid _ hlt hcount
  by_cases hhole : id = hole
  · exact hhole ▸ List.mem_cons_self
  · have hlt' : id < m.blocks.size := by simpa [Memory.discard] using hlt
    exact List.mem_cons_of_mem hole (h id hid hhole hlt' hcount)

theorem Reclaimed.recount (h : m.Reclaimed hole) {refs : Array Nat} {x : PageIndex}
    (hrefs : ∀ i, refs.getD i 0 = 0 → i ≠ hole ∧ m.refCount i = 0) :
    ({ m with index := x, refs := refs } : Memory).Reclaimed 0 := by
  intro id hid _ hlt hcount
  obtain ⟨hhole, hzero⟩ := hrefs id hcount
  exact h id hid hhole hlt hzero

theorem Reclaimed.release (h : m.Reclaimed 0) (hsize : m.refs.size = m.blocks.size)
    (hlt : id < m.blocks.size) : (m.release id).Reclaimed 0 := by
  unfold Memory.release
  by_cases hid : id = 0
  · rw [if_pos hid]
    exact h
  · rw [if_neg hid]
    let m₁ : Memory := { m with refs := m.refs.setIfInBounds id (m.refs.getD id 0 - 1) }
    have hrefs : ∀ i, m₁.refCount i = if i = id then m.refs.getD id 0 - 1 else m.refCount i := by
      intro i
      change (m.refs.setIfInBounds id _).getD i 0 = _
      rw [getD_setIfInBounds, hsize]
      simp [hlt, refCount]
    -- With one holder less, only the released position itself may be unheld and not on the stack.
    have hrest : m₁.Reclaimed id := by
      intro i hi hhole hlti hcount
      rw [hrefs, if_neg hhole] at hcount
      exact h i hi hi hlti hcount
    dsimp only
    split_ifs with hleft
    · exact hrest.discard
    · intro i hi _ hlti hcount
      by_cases hii : i = id
      · have hself := hrefs i
        rw [if_pos hii] at hself
        exact absurd (hself.symm.trans hcount) hleft
      · exact hrest i hi hii hlti hcount

/-- Safe, with exact counts, and nothing is lost. -/
structure Kept (m : Memory) : Prop where
  safe : m.ArenaSafe True
  counted : m.Counted
  reclaimed : m.Reclaimed 0

theorem Kept.accounted (h : m.Kept) : m.Accounted where
  mappedCount := h.counted.mappedCount
  refCount id hid _ := le_antisymm (h.safe.refCount_le trivial id hid) (h.safe.holders_le id hid)
  free id hid hlt hcount := h.reclaimed id hid hid hlt hcount

theorem Reclaimed.connect (h : m.Reclaimed 0) (hsafe : m.ArenaSafe exact)
    (hp : m.index.plain.sparse p = 0) (b : Block) : (m.connect p b).2.Reclaimed 0 := by
  have hfresh := hsafe.fresh_alloc b
  have hlt : (m.alloc b).1 < (m.alloc b).2.refs.size := (hsafe.alloc b).size_refs ▸ hfresh.lt
  have hfree : (m.alloc b).2.index.plain.sparse p = 0 := by rwa [index_alloc]
  have hrefs : ∀ i, ((m.alloc b).2.refs.modify (m.alloc b).1 (· + 1)).getD i 0 = 0 →
      i ≠ (m.alloc b).1 ∧ (m.alloc b).2.refCount i = 0 := by
    intro i hi
    rw [getD_modify] at hi
    refine ⟨?_, (Nat.add_eq_zero_iff.mp hi).1⟩
    rintro rfl
    simp [hlt] at hi
  have hinstall := (h.alloc b).recount (x := (m.alloc b).2.index.set p (m.alloc b).1) hrefs
  unfold Memory.connect
  dsimp only
  rw [install_of_free hfree hfresh.ne_zero]
  exact hinstall.congr rfl rfl rfl

theorem Reclaimed.disconnect (h : m.Reclaimed 0) (hsafe : m.ArenaSafe exact) (p : Page) :
    (m.disconnect p).Reclaimed 0 := by
  by_cases hp : m.index.plain.lookup p = 0
  · unfold Memory.disconnect
    rwa [if_pos hp]
  · rw [disconnect_of_ne hp]
    exact Reclaimed.release (m := { m.countDown with index := m.index.set p 0 }) h hsafe.size_refs
      (hsafe.sparse_lt p)

theorem Reclaimed.replaceBlock (h : m.Reclaimed 0) (hsafe : m.ArenaSafe exact) {old : BlockId}
    (hb : b.isConnected = true) (hsize : b.size = blockSize) (hold : old ≠ 0) :
    (left (m.replaceBlock old b)).Reclaimed 0 := by
  have hn := hsafe.alloc b
  rw [left_replaceBlock hb hsize hold]
  dsimp only
  split_ifs with hheld
  · exact Reclaimed.discard (m := { (m.alloc b).2 with
      index := (m.alloc b).2.index.substitute old (m.alloc b).1 }) (h.alloc b)
  · have hcount := hheld
    rw [hn.coherent.plain.count_eq_card hold] at hcount
    obtain ⟨p, hp⟩ := Finset.card_ne_zero.mp hcount
    have hlt : old < (m.alloc b).2.blocks.size := by
      rw [← hn.coherent.plain.mem_holders.mp hp]
      exact hn.sparse_lt p
    have hfresh : (m.alloc b).1 < (m.alloc b).2.refs.size :=
      hn.size_refs ▸ (hsafe.fresh_alloc b).lt
    -- The new position takes over the holders of the old one, which keeps one of its own until it
    -- is released like any other.
    refine Reclaimed.release (Reclaimed.recount (h.alloc b) fun i hi => ?_) ?_ hlt
    · rw [getD_setIfInBounds, getD_setIfInBounds, Array.size_setIfInBounds, hn.size_refs] at hi
      by_cases hio : i = old
      · simp [hio, hlt] at hi
      · rw [if_neg fun hboth => hio hboth.1, ← hn.size_refs] at hi
        by_cases hii : i = (m.alloc b).1
        · rw [if_pos ⟨hii, hfresh⟩] at hi
          exact absurd hi hheld
        · rw [if_neg fun hboth => hii hboth.1] at hi
          exact ⟨hii, hi⟩
    · dsimp only
      rw [Array.size_setIfInBounds, Array.size_setIfInBounds, hn.size_refs]

theorem stable_kept : Stable (fun _ _ => True) Kept where
  coherent h := h.safe.coherent
  frame h hsame := ⟨(stable_arenaSafe (fun _ _ => True) True).frame h.safe hsame,
    stable_counted.frame h.counted hsame,
    h.reclaimed.congr (congrArg Array.size hsame.blocks) hsame.refs hsame.free⟩
  register handle h := ⟨(stable_arenaSafe (fun _ _ => True) True).register handle h.safe,
    stable_counted.register handle h.counted, h.reclaimed⟩
  connect h hp hb hsize hA :=
    ⟨h.safe.connect hp hb hsize, stable_counted.connect h.counted hp hb hsize hA,
    h.reclaimed.connect h.safe hp _⟩
  disconnect p h := ⟨h.safe.disconnect p, h.counted.disconnect p, h.reclaimed.disconnect h.safe p⟩
  replaceBlock h hb hsize hold hA := ⟨h.safe.replaceBlock hb hsize hold,
    stable_counted.replaceBlock h.counted hb hsize hold hA,
    h.reclaimed.replaceBlock h.safe hb hsize hold⟩
  storePiece := by
    intro m piece h
    refine ⟨h.safe.storePiece piece, stable_counted.storePiece piece h.counted, ?_⟩
    obtain ⟨notices, hpiece⟩ := m.storePiece_eq piece
    rw [hpiece]
    exact h.reclaimed.congr Array.size_setIfInBounds rfl rfl
  clearBlock id h := ⟨h.safe.clearBlock id, stable_counted.clearBlock id h.counted,
    h.reclaimed.congr Array.size_setIfInBounds rfl rfl⟩

theorem accounted_run (ramSize : UInt32) (regions : Array Region) (ts : List Transaction)
    (hload : ∀ input, .load input ∉ ts) : ((new ramSize regions).run ts).Accounted := by
  have hnew : (new ramSize regions).Kept := by
    refine ⟨arenaSafe_new ramSize regions True, counted_new ramSize regions, ?_⟩
    intro id hid _ hlt
    exact absurd (Nat.lt_one_iff.mp hlt) hid
  exact (stable_kept.run ts (fun input hmem => absurd hmem (hload input)) hnew).accounted

/-! ## Accounts after a restore -/

/-- What is read for a restore agrees: no page is listed twice, each block is listed for some page,
and as many pages are counted as are listed. -/
structure Staged.Agrees (s : Staged) (count : UInt32) : Prop where
  nodup : (s.entries.map Prod.fst).Nodup
  named : ∀ k < s.blocks.length, k + 1 ∈ s.entries.map Prod.snd
  count : count.toNat = s.entries.length

variable {s : Staged}

theorem connected_adopt (m : Memory) (hs : s.WellFormed) :
    (m.adopt s).connected = (s.entries.map Prod.fst).toFinset := by
  ext p
  rw [mem_connected, List.mem_toFinset, pageId, lookup_adopt]
  cases hlookup : s.entries.reverse.lookup p with
  | none =>
    have hnone : p ∉ s.entries.map Prod.fst := by
      intro hp
      obtain ⟨e, he, rfl⟩ := List.mem_map.mp hp
      have hne := List.lookup_eq_none_iff.mp hlookup e (List.mem_reverse.mpr he)
      simp at hne
    simp [hnone]
  | some id =>
    have hmem := List.mem_reverse.mp (PageIndex.mem_of_lookup hlookup)
    have hid : id ≠ 0 := hs.entry_ne _ hmem
    simp only [Option.getD_some, ne_eq, hid, not_false_eq_true, true_iff]
    exact List.mem_map_of_mem hmem

theorem refCount_adopt (m : Memory) (hid : id ≤ s.blocks.length) :
    (m.adopt s).refCount id = s.entries.countP (·.2 == id) := by
  have hlt : id < s.blocks.length + 1 := Nat.lt_succ_of_le hid
  simp only [refCount, adopt, countEntries]
  rw [getD_countEntries _ _ (by simpa using hlt)]
  simp [Array.getD_eq_getD_getElem?, hlt]

theorem sum_card_holders_adopt (m : Memory) (hs : s.WellFormed) :
    ∑ id ∈ Finset.Icc 1 s.blocks.length, ((m.adopt s).index.plain.holders id).card =
      (m.adopt s).connected.card := by
  have hmaps : ((m.adopt s).connected : Set Page).MapsTo (m.adopt s).pageId
      (Finset.Icc 1 s.blocks.length) := by
    intro p hp
    have hne : (m.adopt s).pageId p ≠ 0 := mem_connected.mp hp
    rw [(ArenaSafe.adopt m hs).pageId_eq] at hne ⊢
    have hle := hs.entry_le _ (PageIndex.mem_of_sparse_ofEntries hne)
    exact Finset.mem_coe.mpr (Finset.mem_Icc.mpr ⟨Nat.one_le_iff_ne_zero.mpr hne, hle⟩)
  rw [Finset.card_eq_sum_card_fiberwise hmaps]
  refine Finset.sum_congr rfl fun id hid => congrArg Finset.card ?_
  have hne : id ≠ 0 := Nat.one_le_iff_ne_zero.mp (Finset.mem_Icc.mp hid).1
  ext p
  rw [Finset.mem_filter, mem_connected, (ArenaSafe.adopt m hs).coherent.plain.mem_holders,
    ← (ArenaSafe.adopt m hs).pageId_eq]
  constructor
  · rintro rfl
    exact ⟨hne, rfl⟩
  · exact And.right

theorem sum_refCount_adopt (m : Memory) (hs : s.WellFormed) :
    ∑ id ∈ Finset.Icc 1 s.blocks.length, (m.adopt s).refCount id = s.entries.length := by
  have hmem :
      ∀ id ∈ (s.entries.map Prod.snd : Multiset BlockId), id ∈ Finset.Icc 1 s.blocks.length := by
    intro id hid
    obtain ⟨e, he, rfl⟩ := List.mem_map.mp (Multiset.mem_coe.mp hid)
    exact Finset.mem_Icc.mpr ⟨Nat.one_le_iff_ne_zero.mpr (hs.entry_ne e he), hs.entry_le e he⟩
  have hsum := Multiset.sum_count_eq_card hmem
  rw [Multiset.coe_card, List.length_map] at hsum
  rw [← hsum]
  refine Finset.sum_congr rfl fun id hid => ?_
  rw [refCount_adopt m (Finset.mem_Icc.mp hid).2, Multiset.coe_count, List.count, List.countP_map]
  rfl

/-- The counts of holders are exact if no page is listed twice, and only then: both count what the
other counts, but the second entry of a page takes its slot away from the first one. -/
theorem refCount_adopt_exact_iff (m : Memory) (hs : s.WellFormed) :
    (∀ id ∈ Finset.Icc 1 s.blocks.length,
      ((m.adopt s).index.plain.holders id).card = (m.adopt s).refCount id) ↔
      (s.entries.map Prod.fst).Nodup := by
  have hle : ∀ id ∈ Finset.Icc 1 s.blocks.length,
      ((m.adopt s).index.plain.holders id).card ≤ (m.adopt s).refCount id := by
    intro id hid
    exact (ArenaSafe.adopt m hs).holders_le id (Nat.one_le_iff_ne_zero.mp (Finset.mem_Icc.mp hid).1)
  have hcard : (s.entries.map Prod.fst).toFinset.card = s.entries.length ↔
      (s.entries.map Prod.fst).Nodup := by
    have hiff :=
      Multiset.toFinset_card_eq_card_iff_nodup (m := (s.entries.map Prod.fst : Multiset Page))
    rwa [Multiset.coe_card, List.length_map, Multiset.coe_nodup] at hiff
  rw [← Finset.sum_eq_sum_iff_of_le hle, sum_card_holders_adopt m hs, sum_refCount_adopt m hs,
    connected_adopt m hs, hcard]

theorem accounted_adopt_iff (m : Memory) (hs : s.WellFormed) (count : UInt32)
    (paging flush : Bool) :
    ({ m.adopt s with mappedCount := count, pagingActive := paging, tlbFlush := flush } :
      Memory).Accounted ↔ s.Agrees count := by
  have hsize : (m.adopt s).blocks.size = s.blocks.length + 1 := rfl
  have hrange : ∀ id, id ∈ Finset.Icc 1 s.blocks.length ↔
      id ≠ 0 ∧ id < (m.adopt s).blocks.size := by
    intro id
    rw [Finset.mem_Icc, hsize, Nat.one_le_iff_ne_zero, Nat.lt_succ_iff]
  have hcard : (s.entries.map Prod.fst).Nodup → (m.adopt s).connected.card = s.entries.length := by
    intro hnodup
    rw [connected_adopt m hs, List.toFinset_card_of_nodup hnodup, List.length_map]
  constructor
  · rintro ⟨hcount, hrefs, hfree⟩
    have hnodup : (s.entries.map Prod.fst).Nodup := by
      refine (refCount_adopt_exact_iff m hs).mp fun id hid => ?_
      obtain ⟨hne, hlt⟩ := (hrange id).mp hid
      exact (hrefs id hne hlt).symm
    refine ⟨hnodup, fun k hk => ?_, hcount.trans (hcard hnodup)⟩
    by_contra hnot
    have hzero : (m.adopt s).refCount (k + 1) = 0 := by
      rw [refCount_adopt m hk, List.countP_eq_zero]
      intro e he
      have hne : e.2 ≠ k + 1 := fun heq => hnot (heq ▸ List.mem_map_of_mem he)
      simpa using hne
    exact absurd (hfree (k + 1) (Nat.succ_ne_zero k) (Nat.succ_lt_succ hk) hzero) List.not_mem_nil
  · rintro ⟨hnodup, hnamed, hcount⟩
    refine ⟨hcount.trans (hcard hnodup).symm, fun id hne hlt => ?_, fun id hne hlt hzero => ?_⟩
    · exact ((refCount_adopt_exact_iff m hs).mpr hnodup id ((hrange id).mpr ⟨hne, hlt⟩)).symm
    · obtain ⟨k, rfl⟩ := Nat.exists_eq_succ_of_ne_zero hne
      have hk : k < s.blocks.length := Nat.lt_of_succ_lt_succ hlt
      obtain ⟨e, he, heq⟩ := List.mem_map.mp (hnamed k hk)
      have hnone : s.entries.countP (·.2 == k + 1) = 0 := (refCount_adopt m hk).symm.trans hzero
      have hne := List.countP_eq_zero.mp hnone e he
      rw [heq] at hne
      simp at hne

theorem load_eq_ok {input : Bytes} (h : m.load input = .ok () m') : ∃ c s count paging flush,
    Container.parseFor input deviceId deviceVersion = .ok c ∧ m.stage c = .ok s ∧
      c.u32 Tag.mappedCount = .ok count ∧ m' = { m.adopt s with
        mappedCount := count.getD 0, pagingActive := paging, tlbFlush := flush } := by
  unfold load at h
  split at h
  · cases h
  · rename_i c hparse
    split at h
    · cases h
    · rename_i s hstage
      unfold adoptFlags at h
      split at h
      · cases h
      · rename_i count hcount
        dsimp only at h
        split at h
        · cases h
        · split at h
          · cases h
          · cases h
            exact ⟨c, s, count, _, _, hparse, hstage, hcount, rfl⟩

/-- After a restore that is accepted the accounts are right exactly if what was read agrees: no page
is listed twice, each block is listed for some page, and the count, zero if it is absent, is the
number of listed pages. -/
theorem accepted_load_accounted_iff {input : Bytes} (h : m.load input = .ok () m') : ∃ c s count,
    Container.parseFor input deviceId deviceVersion = .ok c ∧ m.stage c = .ok s ∧
      c.u32 Tag.mappedCount = .ok count ∧ (m'.Accounted ↔ s.Agrees (count.getD 0)) := by
  obtain ⟨c, s, count, paging, flush, hparse, hstage, hcount, rfl⟩ := load_eq_ok h
  exact ⟨c, s, count, hparse, hstage, hcount, accounted_adopt_iff m (stage_wellFormed hstage) _ _ _⟩

/-- A snapshot of one code page without storage, which counts one page and lists the given ones. -/
def codePageSnapshot (pages : List Page) : Bytes :=
  (Container.empty deviceId deviceVersion
    |>.set Tag.mappedCount (Encode.u32 1)
    |>.set Tag.blocks (encodeBlocks [.lazyCode])
    |>.set Tag.index (encodeEntries (pages.map fun p => (p, 0)))).encode

/-- A page that is listed once and one that is listed twice are both accepted. -/
theorem load_codePageSnapshot (m : Memory) {pages : List Page} (h : pages = [5] ∨ pages = [5, 5]) :
    m.load (codePageSnapshot pages) = .ok ()
      { m.adopt ⟨m.ramSize, false, [.lazyCode], pages.map fun p => (p, 1)⟩ with
        mappedCount := 1, pagingActive := false, tlbFlush := false } := by
  have hparse : Container.parseFor (codePageSnapshot pages) deviceId deviceVersion =
      .ok ⟨⟨1, 0⟩, deviceId, ⟨1, 0⟩, [(3, [1, 0, 0, 0]), (6, encodeBlocks [.lazyCode]),
        (7, encodeEntries (pages.map fun p => (p, 0)))]⟩ := by
    rcases h with rfl | rfl <;> decide +kernel
  unfold load
  rw [hparse]
  rcases h with rfl | rfl <;> rfl

theorem wellFormed_codePage (ramSize : UInt32) (pages : List Page) :
    Staged.WellFormed ⟨ramSize, false, [.lazyCode], pages.map fun p => (p, 1)⟩ where
  connected b hb := by
    rw [List.mem_singleton.mp hb]
    rfl
  size b hb := by
    rw [List.mem_singleton.mp hb]
    rfl
  entry_ne e he := by
    obtain ⟨p, -, rfl⟩ := List.mem_map.mp he
    exact Nat.one_ne_zero
  entry_le e he := by
    obtain ⟨p, -, rfl⟩ := List.mem_map.mp he
    exact le_rfl

/-- With page 5 listed once the accounts are right. -/
theorem accepted_load_accounted : ∃ m', (new 0 #[]).load (codePageSnapshot [5]) = .ok () m' ∧
    m'.Accounted ∧ ∃ c s count,
      Container.parseFor (codePageSnapshot [5]) deviceId deviceVersion = .ok c ∧
        (new 0 #[]).stage c = .ok s ∧ c.u32 Tag.mappedCount = .ok count ∧
        (m'.Accounted ↔ s.Agrees (count.getD 0)) := by
  have hload := load_codePageSnapshot (new 0 #[]) (Or.inl rfl)
  refine ⟨_, hload, ?_, accepted_load_accounted_iff hload⟩
  refine (accounted_adopt_iff _ (wellFormed_codePage _ _) _ _ _).mpr ⟨by decide, ?_, rfl⟩
  intro k hk
  rw [Nat.lt_one_iff.mp hk]
  exact List.mem_singleton_self 1

/-- With page 5 listed twice its block is counted for two pages, but only one page holds it. -/
theorem accepted_load_miscounts : ¬ ∀ (ramSize : UInt32) (regions : Array Region)
    (ts : List Transaction) (input : Bytes) (m' : Memory),
    ((new ramSize regions).run ts).load input = .ok () m' → m'.Accounted := by
  intro h
  have haccounted := h 0 #[] [] _ _ (load_codePageSnapshot (new 0 #[]) (Or.inr rfl))
  have hagrees := (accounted_adopt_iff _ (wellFormed_codePage _ _) _ _ _).mp haccounted
  exact absurd hagrees.nodup (by decide)

end Memory
end Mainboard
