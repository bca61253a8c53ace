import Mainboard.Proofs.Memory.Arena

/-!
# Safety of the block arena over whole runs

Connecting, disconnecting and substituting keep the arena safe, with exact counts as well. A restore
establishes safety from scratch, because its data has been checked, but not the exactness of counts.
-/
namespace Mainboard
namespace Memory

variable {m : Memory} {exact : Prop} {p : Page} {b : Block} {id : BlockId}

theorem ArenaSafe.weaken (h : m.ArenaSafe exact) : m.ArenaSafe False :=
  { h with refCount_le := False.elim }

/-- Pages go over to other blocks, with counts to match. What a page gets is nothing, what it had
before, or a block that is fit for it and not given up. -/
theorem ArenaSafe.reassign (h : m.ArenaSafe False) {x : PageIndex} {refs : Array Nat}
    (hx : x.Coherent) (hsize : refs.size = m.refs.size)
    (hsparse : ∀ p, x.plain.sparse p = 0 ∨ x.plain.sparse p = m.index.plain.sparse p ∨
      m.Usable (x.plain.sparse p) ∧ x.plain.sparse p ∉ m.free)
    (hzero : refs.getD 0 0 = m.refCount 0)
    (hle : ∀ i, i ≠ 0 → (x.plain.holders i).card ≤ refs.getD i 0)
    (hge : exact → ∀ i, i ≠ 0 → refs.getD i 0 ≤ (x.plain.holders i).card) :
    ({ m with index := x, refs := refs } : Memory).ArenaSafe exact := by
  refine ⟨hx, hsize.trans h.size_refs, h.size_pos, h.sentinel, ?_, h.free_nodup, h.free_ne_zero,
    h.free_lt, ?_, hzero.trans h.refCount_zero, hle, hge⟩
  · intro p hp
    rcases hsparse p with hnone | hsame | ⟨husable, -⟩
    · exact absurd hnone hp
    · dsimp only at hp ⊢
      rw [hsame] at hp ⊢
      exact h.usable p hp
    · exact husable
  · rintro i hi p rfl
    rcases hsparse p with hnone | hsame | ⟨-, hfree⟩
    · exact h.free_ne_zero _ hi hnone
    · exact h.free_unheld _ hi p hsame.symm
    · exact hfree hi

/-! ## Connecting and disconnecting a page -/

theorem install_of_free (hp : m.index.plain.sparse p = 0) (hid : id ≠ 0) :
    m.install p id =
      { m with refs := m.refs.modify id (· + 1), index := m.index.set p id } := by
  unfold install
  simp [hid, hp, release]

theorem ArenaSafe.install (h : m.ArenaSafe exact) (hf : m.Fresh id) (hu : m.Usable id)
    (hp : m.index.plain.sparse p = 0) : (m.install p id).ArenaSafe exact := by
  rw [install_of_free hp hf.ne_zero]
  have hsparse : ∀ q, (m.index.set p id).plain.sparse q =
      if q = p then id else m.index.plain.sparse q :=
    fun q => PageTable.sparse_store _ p q id
  have hlt : id < m.refs.size := h.size_refs ▸ hf.lt
  have hcard : ∀ i, i ≠ 0 → ((m.index.set p id).plain.holders i).card =
      (m.index.plain.holders i).card + if i = id then 1 else 0 :=
    fun i hi => h.coherent.plain.card_holders_connect hp id hi
  have hcount : ∀ i, (m.refs.modify id (· + 1)).getD i 0 =
      m.refCount i + if i = id then 1 else 0 := by
    intro i
    rw [getD_modify]
    simp [refCount, hlt]
  refine h.weaken.reassign (h.coherent.set p id) Array.size_modify ?_ ?_ ?_ ?_
  · intro q
    rw [hsparse]
    split_ifs
    · exact Or.inr (Or.inr ⟨hu, hf.notMem_free⟩)
    · exact Or.inr (Or.inl rfl)
  · rw [hcount, if_neg hf.ne_zero.symm, Nat.add_zero]
  · intro i hi
    rw [hcard i hi, hcount]
    exact Nat.add_le_add_right (h.holders_le i hi) _
  · intro he i hi
    rw [hcard i hi, hcount]
    exact Nat.add_le_add_right (h.refCount_le he i hi) _

theorem ArenaSafe.connect (h : m.ArenaSafe exact) (hp : m.index.plain.sparse p = 0)
    (hb : b.isConnected = true) (hsize : b.size = blockSize) :
    (m.connect p b).2.ArenaSafe exact := by
  have hblock : (m.alloc b).2.block (m.alloc b).1 = b := by
    rw [h.block_alloc, if_pos rfl]
  have husable : (m.alloc b).2.Usable (m.alloc b).1 := by
    rw [Usable, hblock]
    exact ⟨hb, hsize⟩
  have hinstall := (h.alloc b).install (h.fresh_alloc b) husable (by simpa using hp)
  exact hinstall.sameShape ⟨rfl, rfl, rfl, rfl, rfl, fun _ => rfl, fun _ => rfl⟩

/-- A position whose count is used up is held by no page, so it can be given up. The counts are
those before the release: the released block is counted once more than it is held. -/
theorem ArenaSafe.release (h : m.ArenaSafe False) (hid : id ≠ 0) (hlt : id < m.blocks.size)
    (hfree : id ∉ m.free) (hheld : (m.index.plain.holders id).card ≤ m.refCount id - 1)
    (hcount : exact → ∀ i, i ≠ 0 →
      m.refCount i - (if i = id then 1 else 0) ≤ (m.index.plain.holders i).card) :
    (m.release id).ArenaSafe exact := by
  let m₁ : Memory := { m with refs := m.refs.setIfInBounds id (m.refCount id - 1) }
  have hrefs : ∀ i, m₁.refCount i = m.refCount i - if i = id then 1 else 0 := by
    intro i
    change (m.refs.setIfInBounds id (m.refCount id - 1)).getD i 0 = _
    rw [getD_setIfInBounds, h.size_refs]
    by_cases hi : i = id
    · simp [hi, hlt]
    · simp [hi, refCount]
  have hsafe : m₁.ArenaSafe exact := by
    refine h.reassign h.coherent Array.size_setIfInBounds (fun _ => Or.inr (Or.inl rfl)) ?_ ?_ ?_
    · refine (hrefs 0).trans ?_
      rw [if_neg hid.symm, Nat.sub_zero]
    · intro i hi
      refine le_of_le_of_eq ?_ (hrefs i).symm
      split_ifs with hii
      · rw [hii]
        exact hheld
      · exact h.holders_le i hi
    · intro he i hi
      exact (hrefs i).trans_le (hcount he i hi)
  have hrelease : m.release id = if m.refCount id - 1 = 0 then m₁.discard id else m₁ := by
    unfold Memory.release
    rw [if_neg hid]
    rfl
  rw [hrelease]
  split_ifs with hleft
  · have hempty : m.index.plain.holders id = ∅ :=
      Finset.card_eq_zero.mp (Nat.le_zero.mp (hleft ▸ hheld))
    exact hsafe.discard ⟨hid, hlt, hfree, h.coherent.plain.holders_eq_empty.mp hempty⟩
  · exact hsafe

theorem disconnect_of_ne (hp : m.index.plain.lookup p ≠ 0) :
    m.disconnect p =
      ({ m.countDown with index := m.index.set p 0 }).release (m.index.plain.sparse p) := by
  unfold disconnect
  rw [if_neg hp]
  rfl

theorem ArenaSafe.disconnect (h : m.ArenaSafe exact) (p : Page) :
    (m.disconnect p).ArenaSafe exact := by
  by_cases hlookup : m.index.plain.lookup p = 0
  · unfold Memory.disconnect
    rw [if_pos hlookup]
    exact h
  · rw [disconnect_of_ne hlookup]
    have hp : m.index.plain.sparse p ≠ 0 := h.coherent.plain.lookup p ▸ hlookup
    have hused := h.usable p hp
    have hcard : ∀ i, i ≠ 0 → ((m.index.set p 0).plain.holders i).card =
        (m.index.plain.holders i).card - if i = m.index.plain.sparse p then 1 else 0 :=
      fun i hi => h.coherent.plain.card_holders_disconnect p hi
    have hsparse : ∀ q, (m.index.set p 0).plain.sparse q =
        if q = p then 0 else m.index.plain.sparse q :=
      fun q => PageTable.sparse_store _ p q 0
    have hdown : m.countDown.ArenaSafe exact :=
      h.sameShape ⟨rfl, rfl, rfl, rfl, rfl, fun _ => rfl, fun _ => rfl⟩
    have hsafe : ({ m.countDown with index := m.index.set p 0 } : Memory).ArenaSafe False := by
      refine hdown.weaken.reassign (h.coherent.set p 0) rfl ?_ rfl ?_ False.elim
      · intro q
        rw [hsparse]
        split_ifs
        · exact Or.inl rfl
        · exact Or.inr (Or.inl rfl)
      · intro i hi
        rw [hcard i hi]
        exact (Nat.sub_le _ _).trans (h.holders_le i hi)
    refine hsafe.release hp hused.lt (fun hmem => h.free_unheld _ hmem p rfl) ?_ ?_
    · dsimp only
      rw [hcard _ hp, if_pos rfl]
      exact Nat.sub_le_sub_right (h.holders_le _ hp) 1
    · intro he i hi
      dsimp only
      rw [hcard i hi]
      exact Nat.sub_le_sub_right (h.refCount_le he i hi) _

/-! ## Substituting a block -/

/-- Only the answers of the plain groups matter, not how the tables are laid out. -/
theorem ArenaSafe.reindex (h : m.ArenaSafe exact) {x : PageIndex} (hx : x.Coherent)
    (hsame : ∀ p, x.plain.sparse p = m.index.plain.sparse p) :
    ({ m with index := x } : Memory).ArenaSafe exact := by
  have hholders : x.plain.holders = m.index.plain.holders := by
    funext i
    ext p
    rw [hx.plain.mem_holders, h.coherent.plain.mem_holders, hsame]
  refine h.weaken.reassign hx rfl (fun p => Or.inr (Or.inl (hsame p))) rfl ?_ ?_
  · rw [hholders]
    exact h.holders_le
  · rw [hholders]
    exact h.refCount_le

/-- The pages of one block go over to a fresh one, together with the recorded count. -/
theorem ArenaSafe.substitute (h : m.ArenaSafe exact) (hf : m.Fresh id) (hu : m.Usable id)
    {old : BlockId} (hold : old ≠ 0) (hheld : m.index.plain.count old ≠ 0) :
    (({ m with
        index := m.index.substitute old id
        refs := (m.refs.setIfInBounds id (m.index.plain.count old)).setIfInBounds old 1 } :
      Memory).release old).ArenaSafe exact := by
  rw [h.coherent.plain.count_eq_card hold] at hheld ⊢
  obtain ⟨p, hp⟩ := Finset.card_ne_zero.mp hheld
  rw [h.coherent.plain.mem_holders] at hp
  have hne : id ≠ old := fun heq => hf.unheld p (hp.trans heq.symm)
  have hlt : old < m.blocks.size := (hp ▸ h.usable p (hp ▸ hold)).lt
  have hholders : ∀ i, (m.index.substitute old id).plain.holders i =
      if i = id then m.index.plain.holders old
      else if i = old then ∅ else m.index.plain.holders i :=
    h.coherent.plain.holders_substitute hold hne hf.unheld
  have hsparse : ∀ q, (m.index.substitute old id).plain.sparse q =
      if m.index.plain.sparse q = old then id else m.index.plain.sparse q :=
    fun q => PageTable.sparse_substitute _ hold id q
  generalize hrefs : (m.refs.setIfInBounds id (m.index.plain.holders old).card).setIfInBounds
    old 1 = refs
  have hcount : ∀ i, refs.getD i 0 =
      if i = id then (m.index.plain.holders old).card
      else if i = old then 1 else m.refCount i := by
    intro i
    rw [← hrefs, getD_setIfInBounds, getD_setIfInBounds, Array.size_setIfInBounds, h.size_refs]
    by_cases hi : i = id
    · simp [hi, hne, hf.lt]
    · by_cases hio : i = old
      · simp [hio, hne.symm, hlt]
      · simp [hi, hio, refCount]
  -- the count of the old block is one too high until its release, so only bounds hold here
  have hsafe : ({ m with index := m.index.substitute old id, refs := refs } :
      Memory).ArenaSafe False := by
    refine h.weaken.reassign (h.coherent.substitute hold id) ?_ ?_ ?_ ?_ False.elim
    · rw [← hrefs, Array.size_setIfInBounds, Array.size_setIfInBounds]
    · intro q
      rw [hsparse]
      split_ifs
      · exact Or.inr (Or.inr ⟨hu, hf.notMem_free⟩)
      · exact Or.inr (Or.inl rfl)
    · rw [hcount, if_neg hf.ne_zero.symm, if_neg hold.symm]
    · intro i hi
      rw [hholders, hcount]
      split_ifs
      · exact le_rfl
      · simp
      · exact h.holders_le i hi
  refine hsafe.release hold hlt (fun hmem => h.free_unheld _ hmem p hp) ?_ ?_
  · dsimp only [refCount]
    rw [hholders, hcount]
    simp [hne.symm]
  · intro he i hi
    dsimp only [refCount]
    rw [hholders, hcount]
    by_cases hi₁ : i = id
    · simp [hi₁, hne]
    · by_cases hi₂ : i = old
      · simp [hi₂, hne.symm]
      · simpa [hi₁, hi₂] using h.refCount_le he i hi

theorem ArenaSafe.replaceBlock (h : m.ArenaSafe exact) {old : BlockId} (hb : b.isConnected = true)
    (hsize : b.size = blockSize) (hold : old ≠ 0) :
    (left (m.replaceBlock old b)).ArenaSafe exact := by
  have hsafe := h.alloc b
  have hfresh := h.fresh_alloc b
  have husable : (m.alloc b).2.Usable (m.alloc b).1 := by
    rw [Usable, h.block_alloc, if_pos rfl]
    exact ⟨hb, hsize⟩
  rw [left_replaceBlock hb hsize hold]
  dsimp only
  split_ifs with hheld
  · rw [hsafe.coherent.plain.count_eq_card hold, Finset.card_eq_zero,
      hsafe.coherent.plain.holders_eq_empty] at hheld
    have hsame : ∀ p, ((m.alloc b).2.index.substitute old (m.alloc b).1).plain.sparse p =
        (m.alloc b).2.index.plain.sparse p := by
      intro p
      exact (PageTable.sparse_substitute _ hold _ p).trans (if_neg (hheld p))
    have hunheld := hfresh.unheld
    refine (hsafe.reindex (hsafe.coherent.substitute hold _) hsame).discard
      ⟨hfresh.ne_zero, hfresh.lt, hfresh.notMem_free, ?_⟩
    intro p
    dsimp only
    rw [hsame]
    exact hunheld p
  · exact hsafe.substitute hfresh husable hold hheld

/-! ## Restoring -/

theorem getD_countEntries (entries : List (Page × BlockId)) (refs : Array Nat) {i : BlockId}
    (hi : i < refs.size) :
    (entries.foldl (fun refs (_, id) => refs.modify id (· + 1)) refs).getD i 0 =
      refs.getD i 0 + entries.countP (·.2 == i) := by
  induction entries generalizing refs with
  | nil => simp
  | cons e rest ih =>
    obtain ⟨p, id⟩ := e
    rw [List.foldl_cons, ih _ (by simpa using hi), getD_modify, List.countP_cons]
    by_cases hid : i = id
    · subst hid
      simp [hi]
      omega
    · simp [hid, Ne.symm hid]

theorem size_countEntries (entries : List (Page × BlockId)) (refs : Array Nat) :
    (entries.foldl (fun refs (_, id) => refs.modify id (· + 1)) refs).size = refs.size :=
  foldl_eq_of_step (fun _ _ => Array.size_modify) entries refs

/-- Each page that holds a block is named by one of the entries that count for it. -/
theorem card_holders_ofEntries {quickPages : Nat} (hq : quickPages ≤ 1048576) (gateA20 : Bool)
    (entries : List (Page × BlockId)) {id : BlockId} (hid : id ≠ 0) :
    ((PageIndex.ofEntries quickPages gateA20 entries).plain.holders id).card ≤
      entries.countP (·.2 == id) := by
  have hc := PageIndex.coherent_ofEntries hq gateA20 entries
  let pages := (entries.filter (·.2 == id)).map Prod.fst
  have hsub : (PageIndex.ofEntries quickPages gateA20 entries).plain.holders id ⊆
      pages.toFinset := by
    intro p hp
    rw [hc.plain.mem_holders] at hp
    have hmem := PageIndex.mem_of_sparse_ofEntries (hp ▸ hid)
    rw [hp] at hmem
    rw [List.mem_toFinset]
    exact List.mem_map.mpr ⟨(p, id), List.mem_filter.mpr ⟨hmem, by simp⟩, rfl⟩
  calc
    _ ≤ pages.toFinset.card := Finset.card_le_card hsub
    _ ≤ pages.length := List.toFinset_card_le pages
    _ = entries.countP (·.2 == id) := by
      rw [List.length_map, List.countP_eq_length_filter]

theorem ArenaSafe.adopt (m : Memory) {s : Staged} (hs : s.WellFormed) :
    (m.adopt s).ArenaSafe False := by
  have hindex : (m.adopt s).index =
      .ofEntries (quickPages s.ramSize) s.gateA20 s.entries := rfl
  have hblock : ∀ id, id ≠ 0 → id ≤ s.blocks.length → ∃ b ∈ s.blocks, (m.adopt s).block id = b := by
    intro id hid hle
    obtain ⟨k, rfl⟩ := Nat.exists_eq_succ_of_ne_zero hid
    have hk : k < s.blocks.length := hle
    refine ⟨s.blocks[k], List.getElem_mem hk, ?_⟩
    simp [block, Memory.adopt, Array.getD_eq_getD_getElem?, hk]
  have hentry : ∀ p, (m.adopt s).index.plain.sparse p ≠ 0 →
      (p, (m.adopt s).index.plain.sparse p) ∈ s.entries := by
    intro p hp
    rw [hindex] at hp ⊢
    exact PageIndex.mem_of_sparse_ofEntries hp
  have husable : ∀ p, (m.adopt s).index.plain.sparse p ≠ 0 →
      (m.adopt s).Usable ((m.adopt s).index.plain.sparse p) := by
    intro p hp
    obtain ⟨b, hb, heq⟩ := hblock _ hp (hs.entry_le _ (hentry p hp))
    rw [Usable, heq]
    exact ⟨hs.connected b hb, hs.size b hb⟩
  have hc := PageIndex.coherent_ofEntries (quickPages_le s.ramSize) s.gateA20 s.entries
  refine ⟨hc, ?_, by simp [Memory.adopt], rfl, husable, List.nodup_nil, by simp [Memory.adopt],
    by simp [Memory.adopt], by simp [Memory.adopt], ?_, ?_, False.elim⟩
  · simp only [Memory.adopt, countEntries, List.size_toArray, List.length_cons]
    rw [size_countEntries, Array.size_replicate]
  · have hnone : s.entries.countP (·.2 == 0) = 0 := by
      rw [List.countP_eq_zero]
      intro e he
      simpa using hs.entry_ne e he
    simp only [refCount, Memory.adopt, countEntries]
    rw [getD_countEntries _ _ (by simp), hnone]
    simp
  · intro id hid
    rcases Finset.eq_empty_or_nonempty ((m.adopt s).index.plain.holders id) with hempty | ⟨p, hp⟩
    · simp [hempty]
    · rw [hindex, hc.plain.mem_holders] at hp
      have hlt : id ≤ s.blocks.length := by
        have hmem := hentry p (hindex ▸ hp ▸ hid)
        rw [hindex, hp] at hmem
        exact hs.entry_le _ hmem
      refine (card_holders_ofEntries (quickPages_le s.ramSize) s.gateA20 s.entries hid).trans ?_
      simp only [refCount, Memory.adopt, countEntries]
      rw [getD_countEntries]
      · exact Nat.le_add_left _ _
      · simpa using Nat.lt_succ_of_le hlt

/-! ## Runs -/

theorem stable_arenaSafe (A : RegionTable → Block → Prop) (exact : Prop) :
    Stable A (ArenaSafe exact) where
  coherent h := h.coherent
  frame h hsame := h.sameShape
    ⟨hsame.plain, hsame.masked, hsame.refs, hsame.free, by rw [hsame.blocks],
      fun _ => by rw [block, hsame.blocks, block], fun _ => by rw [block, hsame.blocks, block]⟩
  register _ h := h.sameShape ⟨rfl, rfl, rfl, rfl, rfl, fun _ => rfl, fun _ => rfl⟩
  connect h hp hb hsize _ := h.connect hp hb hsize
  disconnect p h := h.disconnect p
  replaceBlock h hb hsize hold _ := h.replaceBlock hb hsize hold
  storePiece piece h := h.storePiece piece
  clearBlock id h := h.clearBlock id

theorem arenaSafe_new (ramSize : UInt32) (regions : Array Region) (exact : Prop) :
    (new ramSize regions).ArenaSafe exact := by
  have hsparse : ∀ p, (new ramSize regions).index.plain.sparse p = 0 :=
    PageTable.sparse_empty _
  have hcoherent : (new ramSize regions).index.Coherent :=
    PageIndex.coherent_empty (quickPages_le _) _
  have hempty : ∀ id, id ≠ 0 → (new ramSize regions).index.plain.holders id = ∅ := by
    intro id hid
    rw [hcoherent.plain.holders_eq_empty]
    intro p
    rw [hsparse]
    exact hid.symm
  refine ⟨hcoherent, rfl, Nat.one_pos, rfl, ?_, List.nodup_nil, by simp [new], by simp [new],
    by simp [new], rfl, ?_, ?_⟩
  · intro p hp
    exact absurd (hsparse p) hp
  · intro id hid
    simp [hempty id hid]
  · intro _ id hid
    simp [refCount, new, Array.getD_eq_getD_getElem?, hid]

theorem ArenaSafe.load (h : m.ArenaSafe exact) (input : Bytes) :
    (left (m.load input)).ArenaSafe False := by
  rcases left_load m input with hload | ⟨s, hs, count, paging, flush, hload⟩
  · rw [hload]
    exact h.weaken
  · rw [hload]
    exact (ArenaSafe.adopt m hs).sameShape ⟨rfl, rfl, rfl, rfl, rfl, fun _ => rfl, fun _ => rfl⟩

theorem ArenaSafe.run (h : m.ArenaSafe False) (ts : List Transaction) :
    (m.run ts).ArenaSafe False :=
  (stable_arenaSafe _ False).run ts (fun input _ h => h.load input) h

theorem arenaSafe_run (ramSize : UInt32) (regions : Array Region) (ts : List Transaction) :
    ((new ramSize regions).run ts).ArenaSafe (∀ input, .load input ∉ ts) := by
  by_cases hload : ∀ input, .load input ∉ ts
  · exact (stable_arenaSafe _ _).run ts (fun input hmem => absurd hmem (hload input))
      (arenaSafe_new ramSize regions _)
  · have hsafe := (arenaSafe_new ramSize regions False).run ts
    exact { hsafe with refCount_le := fun h => absurd h hload }

/-- After every run, restores of arbitrary bytes and replacements of arbitrary positions included:
each slot of either table is a position of the arena that is not given up, and other than the
unconnected block, which stands first and is not counted, it is a whole connected block; the
positions to be used again are distinct; counts bound the pages that hold a block and are exact
without restores. So the position that the next block gets is in no slot. -/
theorem arena_safe_of_run (ramSize : UInt32) (regions : Array Region) (ts : List Transaction) :
    let m := (new ramSize regions).run ts
    (∀ t ∈ [m.index.plain, m.index.masked], ∀ id, t.Holds id →
      id < m.blocks.size ∧ id ∉ m.free ∧
        (id ≠ 0 → (m.block id).isConnected = true ∧ (m.block id).size = blockSize)) ∧
    m.blocks[0]? = some .unconnected ∧
    (m.free.Nodup ∧ 0 ∉ m.free) ∧
    m.refs.getD 0 0 = 0 ∧
    (∀ id, id ≠ 0 → (m.index.plain.holders id).card ≤ m.refs.getD id 0) ∧
    ((∀ input, .load input ∉ ts) →
      ∀ id, id ≠ 0 → m.refs.getD id 0 = (m.index.plain.holders id).card) ∧
    ∀ b, ∀ t ∈ [m.index.plain, m.index.masked], ¬ t.Holds (m.alloc b).1 := by
  intro m
  have h : m.ArenaSafe (∀ input, .load input ∉ ts) := arenaSafe_run ramSize regions ts
  refine ⟨?_, ?_, ⟨h.free_nodup, fun h0 => h.free_ne_zero 0 h0 rfl⟩, h.refCount_zero,
    h.holders_le, ?_, ?_⟩
  · intro t ht id hid
    obtain ⟨p, rfl⟩ := h.coherent.exists_plain ht hid
    refine ⟨?_, fun hfree => h.free_unheld _ hfree p rfl, h.usable p⟩
    by_cases hp : m.index.plain.sparse p = 0
    · exact hp ▸ h.size_pos
    · exact (h.usable p hp).lt
  · have hsentinel := h.sentinel
    rw [block, Array.getD_eq_getD_getElem?, Array.getElem?_eq_getElem h.size_pos] at hsentinel
    rw [Array.getElem?_eq_getElem h.size_pos]
    exact congrArg some hsentinel
  · intro hload id hid
    exact le_antisymm (h.refCount_le hload id hid) (h.holders_le id hid)
  · intro b t ht hid
    obtain ⟨p, hp⟩ := h.coherent.exists_plain ht hid
    have hunheld := (h.fresh_alloc b).unheld p
    rw [index_alloc] at hunheld
    exact hunheld hp

end Memory
end Mainboard
