import Mainboard.Proofs.Memory.MappedCount

/-!
# Saved buses are canonical

Without restores no two pages share a block, so the layout of a bus is determined by what its pages
show. Two buses that show the same are then saved as the same bytes, whatever was connected, given
up and replaced before. The positions of their blocks differ, and so do the stacks of positions to
be used again; neither is saved.
-/
namespace Mainboard
namespace Memory

variable {m m' : Memory} {exact : Prop} {p : Page} {b : Block}

/-- A position is installed at one page at most. -/
structure Unshared (m : Memory) : Prop where
  safe : m.ArenaSafe False
  inj : ∀ p q, m.index.plain.sparse p ≠ 0 → m.index.plain.sparse p = m.index.plain.sparse q → p = q

theorem Unshared.congr (h : m.Unshared) (hsafe : m'.ArenaSafe False)
    (hplain : m'.index.plain = m.index.plain) : m'.Unshared where
  safe := hsafe
  inj := by
    rw [hplain]
    exact h.inj

theorem Unshared.connect (h : m.Unshared) (hp : m.index.plain.sparse p = 0)
    (hb : b.isConnected = true) (hsize : b.size = blockSize) : (m.connect p b).2.Unshared where
  safe := h.safe.connect hp hb hsize
  inj q r := by
    have hunheld := (h.safe.fresh_alloc b).unheld
    rw [index_alloc] at hunheld
    have hid : (m.connect p b).1 = (m.alloc b).1 := rfl
    rw [sparse_connect, sparse_connect, hid]
    intro hq heq
    split_ifs at hq heq with hqp hrp hrp
    · exact hqp.trans hrp.symm
    · exact absurd heq.symm (hunheld r)
    · exact absurd heq (hunheld q)
    · exact h.inj q r hq heq

theorem Unshared.disconnect (h : m.Unshared) (p : Page) : (m.disconnect p).Unshared where
  safe := h.safe.disconnect p
  inj q r := by
    rw [sparse_disconnect p h.safe.coherent, sparse_disconnect p h.safe.coherent]
    intro hq heq
    by_cases hqp : q = p
    · exact absurd (if_pos hqp) hq
    · rw [if_neg hqp] at hq heq
      by_cases hrp : r = p
      · exact absurd (heq.trans (if_pos hrp)) hq
      · exact h.inj q r hq (heq.trans (if_neg hrp))

theorem Unshared.replaceBlock (h : m.Unshared) {old : BlockId} (hb : b.isConnected = true)
    (hsize : b.size = blockSize) (hold : old ≠ 0) : (left (m.replaceBlock old b)).Unshared where
  safe := h.safe.replaceBlock hb hsize hold
  inj q r := by
    have hunheld := (h.safe.fresh_alloc b).unheld
    rw [index_alloc] at hunheld
    have hsparse : ∀ p, (left (m.replaceBlock old b)).index.plain.sparse p =
        if m.index.plain.sparse p = old then (m.alloc b).1 else m.index.plain.sparse p := by
      intro p
      rw [index_replaceBlock hb hsize hold]
      exact PageTable.sparse_substitute _ hold _ p
    rw [hsparse, hsparse]
    intro hq heq
    split_ifs at hq heq with hqo hro hro
    · exact h.inj q r (hqo ▸ hold) (hqo.trans hro.symm)
    · exact absurd heq.symm (hunheld r)
    · exact absurd heq (hunheld q)
    · exact h.inj q r hq heq

theorem stable_unshared : Stable (fun _ _ => True) Unshared where
  coherent h := h.safe.coherent
  frame h hsame :=
    h.congr ((stable_arenaSafe (fun _ _ => True) False).frame h.safe hsame) hsame.plain
  register handle h :=
    h.congr ((stable_arenaSafe (fun _ _ => True) False).register handle h.safe) rfl
  connect h hp hb hsize _ := h.connect hp hb hsize
  disconnect p h := h.disconnect p
  replaceBlock h hb hsize hold _ := h.replaceBlock hb hsize hold
  storePiece := by
    intro m piece h
    exact h.congr (h.safe.storePiece piece) (congrArg PageIndex.plain (m.index_storePiece piece))
  clearBlock id h := h.congr (h.safe.clearBlock id) rfl

theorem unshared_new (ramSize : UInt32) (regions : Array Region) :
    (new ramSize regions).Unshared where
  safe := arenaSafe_new ramSize regions False
  inj p _ hp := absurd (PageTable.sparse_empty _ p) hp

/-- If the blocks are all alike and no two pages share one, they are counted by the connected pages.
-/
theorem Unshared.sum_blockLength (h : m.Unshared) {k : Nat}
    (hk : ∀ p, m.pageId p ≠ 0 → blockLength (m.pageBlock p) = k) :
    (m.savedBlocks.map blockLength).sum = m.connected.card * k := by
  have hnodup : (m.index.plain.pages.map m.index.plain.sparse).Nodup := by
    refine List.Nodup.map_on (fun p hp q _ heq => ?_)
      (m.index.plain.pairwise_pages.imp fun hlt => hlt.ne)
    exact h.inj p q (PageTable.mem_pages.mp hp) heq
  have hlength : (m.savedBlocks.map blockLength).length = m.connected.card := by
    rw [← h.safe.length_savedPages, List.length_map, savedBlocks, List.length_map, usedIds,
      eraseDups_of_nodup hnodup, List.length_map, savedPages, List.length_map]
  have hall : ∀ n ∈ m.savedBlocks.map blockLength, n = k := by
    intro n hn
    obtain ⟨b, hb, rfl⟩ := List.mem_map.mp hn
    obtain ⟨p, hp, rfl⟩ := mem_savedBlocks.mp hb
    rw [← h.safe.pageId_eq] at hp ⊢
    exact hk p hp
  rw [List.sum_eq_card_nsmul _ k hall, hlength, smul_eq_mul]

/-! ## What the pages show -/

/-- Two buses with the same flags and RAM size and as many regions, whose pages show equal blocks:
of the same kind, with the same bytes or the same window. -/
structure ShowsSame (m m' : Memory) : Prop where
  ramSize : m'.ramSize = m.ramSize
  gateA20 : m'.gateA20 = m.gateA20
  pagingActive : m'.pagingActive = m.pagingActive
  tlbFlush : m'.tlbFlush = m.tlbFlush
  registered : m'.devices.registered.size = m.devices.registered.size
  pageBlock : ∀ p, m'.pageBlock p = m.pageBlock p

/-- The pages that show nothing are those that are not connected. -/
theorem ArenaSafe.pageBlock_eq_unconnected_iff (h : m.ArenaSafe exact) :
    m.pageBlock p = .unconnected ↔ m.pageId p = 0 := by
  constructor
  · intro hblock
    by_contra hne
    have husable := h.usable p (h.pageId_eq p ▸ hne)
    rw [← h.pageId_eq] at husable
    have hconn : (m.pageBlock p).isConnected = true := husable.1
    rw [hblock] at hconn
    cases hconn
  · intro hzero
    rw [pageBlock, hzero, h.sentinel]

theorem Unshared.sameLayout (h : m.Unshared) (h' : m'.Unshared)
    (hshow : ∀ p, m'.pageBlock p = m.pageBlock p) : m.SameLayout m' := by
  have hfree : ∀ p, m'.index.plain.sparse p = 0 ↔ m.index.plain.sparse p = 0 := by
    intro p
    rw [← h.safe.pageId_eq, ← h'.safe.pageId_eq, ← h.safe.pageBlock_eq_unconnected_iff,
      ← h'.safe.pageBlock_eq_unconnected_iff, hshow]
  -- No two pages share a block in either bus, so both say that they share one if they are the same.
  refine ⟨hfree, fun p q => ?_, fun p => ?_⟩
  · by_cases hp : m.index.plain.sparse p = 0
    · rw [hp, (hfree p).mpr hp, eq_comm, hfree, eq_comm]
    · have hp' : m'.index.plain.sparse p ≠ 0 := mt (hfree p).mp hp
      exact ⟨fun heq => congrArg _ (h'.inj p q hp' heq), fun heq => congrArg _ (h.inj p q hp heq)⟩
  · rw [← h.safe.pageId_eq, ← h'.safe.pageId_eq]
    exact hshow p

/-- Buses that show the same are saved as the same bytes after any two histories without restores.
That they count the same pages need not be assumed: the counts are exact. -/
theorem save_canonical (ramSize ramSize' : UInt32) (regions regions' : Array Region)
    (ts ts' : List Transaction) (hts : ∀ input, .load input ∉ ts)
    (hts' : ∀ input, .load input ∉ ts')
    (hsame : ((new ramSize regions).run ts).ShowsSame ((new ramSize' regions').run ts')) :
    ((new ramSize' regions').run ts').save = ((new ramSize regions).run ts).save := by
  have unshared_run : ∀ ramSize regions ts, (∀ input, .load input ∉ ts) →
      ((new ramSize regions).run ts).Unshared := fun ramSize regions ts hts =>
    stable_unshared.run ts (fun input hmem => absurd hmem (hts input))
      (unshared_new ramSize regions)
  have counted_run : ∀ ramSize regions ts, (∀ input, .load input ∉ ts) →
      ((new ramSize regions).run ts).Counted := fun ramSize regions ts hts =>
    stable_counted.run ts (fun input hmem => absurd hmem (hts input)) (counted_new ramSize regions)
  have h := unshared_run ramSize regions ts hts
  have h' := unshared_run ramSize' regions' ts' hts'
  have hlayout := h.sameLayout h' hsame.pageBlock
  have hcount : ((new ramSize' regions').run ts').mappedCount =
      ((new ramSize regions).run ts).mappedCount := by
    apply UInt32.toNat_inj.mp
    rw [(counted_run ramSize regions ts hts).mappedCount,
      (counted_run ramSize' regions' ts' hts').mappedCount]
    refine congrArg Finset.card (connected_congr fun p => ?_)
    rw [h.safe.pageId_eq, h'.safe.pageId_eq]
    exact hlayout.free p
  exact congrArg Container.encode (hlayout.toContainer_eq h.safe h'.safe hsame.ramSize hsame.gateA20
    hcount hsame.pagingActive hsame.tlbFlush hsame.registered)

/-- Two pages connected in either order, the second time with a third one in between that was given
up again: the blocks stand at other positions then. -/
theorem save_canonical_reordered :
    let m := (new 0x2000 #[]).run [.allocate 0x1000 .lazyCode, .allocate 0x2000 .freshRam]
    let m' := (new 0x2000 #[]).run [.allocate 0x2000 .freshRam, .allocate 0x3000 .lazyCode,
      .allocate 0x3000 .unconnected, .allocate 0x1000 .lazyCode]
    m'.pageId 1 ≠ m.pageId 1 ∧ m'.save = m.save := by
  intro m m'
  have hnew : (new 0x2000 #[]).ArenaSafe True := arenaSafe_new 0x2000 #[] True
  have hram : Block.freshRam.size = blockSize := List.length_replicate
  have hcode : Block.lazyCode.size = blockSize := rfl
  have hnone : Block.unconnected.size = blockSize := rfl
  have hsame : m.ShowsSame m' := by
    refine ⟨by decide +kernel, by decide +kernel, by decide +kernel, by decide +kernel,
      by decide +kernel, fun p => ?_⟩
    have hempty : (new 0x2000 #[]).pageBlock p = .unconnected :=
      hnew.pageBlock_eq_unconnected_iff.mpr ((hnew.pageId_eq p).trans (PageTable.sparse_empty _ p))
    have hm := hnew.pageBlock_allocations [(0x1000, .lazyCode), (0x2000, .freshRam)]
      (by simp [hram, hcode]) p
    have hm' := hnew.pageBlock_allocations [(0x2000, .freshRam), (0x3000, .lazyCode),
      (0x3000, .unconnected), (0x1000, .lazyCode)] (by simp [hram, hcode, hnone]) p
    refine hm'.trans (Eq.trans ?_ hm.symm)
    rw [hempty]
    simp only [List.foldl_cons, List.foldl_nil]
    by_cases h₁ : p = .ofAddr 0x1000
    · rw [h₁]
      rfl
    · by_cases h₂ : p = .ofAddr 0x2000
      · rw [h₂]
        rfl
      · by_cases h₃ : p = .ofAddr 0x3000
        · rw [h₃]
          rfl
        · simp [h₁, h₂, h₃]
  refine ⟨by decide +kernel, ?_⟩
  exact save_canonical 0x2000 0x2000 #[] #[] _ _ (by simp) (by simp) hsame

end Memory
end Mainboard
