import Mainboard.Proofs.Memory.Gate

/-!
# The reach of the quick part

In every reachable state the quick parts of both tables cover the pages of system RAM and no others,
also after a restore that changes the size of RAM. So all answers of an index are determined by what
is installed, the gate and the size of RAM.
-/
namespace Mainboard

namespace PageTable

theorem Mirrored.quick?_eq {t : PageTable} (h : t.Mirrored) (p : Page) :
    t.quick? p = if p.val < t.quick.size then some (t.sparse p) else none := by
  cases hq : t.quick? p with
  | none =>
    have hge := Array.getElem?_eq_none_iff.mp hq
    rw [if_neg (not_lt.mpr hge)]
  | some id =>
    obtain ⟨hlt, -⟩ := Array.getElem?_eq_some_iff.mp hq
    rw [if_pos hlt, h.agree p id hq]

end PageTable

namespace PageIndex

structure Covers (x : PageIndex) (n : Nat) : Prop where
  plain : x.plain.quick.size = n
  masked : x.masked.quick.size = n

variable {x y : PageIndex} {n : Nat}

theorem size_mirror (t : PageTable) (p : Page) (id : BlockId) :
    (t.mirror p id).quick.size = t.quick.size := by
  unfold PageTable.mirror
  split <;> simp

theorem Covers.set (h : x.Covers n) (p : Page) (id : BlockId) : (x.set p id).Covers n where
  plain := by simpa [PageIndex.set] using h.plain
  masked := by
    rw [masked_set, size_mirror]
    exact h.masked

theorem Covers.substitute (h : x.Covers n) (old new : BlockId) :
    (x.substitute old new).Covers n where
  plain := by simpa [PageIndex.substitute, PageTable.substitute] using h.plain
  masked := by simpa [PageIndex.substitute, PageTable.substitute] using h.masked

theorem covers_ofEntries (n : Nat) (gateA20 : Bool) (entries : List (Page × BlockId)) :
    (ofEntries n gateA20 entries).Covers n := by
  have hempty : (PageTable.empty n).quick.size = n := Array.size_replicate
  let reach (t : PageTable) : Nat := t.quick.size
  have hstore : ∀ t (e : Page × BlockId), reach (t.store e.1 e.2) = reach t := by simp [reach]
  have hmirror : ∀ t (e : Page × BlockId), reach (t.mirror e.1 e.2) = reach t :=
    fun t e => size_mirror t e.1 e.2
  constructor
  · exact (foldl_eq_of_step hstore _ (.empty n)).trans hempty
  · simp only [ofEntries, maskedOf_eq]
    exact (foldl_eq_of_step hmirror _ (.empty n)).trans hempty

/-- Indices that agree on what is installed, on the gate and on the reach of their quick parts give
the same answers. -/
theorem Coherent.active_congr (hx : x.Coherent) (hy : y.Coherent) (hnx : x.Covers n)
    (hny : y.Covers n) (hgate : y.gateA20 = x.gateA20)
    (hplain : ∀ p, y.plain.sparse p = x.plain.sparse p) (p : Page) :
    y.active.sparse p = x.active.sparse p ∧ y.active.quick? p = x.active.quick? p := by
  have hsparse : y.active.sparse p = x.active.sparse p := by
    unfold PageIndex.active
    rw [hgate]
    split_ifs
    · exact hplain p
    · rw [hx.sparse_masked, hy.sparse_masked, hplain]
  have hsize : ∀ {z : PageIndex}, z.Covers n → z.active.quick.size = n := by
    intro z hz
    unfold PageIndex.active
    split_ifs
    · exact hz.plain
    · exact hz.masked
  refine ⟨hsparse, ?_⟩
  rw [hx.active.quick?_eq, hy.active.quick?_eq, hsparse, hsize hnx, hsize hny]

end PageIndex

namespace Memory

variable {m m' : Memory}

structure Indexed (m : Memory) : Prop where
  coherent : m.index.Coherent
  covers : m.index.Covers (quickPages m.ramSize)

theorem stable_indexed (A : RegionTable → Block → Prop) : Stable A Indexed where
  coherent h := h.coherent
  frame := by
    intro m m' h hsame
    refine ⟨(stable_coherent A).frame h.coherent hsame, ?_⟩
    rw [hsame.ramSize]
    exact ⟨hsame.plain ▸ h.covers.plain, hsame.masked ▸ h.covers.masked⟩
  register _ h := ⟨h.coherent, h.covers⟩
  connect := by
    intro m p b h hp hb hsize hA
    have hramSize : (m.connect p b).2.ramSize = m.ramSize :=
      congrArg Aside.ramSize (m.aside_connect p b)
    refine ⟨(stable_coherent A).connect h.coherent hp hb hsize hA, ?_⟩
    rw [index_connect, hramSize]
    exact h.covers.set _ _
  disconnect := by
    intro m p h
    have hramSize : (m.disconnect p).ramSize = m.ramSize :=
      congrArg Aside.ramSize (m.aside_disconnect p)
    refine ⟨(stable_coherent A).disconnect p h.coherent, ?_⟩
    rw [hramSize]
    unfold disconnect
    split_ifs
    · exact h.covers
    · rw [index_install]
      exact h.covers.set p 0
  replaceBlock := by
    intro m old b h hb hsize hold hA
    refine ⟨(stable_coherent A).replaceBlock h.coherent hb hsize hold hA, ?_⟩
    have hramSize : (left (m.replaceBlock old b)).ramSize = m.ramSize :=
      congrArg Aside.ramSize (m.aside_replaceBlock old b)
    rw [index_replaceBlock hb hsize hold, hramSize]
    exact h.covers.substitute _ _
  storePiece := by
    intro m piece h
    obtain ⟨_, haside⟩ := m.aside_storePiece piece
    have hramSize : (m.storePiece piece).ramSize = m.ramSize := congrArg Aside.ramSize haside
    refine ⟨(stable_coherent A).storePiece piece h.coherent, ?_⟩
    rw [index_storePiece, hramSize]
    exact h.covers
  clearBlock _ h := ⟨h.coherent, h.covers⟩

theorem indexed_adopt (m : Memory) (s : Staged) : (m.adopt s).Indexed where
  coherent := PageIndex.coherent_ofEntries (quickPages_le _) _ _
  covers := PageIndex.covers_ofEntries _ _ _

theorem indexed_run (ramSize : UInt32) (regions : Array Region) (ts : List Transaction) :
    ((new ramSize regions).run ts).Indexed := by
  refine (stable_indexed _).run ts ?_ ?_
  · intro m input _ h
    rcases left_load m input with hload | ⟨s, -, count, paging, flush, hload⟩
    · rw [hload]
      exact h
    · rw [hload]
      exact ⟨(indexed_adopt m s).coherent, (indexed_adopt m s).covers⟩
  · exact ⟨PageIndex.coherent_empty (quickPages_le _) _,
      ⟨Array.size_replicate, Array.size_replicate⟩⟩

end Memory
end Mainboard
