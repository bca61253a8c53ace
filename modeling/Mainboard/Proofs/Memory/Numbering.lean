import Mathlib.Data.List.Sort
import Mainboard.Proofs.Memory.ArenaRuns

/-!
# What a saved bus says of its blocks

The blocks in a saved bus are those that stand in the groups of the plain table, each once, in the
order in which the pages first use them, and a page is saved with the place of its block in this
order. So two buses whose pages are connected to equal blocks and share them in the same way are
saved alike, wherever the blocks stand in the arenas.
-/
namespace Mainboard

namespace PageTable

/-- The pages with a block installed, in ascending order. It is irreducible so that no comparison of
terms starts to go through the million pages. -/
@[irreducible]
def pages (t : PageTable) : List Page := (List.finRange 1048576).filter fun p => t.sparse p ≠ 0

@[simp] theorem mem_pages {t : PageTable} {p : Page} : p ∈ t.pages ↔ t.sparse p ≠ 0 := by
  unfold pages
  simp

theorem length_pages_le (t : PageTable) : t.pages.length ≤ 1048576 := by
  unfold pages
  have hle := List.length_filter_le (fun p => decide (t.sparse p ≠ 0)) (List.finRange 1048576)
  rwa [List.length_finRange] at hle

theorem pairwise_pages (t : PageTable) : t.pages.Pairwise (· < ·) := by
  unfold pages
  exact (List.pairwise_lt_finRange 1048576).filter _

theorem group_of_mem_occupiedIn {t : PageTable} {g : Fin 1024} {e : Page × BlockId}
    (h : e ∈ t.occupiedIn g) : ∃ s, e.1 = .ofGroup g s := by
  unfold occupiedIn at h
  split at h
  · cases h
  · obtain ⟨s, -, hs⟩ := List.mem_filterMap.mp h
    split_ifs at hs
    cases hs
    exact ⟨s, rfl⟩

theorem pairwise_occupied (t : PageTable) : t.occupied.Pairwise fun e f => e.1 < f.1 := by
  unfold occupied
  rw [List.pairwise_flatMap]
  constructor
  · intro g _
    unfold occupiedIn
    split
    · exact List.Pairwise.nil
    · refine (List.pairwise_lt_finRange 1024).filterMap _ ?_
      intro s s' hlt e he e' he'
      split_ifs at he he'
      cases he
      cases he'
      have hplaces : s.val < s'.val := hlt
      change g.val * 1024 + s.val < g.val * 1024 + s'.val
      omega
  · refine (List.pairwise_lt_finRange 1024).imp fun {g g'} hlt e he e' he' => ?_
    obtain ⟨s, hs⟩ := group_of_mem_occupiedIn he
    obtain ⟨s', hs'⟩ := group_of_mem_occupiedIn he'
    have hgroups : g.val < g'.val := hlt
    have hplace := s.isLt
    rw [hs, hs']
    change g.val * 1024 + s.val < g'.val * 1024 + s'.val
    omega

/-- The listing of a table does not depend on how its groups came about. -/
theorem occupied_eq (t : PageTable) : t.occupied = t.pages.map fun p => (p, t.sparse p) := by
  have hirrefl : Std.Irrefl fun e f : Page × BlockId => e.1 < f.1 := ⟨fun e => lt_irrefl e.1⟩
  have hasymm : Std.Antisymm fun e f : Page × BlockId => e.1 < f.1 :=
    ⟨fun e f hef hfe => absurd hef (lt_asymm hfe)⟩
  refine List.Pairwise.eq_of_mem_iff t.pairwise_occupied ?_ ?_
  · rw [List.pairwise_map]
    exact t.pairwise_pages
  · rintro ⟨p, id⟩
    rw [mem_occupied, List.mem_map]
    constructor
    · rintro ⟨rfl, hne⟩
      exact ⟨p, mem_pages.mpr hne, rfl⟩
    · rintro ⟨q, hq, heq⟩
      cases heq
      exact ⟨rfl, mem_pages.mp hq⟩

end PageTable

namespace Memory

/-! ## First uses -/

theorem eraseDups_concat (l : List BlockId) (id : BlockId) :
    (l ++ [id]).eraseDups = if id ∈ l then l.eraseDups else l.eraseDups ++ [id] := by
  rw [List.eraseDups_append]
  by_cases hid : id ∈ l
  · simp [List.removeAll, hid]
  · simp [List.removeAll, hid, List.eraseDups_cons]

theorem nodup_eraseDups (l : List BlockId) : l.eraseDups.Nodup := by
  induction l using List.reverseRecOn with
  | nil => exact List.nodup_nil
  | append_singleton l id ih =>
    rw [eraseDups_concat]
    split_ifs with hid
    · exact ih
    · refine List.nodup_append.mpr ⟨ih, List.nodup_singleton id, ?_⟩
      rintro a ha b hb rfl
      rw [List.mem_singleton] at hb
      exact hid (hb ▸ List.mem_eraseDups.mp ha)

theorem eraseDups_of_nodup {l : List BlockId} (h : l.Nodup) : l.eraseDups = l := by
  induction l using List.reverseRecOn with
  | nil => rfl
  | append_singleton l id ih =>
    obtain ⟨hl, -, hdisjoint⟩ := List.nodup_append.mp h
    have hnew : id ∉ l := fun hid => hdisjoint id hid id (List.mem_singleton_self id) rfl
    rw [eraseDups_concat, if_neg hnew, ih hl]

theorem length_eraseDups_le (l : List BlockId) : l.eraseDups.length ≤ l.length := by
  induction l using List.reverseRecOn with
  | nil => exact le_rfl
  | append_singleton l id ih =>
    rw [eraseDups_concat, List.length_append]
    split_ifs
    · exact ih.trans (Nat.le_add_right _ _)
    · rw [List.length_append]
      exact Nat.add_le_add_right ih _

/-- Renaming commutes with listing first uses if it keeps different blocks apart. -/
theorem eraseDups_map {f : BlockId → BlockId} {l : List BlockId} (hf : Set.InjOn f {id | id ∈ l}) :
    (l.map f).eraseDups = l.eraseDups.map f := by
  induction l using List.reverseRecOn with
  | nil => rfl
  | append_singleton l id ih =>
    have hsub : ∀ i ∈ l, i ∈ l ++ [id] := fun i hi => List.mem_append_left [id] hi
    have hmem : f id ∈ l.map f ↔ id ∈ l := by
      constructor
      · intro h
        obtain ⟨i, hi, heq⟩ := List.mem_map.mp h
        exact hf (hsub i hi) (List.mem_append_right l (List.mem_singleton_self id)) heq ▸ hi
      · exact List.mem_map_of_mem
    rw [List.map_append, List.map_singleton, eraseDups_concat, eraseDups_concat,
      ih fun i hi j hj => hf (hsub i hi) (hsub j hj)]
    by_cases hid : id ∈ l
    · rw [if_pos (hmem.mpr hid), if_pos hid]
    · rw [if_neg (mt hmem.mp hid), if_neg hid, List.map_append, List.map_singleton]

theorem idxOf_map {f : BlockId → BlockId} {l : List BlockId} {id : BlockId}
    (hf : ∀ i ∈ l, f i = f id → i = id) : (l.map f).idxOf (f id) = l.idxOf id := by
  induction l with
  | nil => rfl
  | cons i l ih =>
    have hi : (f i == f id) = (i == id) := by
      rw [Bool.eq_iff_iff, beq_iff_eq, beq_iff_eq]
      exact ⟨hf i List.mem_cons_self, congrArg f⟩
    rw [List.map_cons, List.idxOf_cons, List.idxOf_cons, hi,
      ih fun j hj => hf j (List.mem_cons_of_mem i hj)]

/-- After meeting these blocks, each has its place in the order of first uses as its number. -/
structure Numbers (ids : List BlockId) (arenaSize : Nat) (n : Numbering) : Prop where
  size : n.numbers.size = arenaSize
  order : n.order.toList = ids.eraseDups
  number? : ∀ id, n.number? id = if id ∈ ids then some (ids.eraseDups.idxOf id) else none

theorem numbers_empty (arenaSize : Nat) : Numbers [] arenaSize (.empty arenaSize) where
  size := Array.size_replicate
  order := rfl
  number? := by
    intro id
    unfold Numbering.number? Numbering.empty
    by_cases hid : id < arenaSize <;> simp [Array.getD_eq_getD_getElem?, hid]

theorem Numbers.meet {ids : List BlockId} {arenaSize : Nat} {n : Numbering}
    (h : Numbers ids arenaSize n) {id : BlockId} (hid : id < arenaSize) :
    Numbers (ids ++ [id]) arenaSize (n.meet id) := by
  by_cases hmem : id ∈ ids
  · have hmeet : n.meet id = n := by
      unfold Numbering.meet
      rw [h.number?, if_pos hmem]
    have hdups : (ids ++ [id]).eraseDups = ids.eraseDups := by
      rw [eraseDups_concat, if_pos hmem]
    rw [hmeet]
    refine ⟨h.size, hdups ▸ h.order, fun i => ?_⟩
    rw [h.number?, hdups]
    by_cases hi : i = id
    · simp [hi, hmem]
    · simp [hi]
  · have hmeet : n.meet id =
        ⟨n.numbers.setIfInBounds id (some n.order.size), n.order.push id⟩ := by
      unfold Numbering.meet
      rw [h.number?, if_neg hmem]
    have hdups : (ids ++ [id]).eraseDups = ids.eraseDups ++ [id] := by
      rw [eraseDups_concat, if_neg hmem]
    have hnew : id ∉ ids.eraseDups := mt List.mem_eraseDups.mp hmem
    have hlength : n.order.size = ids.eraseDups.length := by
      rw [← h.order, Array.length_toList]
    rw [hmeet]
    refine ⟨Array.size_setIfInBounds.trans h.size, ?_, fun i => ?_⟩
    · rw [Array.toList_push, h.order, hdups]
    · change (n.numbers.setIfInBounds id (some n.order.size)).getD i none = _
      rw [getD_setIfInBounds, h.size, hdups]
      by_cases hi : i = id
      · simp [hi, hid, hlength, List.idxOf_append_of_notMem hnew]
      · have hold := h.number? i
        unfold Numbering.number? at hold
        rw [if_neg fun hboth => hi hboth.1, hold]
        by_cases hmemi : i ∈ ids
        · have hplace : (ids.eraseDups ++ [id]).idxOf i = ids.eraseDups.idxOf i :=
            List.idxOf_append_of_mem (List.mem_eraseDups.mpr hmemi)
          simp [hmemi, hplace]
        · simp [hi, hmemi]

theorem numbers_ofEntries {arenaSize : Nat} {entries : List (Page × BlockId)}
    (h : ∀ e ∈ entries, e.2 < arenaSize) :
    Numbers (entries.map Prod.snd) arenaSize (.ofEntries arenaSize entries) := by
  induction entries using List.reverseRecOn with
  | nil => exact numbers_empty arenaSize
  | append_singleton entries e ih =>
    have hrest := ih fun e he => h e (List.mem_append_left _ he)
    have hlast := h e (List.mem_append_right _ (List.mem_singleton_self e))
    rw [List.map_append, List.map_singleton]
    unfold Numbering.ofEntries
    rw [List.foldl_append]
    exact hrest.meet hlast

end Memory
end Mainboard
