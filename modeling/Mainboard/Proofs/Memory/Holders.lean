import Mainboard.Proofs.Memory.Coherence

/-!
# The pages that hold a block

How installing, removing and substituting blocks changes the set of pages at which a table answers
with a given block, and that counting the slots of the groups counts these pages.
-/
namespace Mainboard
namespace PageTable

def holders (t : PageTable) (id : BlockId) : Finset Page :=
  Finset.univ.filter fun p => t.lookup p = id

variable {t : PageTable}

theorem Mirrored.mem_holders (h : t.Mirrored) {p : Page} {id : BlockId} :
    p ∈ t.holders id ↔ t.sparse p = id := by
  simp [holders, h.lookup]

theorem Mirrored.holders_eq_empty (h : t.Mirrored) {id : BlockId} :
    t.holders id = ∅ ↔ ∀ p, t.sparse p ≠ id := by
  rw [Finset.eq_empty_iff_forall_notMem]
  exact forall_congr' fun p => not_congr h.mem_holders

theorem Mirrored.card_holders_connect (h : t.Mirrored) {p : Page} (hp : t.sparse p = 0)
    (id : BlockId) {i : BlockId} (hi : i ≠ 0) :
    ((t.store p id).holders i).card = (t.holders i).card + if i = id then 1 else 0 := by
  have hnot : p ∉ t.holders i := fun hmem => hi ((h.mem_holders.mp hmem).symm.trans hp)
  by_cases hid : i = id
  · have hins : (t.store p id).holders i = insert p (t.holders i) := by
      ext q
      rw [(h.store p id).mem_holders, Finset.mem_insert, h.mem_holders, sparse_store]
      by_cases hq : q = p <;> simp [hq, hid]
    rw [hins, Finset.card_insert_of_notMem hnot, if_pos hid]
  · have hsame : (t.store p id).holders i = t.holders i := by
      ext q
      rw [(h.store p id).mem_holders, h.mem_holders, sparse_store]
      by_cases hq : q = p
      · simp [hq, hp, hi.symm, Ne.symm hid]
      · simp [hq]
    rw [hsame, if_neg hid, Nat.add_zero]

theorem Mirrored.card_holders_disconnect (h : t.Mirrored) (p : Page) {i : BlockId} (hi : i ≠ 0) :
    ((t.store p 0).holders i).card = (t.holders i).card - if i = t.sparse p then 1 else 0 := by
  have herase : (t.store p 0).holders i = (t.holders i).erase p := by
    ext q
    rw [(h.store p 0).mem_holders, Finset.mem_erase, h.mem_holders, sparse_store]
    by_cases hq : q = p
    · simp [hq, hi.symm]
    · simp [hq]
  rw [herase]
  by_cases hold : i = t.sparse p
  · rw [if_pos hold, Finset.card_erase_of_mem (h.mem_holders.mpr hold.symm)]
  · have hnot : p ∉ t.holders i := fun hmem => hold (h.mem_holders.mp hmem).symm
    rw [if_neg hold, Finset.erase_eq_of_notMem hnot, Nat.sub_zero]

/-- Substituting a block that was in no slot hands it the pages of the old one. -/
theorem Mirrored.holders_substitute (h : t.Mirrored) {old new : BlockId} (hold : old ≠ 0)
    (hne : new ≠ old) (hnew : ∀ p, t.sparse p ≠ new) (i : BlockId) :
    (t.substitute old new).holders i =
      if i = new then t.holders old else if i = old then ∅ else t.holders i := by
  ext p
  rw [(h.substitute hold new).mem_holders, sparse_substitute t hold]
  by_cases hi : i = new
  · rw [if_pos hi, h.mem_holders, hi]
    by_cases hp : t.sparse p = old <;> simp [hp, hnew p]
  · by_cases hio : i = old
    · rw [if_neg hi, if_pos hio, hio]
      by_cases hp : t.sparse p = old <;> simp [hp, hne]
    · rw [if_neg hi, if_neg hio, h.mem_holders]
      by_cases hp : t.sparse p = old
      · simp [hp, Ne.symm hi, Ne.symm hio]
      · simp [hp]

def placeEquiv : Page ≃ Fin 1024 × Fin 1024 where
  toFun p := (p.group, p.slot)
  invFun e := .ofGroup e.1 e.2
  left_inv := Page.ofGroup_group_slot
  right_inv e := Prod.ext (Page.group_ofGroup e.1 e.2) (Page.slot_ofGroup e.1 e.2)

theorem sum_toList_map {n : Nat} (v : Vector α n) (f : α → Nat) :
    (v.toList.map f).sum = ∑ i : Fin n, f v[i] := by
  have hlist : v.toList = List.ofFn fun i : Fin n => v[i] := by
    apply List.ext_getElem <;> simp
  rw [hlist, List.map_ofFn, List.sum_ofFn]
  rfl

theorem countP_toList {n : Nat} (v : Vector BlockId n) (id : BlockId) :
    v.toList.countP (· == id) = ∑ i : Fin n, if v[i] = id then 1 else 0 := by
  rw [← sum_toList_map v fun i => if i = id then 1 else 0]
  induction v.toList with
  | nil => rfl
  | cons i rest ih =>
    rw [List.countP_cons, ih, List.map_cons, List.sum_cons, Nat.add_comm]
    simp

/-- Counting slots of the groups counts pages, for a block other than the unconnected one. -/
theorem Mirrored.count_eq_card (h : t.Mirrored) {id : BlockId} (hid : id ≠ 0) :
    t.count id = (t.holders id).card := by
  have hcard : (t.holders id).card = ∑ p : Page, if t.sparse p = id then 1 else 0 := by
    unfold holders
    rw [Finset.card_filter]
    exact Finset.sum_congr rfl fun p _ => by rw [h.lookup]
  have hgroup : ∀ g : Fin 1024, (t.groups[g].elim [] Vector.toList).countP (· == id) =
      ∑ s : Fin 1024, if t.sparse (.ofGroup g s) = id then 1 else 0 := by
    intro g
    cases hg : t.groups[g] with
    | none =>
      have hzero : ∀ s, t.sparse (.ofGroup g s) ≠ id := by
        intro s
        rw [sparse_eq, groupAt, Page.group_ofGroup, hg]
        simpa using hid.symm
      simp [hzero]
    | some ids =>
      rw [Option.elim_some, countP_toList]
      exact Finset.sum_congr rfl fun s _ => by rw [sparse_ofGroup hg s]
  unfold count
  rw [List.countP_flatMap, sum_toList_map, hcard, ← placeEquiv.symm.sum_comp, Fintype.sum_prod_type]
  exact Finset.sum_congr rfl fun g _ => hgroup g

end PageTable
end Mainboard
