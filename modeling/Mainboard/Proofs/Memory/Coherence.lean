import Mainboard.Memory.PageIndex
import Mathlib.Data.Fintype.Card
import Mathlib.Tactic

/-!
# Coherence of the page index

The index is coherent if each quick part repeats the groups of its table on the pages it covers,
and the masked table shows at every page what the plain one has at the page with address bit 20
cleared. All ways to change an index keep this: installing, substituting and rebuilding.
-/
namespace Mainboard

namespace Page

/-- The mask is all ones below and above bit 20, so these two parts of an address pass. -/
theorem and_a20Mask_div {n : Nat} (h : n < 2 ^ 32) :
    (n &&& a20Mask.toNat) / 4096 =
      if n / 4096 / 256 % 2 = 1 then n / 4096 - 256 else n / 4096 := by
  have hmask : a20Mask.toNat = 0xFFEFFFFF := rfl
  have hlow : (n &&& a20Mask.toNat) % 2 ^ 20 = n % 2 ^ 20 := by
    rw [Nat.and_mod_two_pow, hmask]
    exact Nat.and_two_pow_sub_one_of_lt_two_pow (Nat.mod_lt _ (by decide))
  have hbit : (n &&& a20Mask.toNat) / 2 ^ 20 % 2 ^ 1 = 0 := by
    rw [Nat.and_div_two_pow, Nat.and_mod_two_pow, hmask]
    simp
  have hhigh : (n &&& a20Mask.toNat) / 2 ^ 21 = n / 2 ^ 21 := by
    rw [Nat.and_div_two_pow, hmask]
    have hlt : n / 2 ^ 21 < 2 ^ 11 := by omega
    exact Nat.and_two_pow_sub_one_of_lt_two_pow hlt
  generalize n &&& a20Mask.toNat = k at *
  split <;> omega

theorem ofAddr_and_a20Mask (addr : UInt32) :
    ofAddr (addr &&& a20Mask) = (ofAddr addr).withoutA20 := by
  apply Fin.ext
  have h := and_a20Mask_div addr.toNat_lt
  rw [← UInt32.toNat_and] at h
  exact h

theorem withoutA20_ne {p : Page} (hp : p.hasA20 = true) (q : Page) : q.withoutA20 ≠ p := by
  rintro rfl
  simp at hp

/-- A page with bit 20 clear shows in the masked table at itself and at the page above it. -/
theorem withoutA20_eq_iff {p : Page} (hp : p.hasA20 = false) (q : Page) :
    q.withoutA20 = p ↔ q = p ∨ q = p.withA20 := by
  constructor
  · rintro rfl
    cases hq : q.hasA20 with
    | false => exact Or.inl (withoutA20_eq_self hq).symm
    | true => exact Or.inr (withA20_withoutA20 hq).symm
  · rintro (rfl | rfl)
    · exact withoutA20_eq_self hp
    · rw [withoutA20_withA20, withoutA20_eq_self hp]

end Page

namespace PageTable

/-- The quick part lies within the bus and repeats the groups on the pages it covers. -/
structure Mirrored (t : PageTable) : Prop where
  size_le : t.quick.size ≤ 1048576
  agree : ∀ p id, t.quick? p = some id → id = t.sparse p

/-- Some slot of the table, quick or in a group, has this content. -/
def Holds (t : PageTable) (id : BlockId) : Prop :=
  id ∈ t.quick ∨ ∃ ids : Group, some ids ∈ t.groups ∧ id ∈ ids

theorem Mirrored.lookup {t : PageTable} (h : t.Mirrored) (p : Page) :
    t.lookup p = t.sparse p := by
  unfold PageTable.lookup
  cases hq : t.quick? p with
  | none => rfl
  | some id => exact h.agree p id hq

theorem Mirrored.exists_sparse {t : PageTable} (h : t.Mirrored) {id : BlockId}
    (hid : t.Holds id) : ∃ p, t.sparse p = id := by
  rcases hid with hq | ⟨ids, hgroup, hmem⟩
  · obtain ⟨i, hi, rfl⟩ := Array.mem_iff_getElem.mp hq
    let p : Page := ⟨i, Nat.lt_of_lt_of_le hi h.size_le⟩
    have hp : t.quick? p = some t.quick[i] := Array.getElem?_eq_getElem hi
    exact ⟨p, (h.agree p _ hp).symm⟩
  · obtain ⟨g, hg, hat⟩ := Vector.mem_iff_getElem.mp hgroup
    obtain ⟨s, hs, rfl⟩ := Vector.mem_iff_getElem.mp hmem
    exact ⟨.ofGroup ⟨g, hg⟩ ⟨s, hs⟩, sparse_ofGroup hat ⟨s, hs⟩⟩

theorem mirrored_empty {quickPages : Nat} (h : quickPages ≤ 1048576) :
    (empty quickPages).Mirrored where
  size_le := by simpa [empty] using h
  agree := by
    intro p id hp
    simp only [quick?, empty] at hp
    rw [sparse_empty, Array.eq_of_mem_replicate (Array.mem_of_getElem? hp)]

theorem Mirrored.store {t : PageTable} (h : t.Mirrored) (p : Page) (id : BlockId) :
    (t.store p id).Mirrored where
  size_le := by simpa using h.size_le
  agree := by
    intro q i hq
    rw [quick?_store] at hq
    rw [sparse_store]
    split_ifs at hq ⊢ with hqp
    · cases hold : t.quick? q with
      | none => simp [hold] at hq
      | some old => simpa [hold] using hq.symm
    · exact h.agree q i hq

/-- A group that does not exist holds the unconnected block, which is not what is replaced. -/
theorem sparse_substitute (t : PageTable) {old : BlockId} (hold : old ≠ 0) (new : BlockId)
    (p : Page) :
    (t.substitute old new).sparse p = if t.sparse p = old then new else t.sparse p := by
  have hgroups : (t.substitute old new).groups[p.group] =
      t.groups[p.group].map fun g => g.map fun id => if id = old then new else id := by
    simp [substitute]
  rw [sparse_eq, sparse_eq, groupAt, groupAt, hgroups]
  cases t.groups[p.group] with
  | none => simp [hold.symm]
  | some ids => simp

theorem quick?_substitute (t : PageTable) (old new : BlockId) (p : Page) :
    (t.substitute old new).quick? p =
      (t.quick? p).map fun id => if id = old then new else id := by
  simp [quick?, substitute]

theorem Mirrored.substitute {t : PageTable} (h : t.Mirrored) {old : BlockId} (hold : old ≠ 0)
    (new : BlockId) : (t.substitute old new).Mirrored where
  size_le := by simpa [PageTable.substitute] using h.size_le
  agree := by
    intro p id hp
    rw [quick?_substitute] at hp
    rw [sparse_substitute t hold]
    obtain ⟨i, hi, rfl⟩ := Option.map_eq_some_iff.mp hp
    rw [h.agree p i hi]

theorem mem_occupied {t : PageTable} {p : Page} {id : BlockId} :
    (p, id) ∈ t.occupied ↔ t.sparse p = id ∧ id ≠ 0 := by
  have hmem : ∀ g, (p, id) ∈ t.occupiedIn g ↔ g = p.group ∧ t.sparse p = id ∧ id ≠ 0 := by
    intro g
    unfold occupiedIn
    cases hg : t.groups[g] with
    | none =>
      simp only [List.not_mem_nil, false_iff]
      rintro ⟨rfl, hid, hne⟩
      exact hne (hid.symm.trans (sparse_of_none hg))
    | some ids =>
      simp only [List.mem_filterMap, List.mem_finRange, true_and]
      constructor
      · rintro ⟨s, hs⟩
        split_ifs at hs with hne
        simp only [Option.some.injEq, Prod.mk.injEq] at hs
        obtain ⟨rfl, rfl⟩ := hs
        exact ⟨(Page.group_ofGroup g s).symm, sparse_ofGroup hg s, hne⟩
      · rintro ⟨rfl, hid, hne⟩
        have hslot := sparse_ofGroup hg p.slot
        rw [Page.ofGroup_group_slot, hid] at hslot
        refine ⟨p.slot, ?_⟩
        rw [if_neg (hslot ▸ hne), ← hslot, Page.ofGroup_group_slot]
  unfold occupied
  simp [List.mem_flatMap, hmem]

theorem sparse_foldl_store (entries : List (Page × BlockId)) (t : PageTable) (q : Page) :
    (entries.foldl (fun t (p, id) => t.store p id) t).sparse q =
      (entries.reverse.lookup q).getD (t.sparse q) := by
  induction entries generalizing t with
  | nil => rfl
  | cons e rest ih =>
    obtain ⟨p, id⟩ := e
    rw [List.foldl_cons, ih, sparse_store, List.reverse_cons, List.lookup_append]
    cases List.lookup q rest.reverse with
    | some i => rfl
    | none =>
      by_cases hqp : q = p
      · simp [hqp]
      · have hbeq : (q == p) = false := by simpa using hqp
        simp [hqp, List.lookup_cons, hbeq]

theorem Mirrored.foldl_store {t : PageTable} (h : t.Mirrored) (entries : List (Page × BlockId)) :
    (entries.foldl (fun t (p, id) => t.store p id) t).Mirrored := by
  induction entries generalizing t with
  | nil => exact h
  | cons e rest ih => exact ih (h.store e.1 e.2)

def mirror (t : PageTable) (p : Page) (id : BlockId) : PageTable :=
  if p.hasA20 then t else (t.store p id).store p.withA20 id

theorem sparse_mirror (t : PageTable) (p q : Page) (id : BlockId) :
    (t.mirror p id).sparse q = if q.withoutA20 = p then id else t.sparse q := by
  unfold mirror
  cases hp : p.hasA20 with
  | true => simp [Page.withoutA20_ne hp q]
  | false =>
    have hiff := Page.withoutA20_eq_iff hp q
    simp only [Bool.false_eq_true, if_false, sparse_store]
    by_cases h₁ : q = p <;> by_cases h₂ : q = p.withA20 <;> simp_all

theorem Mirrored.mirror {t : PageTable} (h : t.Mirrored) (p : Page) (id : BlockId) :
    (t.mirror p id).Mirrored := by
  unfold PageTable.mirror
  split
  · exact h
  · exact (h.store p id).store p.withA20 id

theorem Mirrored.foldl_mirror {t : PageTable} (h : t.Mirrored)
    (entries : List (Page × BlockId)) :
    (entries.foldl (fun t e => t.mirror e.1 e.2) t).Mirrored := by
  induction entries generalizing t with
  | nil => exact h
  | cons e rest ih => exact ih (h.mirror e.1 e.2)

/-- Entries that agree with a function on pages put its values where they reach. -/
theorem sparse_foldl_mirror {entries : List (Page × BlockId)} {f : Page → BlockId}
    (hf : ∀ e ∈ entries, e.2 = f e.1) (t : PageTable) (q : Page) :
    (entries.foldl (fun t e => t.mirror e.1 e.2) t).sparse q =
      if ∃ e ∈ entries, e.1 = q.withoutA20 then f q.withoutA20 else t.sparse q := by
  induction entries generalizing t with
  | nil => simp
  | cons e rest ih =>
    have hrest : ∀ e ∈ rest, e.2 = f e.1 := fun e he => hf e (List.mem_cons_of_mem _ he)
    have he : e.2 = f e.1 := hf e List.mem_cons_self
    rw [List.foldl_cons, ih hrest, sparse_mirror]
    by_cases hr : ∃ e ∈ rest, e.1 = q.withoutA20
    · simp [hr]
    · by_cases hq : q.withoutA20 = e.1
      · simp [hq, he]
      · simp [hr, hq, Ne.symm hq]

end PageTable

namespace PageIndex

/-- Both tables are mirrored, and the masked one shows the plain one without address bit 20. -/
structure Coherent (x : PageIndex) : Prop where
  plain : x.plain.Mirrored
  masked : x.masked.Mirrored
  sparse_masked : ∀ p, x.masked.sparse p = x.plain.sparse p.withoutA20

theorem masked_set (x : PageIndex) (p : Page) (id : BlockId) :
    (x.set p id).masked = x.masked.mirror p id := rfl

theorem maskedOf_eq (quickPages : Nat) (entries : List (Page × BlockId)) :
    maskedOf quickPages entries =
      entries.foldl (fun t e => t.mirror e.1 e.2) (.empty quickPages) := rfl

theorem coherent_empty {quickPages : Nat} (h : quickPages ≤ 1048576) (gateA20 : Bool) :
    (empty quickPages gateA20).Coherent where
  plain := PageTable.mirrored_empty h
  masked := PageTable.mirrored_empty h
  sparse_masked := by simp [empty]

theorem Coherent.set {x : PageIndex} (h : x.Coherent) (p : Page) (id : BlockId) :
    (x.set p id).Coherent where
  plain := h.plain.store p id
  masked := by
    rw [masked_set]
    exact h.masked.mirror p id
  sparse_masked := by
    intro q
    rw [masked_set, PageTable.sparse_mirror, h.sparse_masked]
    exact (PageTable.sparse_store x.plain p q.withoutA20 id).symm

theorem Coherent.setGate {x : PageIndex} (h : x.Coherent) (enabled : Bool) :
    (x.setGate enabled).Coherent := ⟨h.plain, h.masked, h.sparse_masked⟩

theorem Coherent.substitute {x : PageIndex} (h : x.Coherent) {old : BlockId} (hold : old ≠ 0)
    (new : BlockId) : (x.substitute old new).Coherent where
  plain := h.plain.substitute hold new
  masked := h.masked.substitute hold new
  sparse_masked := by
    intro p
    simp only [PageIndex.substitute]
    rw [PageTable.sparse_substitute _ hold, PageTable.sparse_substitute _ hold, h.sparse_masked]

theorem sparse_plain_ofEntries (quickPages : Nat) (gateA20 : Bool)
    (entries : List (Page × BlockId)) (p : Page) :
    (ofEntries quickPages gateA20 entries).plain.sparse p =
      (entries.reverse.lookup p).getD 0 := by
  simp [ofEntries, PageTable.sparse_foldl_store]

theorem gateA20_ofEntries (quickPages : Nat) (gateA20 : Bool) (entries : List (Page × BlockId)) :
    (ofEntries quickPages gateA20 entries).gateA20 = gateA20 := rfl

theorem mem_of_lookup {entries : List (Page × BlockId)} {p : Page} {id : BlockId}
    (h : entries.lookup p = some id) : (p, id) ∈ entries := by
  induction entries with
  | nil => simp at h
  | cons e rest ih =>
    obtain ⟨q, i⟩ := e
    rw [List.lookup_cons] at h
    cases heq : p == q with
    | true =>
      rw [heq] at h
      cases h
      rw [eq_of_beq heq]
      exact List.mem_cons_self
    | false =>
      rw [heq] at h
      exact List.mem_cons_of_mem _ (ih h)

theorem mem_of_sparse_ofEntries {quickPages : Nat} {gateA20 : Bool}
    {entries : List (Page × BlockId)} {p : Page}
    (h : (ofEntries quickPages gateA20 entries).plain.sparse p ≠ 0) :
    (p, (ofEntries quickPages gateA20 entries).plain.sparse p) ∈ entries := by
  rw [sparse_plain_ofEntries] at h ⊢
  cases hid : entries.reverse.lookup p with
  | none => simp [hid] at h
  | some id => exact List.mem_reverse.mp (mem_of_lookup hid)

/-- A rebuilt index is coherent whatever the entries are, also with pages named twice. -/
theorem coherent_ofEntries {quickPages : Nat} (h : quickPages ≤ 1048576) (gateA20 : Bool)
    (entries : List (Page × BlockId)) : (ofEntries quickPages gateA20 entries).Coherent where
  plain := (PageTable.mirrored_empty h).foldl_store entries
  masked := by
    simp only [ofEntries, maskedOf_eq]
    exact (PageTable.mirrored_empty h).foldl_mirror _
  sparse_masked := by
    intro q
    simp only [ofEntries, maskedOf_eq]
    generalize List.foldl _ (PageTable.empty quickPages) entries = plain
    rw [PageTable.sparse_foldl_mirror (f := plain.sparse)
      fun e he => (PageTable.mem_occupied.mp he).1.symm]
    split_ifs with hq
    · rfl
    · rw [PageTable.sparse_empty]
      by_contra hne
      exact hq ⟨_, PageTable.mem_occupied.mpr ⟨rfl, Ne.symm hne⟩, rfl⟩

theorem Coherent.lookup_active {x : PageIndex} (h : x.Coherent) (p : Page) :
    x.active.lookup p = x.plain.lookup (if x.gateA20 then p else p.withoutA20) := by
  unfold active
  cases x.gateA20 with
  | true => rfl
  | false => simp [h.masked.lookup, h.plain.lookup, h.sparse_masked]

theorem Coherent.active {x : PageIndex} (h : x.Coherent) : x.active.Mirrored := by
  unfold PageIndex.active
  split
  · exact h.plain
  · exact h.masked

theorem Coherent.exists_plain {x : PageIndex} (h : x.Coherent) {t : PageTable}
    (ht : t ∈ [x.plain, x.masked]) {id : BlockId} (hid : t.Holds id) :
    ∃ p, x.plain.sparse p = id := by
  rcases List.mem_pair.mp ht with rfl | rfl
  · exact h.plain.exists_sparse hid
  · obtain ⟨p, hp⟩ := h.masked.exists_sparse hid
    exact ⟨p.withoutA20, (h.sparse_masked p).symm.trans hp⟩

end PageIndex
end Mainboard
