import Mainboard.Memory.Page

/-!
# Which block answers at a page

A table keeps a flat quick part over the pages of system RAM and a sparse part over all pages in
groups that exist only where something is installed. The index has two such tables: the plain one,
and the masked one, in which each page shows what the plain table has at the page with address
bit 20 cleared. The A20 gate only selects the table that answers.
-/
namespace Mainboard

/-- A position in the arena of blocks; zero is the block of unconnected pages. -/
abbrev BlockId := Nat

/-- The blocks installed in 1024 consecutive pages. -/
abbrev Group := Vector BlockId 1024

structure PageTable where
  quick : Array BlockId
  groups : Vector (Option Group) 1024

namespace Page

/-- The group of a page. -/
def group (p : Page) : Fin 1024 := ⟨p.val / 1024, by have := p.isLt; omega⟩

/-- The place of a page in its group. -/
def slot (p : Page) : Fin 1024 := ⟨p.val % 1024, Nat.mod_lt _ (by decide)⟩

/-- The page at a place of a group. -/
def ofGroup (g s : Fin 1024) : Page := ⟨g.val * 1024 + s.val, by have := g.isLt; omega⟩

@[simp] theorem ofGroup_group_slot (p : Page) : ofGroup p.group p.slot = p := by
  apply Fin.ext
  simp only [ofGroup, group, slot]
  omega

@[simp] theorem group_ofGroup (g s : Fin 1024) : (ofGroup g s).group = g := by
  apply Fin.ext
  simp only [ofGroup, group]
  omega

@[simp] theorem slot_ofGroup (g s : Fin 1024) : (ofGroup g s).slot = s := by
  apply Fin.ext
  simp only [ofGroup, slot]
  omega

theorem eq_of_group_slot {p q : Page} (hg : p.group = q.group) (hs : p.slot = q.slot) :
    p = q := by
  rw [← ofGroup_group_slot p, ← ofGroup_group_slot q, hg, hs]

end Page

namespace PageTable

/-- A table with no page installed. -/
def empty (quickPages : Nat) : PageTable :=
  ⟨Array.replicate quickPages 0, Vector.replicate 1024 none⟩

/-- What the quick part says, if it covers the page. -/
def quick? (t : PageTable) (p : Page) : Option BlockId := t.quick[p.val]?

def sparse (t : PageTable) (p : Page) : BlockId :=
  match t.groups[p.group] with
  | some g => g[p.slot]
  | none => 0

def lookup (t : PageTable) (p : Page) : BlockId := (t.quick? p).getD (t.sparse p)

/-- Put a block at a place of the groups. A group appears with the first block installed in it; the
place of an existing group is emptied first so that it can be updated in place. -/
def setInGroups (groups : Vector (Option Group) 1024) (p : Page) (id : BlockId) :
    Vector (Option Group) 1024 :=
  match groups[p.group] with
  | some g => (groups.set p.group none).set p.group (some (g.set p.slot id))
  | none =>
    if id = 0 then groups
    else groups.set p.group (some ((Vector.replicate 1024 0).set p.slot id))

def store : PageTable → Page → BlockId → PageTable
  | ⟨quick, groups⟩, p, id => ⟨quick.setIfInBounds p.val id, setInGroups groups p id⟩

/-- Put `new` wherever the table has `old`. -/
def substitute (t : PageTable) (old new : BlockId) : PageTable :=
  let swap (id : BlockId) : BlockId := if id = old then new else id
  { quick := t.quick.map swap, groups := t.groups.map fun g => g.map fun g => g.map swap }

/-- The number of pages at which a block is installed. -/
def count (t : PageTable) (id : BlockId) : Nat :=
  (t.groups.toList.flatMap fun g => (g.elim [] Vector.toList)).countP (· == id)

/-- The installed pages of one group, in ascending order. -/
def occupiedIn (t : PageTable) (g : Fin 1024) : List (Page × BlockId) :=
  match t.groups[g] with
  | none => []
  | some ids => (List.finRange 1024).filterMap fun s =>
      if ids[s] = 0 then none else some (.ofGroup g s, ids[s])

/-- The pages with a block installed, in ascending order. -/
def occupied (t : PageTable) : List (Page × BlockId) :=
  (List.finRange 1024).flatMap t.occupiedIn

@[simp] theorem sparse_empty (quickPages : Nat) (p : Page) : (empty quickPages).sparse p = 0 := by
  simp [sparse, empty]

/-- A group of the sparse part; one that does not exist has nothing installed. -/
def groupAt (t : PageTable) (g : Fin 1024) : Group := t.groups[g].getD (Vector.replicate 1024 0)

theorem sparse_eq (t : PageTable) (p : Page) : t.sparse p = (t.groupAt p.group)[p.slot] := by
  unfold sparse groupAt
  cases t.groups[p.group] <;> simp

theorem sparse_ofGroup {t : PageTable} {g : Fin 1024} {ids : Group}
    (h : t.groups[g] = some ids) (s : Fin 1024) : t.sparse (.ofGroup g s) = ids[s] := by
  simp [sparse_eq, groupAt, h]

theorem sparse_of_none {t : PageTable} {p : Page} (h : t.groups[p.group] = none) :
    t.sparse p = 0 := by
  simp [sparse_eq, groupAt, h]

theorem setInGroups_some {groups : Vector (Option Group) 1024} {p : Page} {g : Group}
    (h : groups[p.group] = some g) (id : BlockId) :
    setInGroups groups p id = groups.set p.group (some (g.set p.slot id)) := by
  unfold setInGroups
  rw [h]
  simp

theorem setInGroups_none {groups : Vector (Option Group) 1024} {p : Page}
    (h : groups[p.group] = none) (id : BlockId) :
    setInGroups groups p id =
      if id = 0 then groups
      else groups.set p.group (some ((Vector.replicate 1024 0).set p.slot id)) := by
  unfold setInGroups
  rw [h]

@[simp] theorem quick_store (t : PageTable) (p : Page) (id : BlockId) :
    (t.store p id).quick = t.quick.setIfInBounds p.val id := rfl

@[simp] theorem groups_store (t : PageTable) (p : Page) (id : BlockId) :
    (t.store p id).groups = setInGroups t.groups p id := rfl

theorem groupAt_store (t : PageTable) (p : Page) (id : BlockId) (g : Fin 1024) :
    (t.store p id).groupAt g =
      if g = p.group then (t.groupAt g).set p.slot id else t.groupAt g := by
  have hne : ∀ {h : g ≠ p.group}, p.group.val ≠ g.val := fun {h} hv => h (Fin.ext hv.symm)
  unfold groupAt
  rw [groups_store]
  cases hp : t.groups[p.group] with
  | some ids =>
    rw [setInGroups_some hp]
    by_cases hg : g = p.group
    · subst hg
      rw [hp]
      simp
    · simp [hg, hne (h := hg)]
  | none =>
    rw [setInGroups_none hp]
    by_cases hid : id = 0
    · by_cases hg : g = p.group
      · subst hg hid
        rw [if_pos rfl, if_pos rfl, hp]
        ext i hi
        simp
      · simp [hid, hg]
    · by_cases hg : g = p.group
      · subst hg
        rw [hp]
        simp [hid]
      · simp [hid, hg, hne (h := hg)]

theorem sparse_store (t : PageTable) (p q : Page) (id : BlockId) :
    (t.store p id).sparse q = if q = p then id else t.sparse q := by
  rw [sparse_eq, sparse_eq, groupAt_store]
  by_cases hg : q.group = p.group
  · by_cases hs : q.slot = p.slot
    · simp [Page.eq_of_group_slot hg hs]
    · have hq : q ≠ p := fun h => hs (by rw [h])
      have hs' : p.slot.val ≠ q.slot.val := fun h => hs (Fin.ext h.symm)
      simp [hg, hq, hs']
  · have hq : q ≠ p := fun h => hg (by rw [h])
    simp [hg, hq]

theorem quick?_store (t : PageTable) (p q : Page) (id : BlockId) :
    (t.store p id).quick? q =
      if q = p then (t.quick? q).map fun _ => id else t.quick? q := by
  unfold quick?
  rw [quick_store]
  by_cases h : q = p
  · subst h
    simp only [↓reduceIte, Array.getElem?_setIfInBounds_self]
    by_cases hlt : q.val < t.quick.size <;> simp [hlt]
  · have : p.val ≠ q.val := fun hv => h (Fin.ext hv.symm)
    simp [h, Array.getElem?_setIfInBounds_ne, this]

end PageTable

structure PageIndex where
  plain : PageTable
  masked : PageTable
  gateA20 : Bool

namespace PageIndex

def empty (quickPages : Nat) (gateA20 : Bool) : PageIndex :=
  ⟨.empty quickPages, .empty quickPages, gateA20⟩

/-- The table that answers under the current state of the gate. -/
def active (x : PageIndex) : PageTable := if x.gateA20 then x.plain else x.masked

def setGate (x : PageIndex) (enabled : Bool) : PageIndex := { x with gateA20 := enabled }

/-- Install a block at a page. A page with address bit 20 clear shows in the masked table at both
of its places. -/
def set (x : PageIndex) (p : Page) (id : BlockId) : PageIndex :=
  { x with
    plain := x.plain.store p id
    masked := if p.hasA20 then x.masked else (x.masked.store p id).store p.withA20 id }

def substitute (x : PageIndex) (old new : BlockId) : PageIndex :=
  { x with plain := x.plain.substitute old new, masked := x.masked.substitute old new }

/-- The masked table that belongs to a list of installed pages. -/
def maskedOf (quickPages : Nat) (entries : List (Page × BlockId)) : PageTable :=
  entries.foldl
    (fun t (p, id) => if p.hasA20 then t else (t.store p id).store p.withA20 id)
    (.empty quickPages)

/-- The index with the given pages installed, later entries taking precedence. -/
def ofEntries (quickPages : Nat) (gateA20 : Bool) (entries : List (Page × BlockId)) :
    PageIndex :=
  let plain := entries.foldl (fun t (p, id) => t.store p id) (PageTable.empty quickPages)
  ⟨plain, maskedOf quickPages plain.occupied, gateA20⟩

end PageIndex
end Mainboard
