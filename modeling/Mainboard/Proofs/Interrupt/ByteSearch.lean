import Mainboard.Proofs.Bytes.Word
import Mainboard.Proofs.Interrupt.Priority

/-!
# The search for the first line in bytes

A chip finds the first line of a register by counting up until it meets one, with sums and shifts of
single bytes, and it compares two such counts for the line to offer. The count of a register that is
not empty ends at the distance of its first line, and nothing on the way leaves the range of a byte.
-/
namespace Mainboard

namespace Line

def toByte (l : Line) : BitVec 8 := BitVec.ofNat 8 l.val

theorem add?_toByte (l k : Line) : Word.add? l.toByte k.toByte = some (l.toByte + k.toByte) := by
  revert l k
  decide

theorem toByte_add_and (l k : Line) : (l.toByte + k.toByte) &&& 7 = (l + k).toByte := by
  revert l k
  decide

theorem shiftLeft?_toByte (l : Line) : Word.shiftLeft? 1 l.toByte = some (LineSet.single l) := by
  revert l
  decide

theorem toByte_lt_toByte {l k : Line} : l.toByte < k.toByte ↔ l < k := by
  revert l k
  decide

theorem add?_toByte_one {l k : Line} (h : l < k) : Word.add? l.toByte 1 = some (l + 1).toByte := by
  revert l k
  decide

/-- In the order `base`, `base + 1`, … of all lines, which goes round, `l` comes before `k`. -/
def Precedes (base l k : Line) : Prop := ∃ i j : Line, i < j ∧ base + i = l ∧ base + j = k

theorem precedes_iff {base l k : Line} : Precedes base l k ↔ l - base < k - base := by
  constructor
  · rintro ⟨i, j, hlt, rfl, rfl⟩
    rwa [add_sub_cancel_left, add_sub_cancel_left]
  · intro hlt
    exact ⟨l - base, k - base, hlt, add_sub_cancel base l, add_sub_cancel base k⟩

end Line

namespace LineSet

/-- What stands for the distance of no line. -/
def noDistance : BitVec 8 := 8

theorem toByte_lt_noDistance (l : Line) : l.toByte < noDistance := by
  revert l
  decide

/-- Count up from `d` to the distance of a line in the set. There is no result if a sum or a shift
leaves the range of a byte, so a count that meets no line ends there. -/
def searchFrom (s : LineSet) (base d : BitVec 8) : Option (BitVec 8) := do
  let place ← Word.add? d base
  let bit ← Word.shiftLeft? 1 (place &&& 7)
  if s &&& bit = 0 then
    match _h : Word.add? d 1 with
    | none => none
    | some next => s.searchFrom base next
  else return d
termination_by 2 ^ 8 - d.toNat
decreasing_by
  have hnext : next.toNat = d.toNat + 1 := Word.toNat_of_add? ‹Word.add? d 1 = some next›
  exact Nat.sub_lt_sub_left d.isLt (hnext ▸ Nat.lt_succ_self d.toNat)

def firstDistance (s : LineSet) (base : BitVec 8) : Option (BitVec 8) :=
  if s = empty then some noDistance else s.searchFrom base 0

theorem and_single_eq_zero_iff {s : LineSet} {l : Line} :
    s &&& single l = 0 ↔ s.contains l = false := by
  have hmem : ∀ k, (s &&& single l).contains k = (s.contains k && decide (k = l)) := by
    intro k
    rw [← contains_single]
    exact BitVec.getLsbD_and
  change s &&& single l = empty ↔ _
  rw [eq_empty_iff]
  constructor
  · intro h
    simpa [h l] using (hmem l).symm
  · intro h k
    rw [hmem]
    by_cases hk : k = l
    · rw [hk, h, Bool.false_and]
    · rw [decide_eq_false hk, Bool.and_false]

theorem searchFrom_toByte (s : LineSet) (base d : Line) :
    s.searchFrom base.toByte d.toByte =
      if s.contains (d + base) = true then some d.toByte
      else (Word.add? d.toByte 1).bind (s.searchFrom base.toByte) := by
  rw [searchFrom, Line.add?_toByte, Option.bind_eq_bind, Option.bind_some, Line.toByte_add_and,
    Line.shiftLeft?_toByte, Option.bind_some]
  by_cases hmem : s.contains (d + base) = true
  · have hbit : s &&& single (d + base) ≠ 0 := by rw [ne_eq, and_single_eq_zero_iff, hmem]; decide
    rw [if_pos hmem, if_neg hbit]
    rfl
  · rw [if_neg hmem, if_pos (and_single_eq_zero_iff.mpr (Bool.eq_false_of_not_eq_true hmem))]
    split
    · next hadd => rw [hadd, Option.bind_none]
    · next hadd => rw [hadd, Option.bind_some]

theorem searchFrom_eq_some {s : LineSet} {base d : Line} (hd : s.contains (d + base) = true)
    (e : Line)
    (hle : e ≤ d) (hskip : ∀ k, e ≤ k → k < d → s.contains (k + base) = false) :
    s.searchFrom base.toByte e.toByte = some d.toByte := by
  -- by induction on the rounds that are left
  induction hn : d.val - e.val generalizing e with
  | zero =>
    have heq : e = d := le_antisymm hle (Fin.le_def.mpr (Nat.sub_eq_zero_iff_le.mp hn))
    rw [searchFrom_toByte, heq, if_pos hd]
  | succ n ih =>
    have hlt : e < d := Fin.lt_def.mpr (by omega)
    have hnext : (e + 1).val = e.val + 1 := Fin.val_add_one_of_lt' (by omega)
    rw [searchFrom_toByte, hskip e le_rfl hlt, if_neg Bool.false_ne_true, Line.add?_toByte_one hlt,
      Option.bind_some]
    refine ih (e + 1) (Fin.le_def.mpr (by omega)) (fun k hk => hskip k (Fin.le_def.mpr ?_))
      (by omega)
    exact (Nat.le_succ _).trans (hnext.ge.trans (Fin.le_def.mp hk))

theorem not_contains_of_lt_distance? {s : LineSet} {base d k : Line} (h : s.distance? base = some d)
    (hk : k < d) : s.contains (k + base) = false := by
  by_contra hmem
  exact absurd hk (not_lt.mpr (le_of_distance? h (Bool.eq_true_of_not_eq_false hmem)))

theorem searchFrom_of_distance? {s : LineSet} {base d : Line} (h : s.distance? base = some d) :
    s.searchFrom base.toByte 0 = some d.toByte :=
  searchFrom_eq_some (contains_of_distance? h) 0 (Fin.zero_le d)
    fun _ _ hk => not_contains_of_lt_distance? h hk

theorem firstDistance_toByte (s : LineSet) (base : Line) :
    s.firstDistance base.toByte = some ((s.distance? base).elim noDistance Line.toByte) := by
  unfold firstDistance
  cases hd : s.distance? base with
  | none => rw [if_pos (distance?_eq_none_iff.mp hd)]; rfl
  | some d =>
    have hne : s ≠ empty := fun hs => by simp [distance?_eq_none_iff.mpr hs] at hd
    rw [if_neg hne, searchFrom_of_distance? hd]
    rfl

end LineSet

namespace Chip

def blockingInBytes (c : Chip) : Option LineSet := do
  let served := if c.specialMask then c.inService &&& ~~~c.mask else c.inService
  if c.specialFullyNested ∧ c.role = .master then
    let bit ← Word.shiftLeft? 1 cascadeLine.toByte
    return served &&& ~~~bit
  else return served

/-- The line that would be acknowledged next, in bytes: the first request that is not masked, if it
is nearer than what is in service. -/
def pendingInBytes (c : Chip) : Option (Option (BitVec 8)) := do
  let base := c.rotation.toByte
  let first ← (c.requests &&& ~~~c.mask).firstDistance base
  if first = LineSet.noDistance then return none
  let served ← c.blockingInBytes
  let current ← served.firstDistance base
  let place ← Word.add? first base
  return if first < current then some (place &&& 7) else none

theorem blockingInBytes_eq (c : Chip) : c.blockingInBytes = some c.blocking := by
  unfold blockingInBytes blocking
  rw [Line.shiftLeft?_toByte]
  split_ifs <;> rfl

theorem pending?_of_distance? {c : Chip} {d : Line} (h : c.waiting.distance? c.rotation = some d) :
    c.pending? =
      if d.toByte < (c.blocking.distance? c.rotation).elim LineSet.noDistance Line.toByte then
      some (d + c.rotation) else none := by
  have hfirst : (c.requests.without c.mask).distance? c.rotation = some d := h
  unfold pending?
  rw [hfirst]
  cases c.blocking.distance? c.rotation with
  | none => exact (if_pos (LineSet.toByte_lt_noDistance d)).symm
  | some served => simp only [Option.elim_some, Line.toByte_lt_toByte]

/-- The computation in bytes has a result, and it is the pending line. -/
theorem pendingInBytes_eq (c : Chip) : c.pendingInBytes = some (c.pending?.map Line.toByte) := by
  have hfirst : (c.requests &&& ~~~c.mask).firstDistance c.rotation.toByte =
      some ((c.waiting.distance? c.rotation).elim LineSet.noDistance Line.toByte) :=
    LineSet.firstDistance_toByte c.waiting c.rotation
  unfold pendingInBytes
  simp only [hfirst, blockingInBytes_eq, LineSet.firstDistance_toByte, Option.bind_eq_bind,
    Option.bind_some]
  cases hd : c.waiting.distance? c.rotation with
  | none =>
    rw [pending?_of_nothing_waiting (LineSet.distance?_eq_none_iff.mp hd)]
    exact if_pos rfl
  | some d =>
    have hne : d.toByte ≠ LineSet.noDistance := BitVec.ne_of_lt (LineSet.toByte_lt_noDistance d)
    rw [Option.elim_some, if_neg hne, Line.add?_toByte, Option.bind_some, Line.toByte_add_and,
      pending?_of_distance? hd, apply_ite (Option.map Line.toByte)]
    rfl

/-- The line is in service and not left out, as masked lines are in special mask mode and the
cascade line on a master in special fully nested mode. -/
structure HoldsBack (c : Chip) (l : Line) : Prop where
  inService : c.inService.contains l = true
  not_masked_out : ¬(c.specialMask = true ∧ c.mask.contains l = true)
  not_cascade_out : ¬(c.specialFullyNested = true ∧ c.role = .master ∧ l = cascadeLine)

theorem contains_blocking_iff {c : Chip} {l : Line} :
    c.blocking.contains l = true ↔ c.HoldsBack l := by
  rw [contains_blocking, Bool.and_eq_true, Bool.and_eq_true, Bool.not_eq_true', Bool.not_eq_true',
    ← Bool.not_eq_true, ← Bool.not_eq_true, Bool.and_eq_true, Bool.and_eq_true, Bool.and_eq_true,
    decide_eq_true_eq, decide_eq_true_eq, and_assoc (a := c.specialFullyNested = true)]
  exact ⟨fun ⟨⟨hserved, hmask⟩, hcascade⟩ => ⟨hserved, hmask, hcascade⟩,
    fun ⟨hserved, hmask, hcascade⟩ => ⟨⟨hserved, hmask⟩, hcascade⟩⟩

/-- The line is requested and not masked, no other such line comes before it in the order that
starts at the rotation, and it comes before every line that holds requests back. -/
structure Foremost (c : Chip) (l : Line) : Prop where
  requested : c.requests.contains l = true
  unmasked : c.mask.contains l = false
  first : ∀ k, c.requests.contains k = true → c.mask.contains k = false →
    ¬Line.Precedes c.rotation k l
  ahead : ∀ k, c.HoldsBack k → Line.Precedes c.rotation l k

theorem pending?_eq_some_iff_foremost {c : Chip} {l : Line} :
    c.pending? = some l ↔ c.Foremost l := by
  simp only [pending?_eq_some_iff, contains_waiting, contains_blocking_iff, ← Line.precedes_iff,
    Bool.and_eq_true, Bool.not_eq_true']
  constructor
  · rintro ⟨⟨hrequested, hunmasked⟩, hfirst, hahead⟩
    refine ⟨hrequested, hunmasked, fun k hk hmask => ?_, hahead⟩
    rw [Line.precedes_iff, not_lt]
    exact hfirst k ⟨hk, hmask⟩
  · rintro ⟨hrequested, hunmasked, hfirst, hahead⟩
    refine ⟨⟨hrequested, hunmasked⟩, fun k hk => ?_, hahead⟩
    rw [← not_lt, ← Line.precedes_iff]
    exact hfirst k hk.1 hk.2

/-- On a set that is not empty the search ends with the least distance at which a line is in the
set. The line that a chip offers is computed with no sum or shift out of range; it is the foremost
one, and there is none if no line is foremost. -/
theorem priority_resolved_exactly (c : Chip) :
    (∀ s : LineSet, s ≠ .empty → ∃ d : Line, s.firstDistance c.rotation.toByte = some d.toByte ∧
      s.contains (d + c.rotation) = true ∧ ∀ k < d, s.contains (k + c.rotation) = false) ∧
    c.pendingInBytes = some (c.pending?.map Line.toByte) ∧
    (∀ l, c.pending? = some l ↔ c.Foremost l) ∧
    (c.pending? = none ↔ ∀ l, ¬c.Foremost l) := by
  refine ⟨fun s hs => ?_, pendingInBytes_eq c, fun l => pending?_eq_some_iff_foremost, ?_⟩
  · obtain ⟨d, hd⟩ := Option.ne_none_iff_exists'.mp (mt LineSet.distance?_eq_none_iff.mp hs)
    have hsearch : s.firstDistance c.rotation.toByte = some d.toByte := by
      rw [LineSet.firstDistance_toByte, hd, Option.elim_some]
    exact ⟨d, hsearch, LineSet.contains_of_distance? hd,
      fun k hk => LineSet.not_contains_of_lt_distance? hd hk⟩
  · simp only [← pending?_eq_some_iff_foremost]
    exact Option.eq_none_iff_forall_ne_some

-- from line 6 on the order is 6, 7, 0, 1, 2, …, so line 0 comes before line 2, which is in service
example :
    { Chip.new .slave with requests := 3, inService := 4, rotation := 6 }.pending? = some 0 := by
  decide

end Chip
end Mainboard
