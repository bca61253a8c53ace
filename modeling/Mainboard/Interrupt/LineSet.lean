/-!
# Sets of interrupt lines

A chip has eight lines, and each of its registers is a set of them, one bit per line. Priorities
rotate: with base `r` the lines come in the order `r, r + 1, …, r + 7` modulo eight, and the
distance of a set is the place in this order of its first line.
-/
namespace Mainboard

/-- A line of one chip. -/
abbrev Line := Fin 8

/-- Numbers name lines. -/
instance instNeZeroLine : @NeZero Nat Zero.ofOfNat0 8 := ⟨by decide⟩

/-- A register with one bit per line. -/
abbrev LineSet := BitVec 8

namespace LineSet

def empty : LineSet := 0#8

def contains (s : LineSet) (l : Line) : Bool := s.getLsbD l.val

def single (l : Line) : LineSet := 1#8 <<< l.val

def insert (s : LineSet) (l : Line) : LineSet := s ||| single l

def erase (s : LineSet) (l : Line) : LineSet := s &&& ~~~single l

/-- The lines of `s` that are not in `t`. -/
def without (s t : LineSet) : LineSet := s &&& ~~~t

theorem contains_single (l k : Line) : (single l).contains k = decide (k = l) := by
  revert l k
  decide

@[simp] theorem contains_empty (l : Line) : empty.contains l = false := by
  simp [contains, empty]

@[simp] theorem contains_insert (s : LineSet) (l k : Line) :
    (s.insert l).contains k = (s.contains k || decide (k = l)) := by
  rw [← contains_single]
  simp [contains, insert]

@[simp] theorem contains_without (s t : LineSet) (l : Line) :
    (s.without t).contains l = (s.contains l && !t.contains l) := by
  simp only [contains, without, BitVec.getLsbD_and, BitVec.getLsbD_not]
  simp [l.isLt]

@[simp] theorem contains_erase (s : LineSet) (l k : Line) :
    (s.erase l).contains k = (s.contains k && !decide (k = l)) := by
  rw [← contains_single]
  exact contains_without s (single l) k

theorem ext {s t : LineSet} (h : ∀ l, s.contains l = t.contains l) : s = t := by
  apply BitVec.eq_of_getLsbD_eq
  intro i hi
  exact h ⟨i, hi⟩

theorem sub_add_base (l base : Line) : l - base + base = l := by
  revert l base
  decide

/-- The distance of the first line of the set in the order that starts at `base`. -/
def distance? (s : LineSet) (base : Line) : Option Line :=
  (List.finRange 8).find? fun d => s.contains (d + base)

theorem distance?_eq_none_iff {s : LineSet} {base : Line} :
    s.distance? base = none ↔ s = empty := by
  constructor
  · intro h
    apply ext
    intro l
    have := List.find?_eq_none.mp h (l - base) (List.mem_finRange _)
    simpa [sub_add_base] using this
  · rintro rfl
    simp [distance?]

theorem contains_of_distance? {s : LineSet} {base d : Line} (h : s.distance? base = some d) :
    s.contains (d + base) = true := by
  simpa using List.find?_some h

/-- No line of the set comes before the first one. -/
theorem le_of_distance? {s : LineSet} {base d k : Line} (h : s.distance? base = some d)
    (hk : s.contains (k + base) = true) : d ≤ k := by
  obtain ⟨-, i, hi, rfl, before⟩ := List.find?_eq_some_iff_getElem.mp h
  refine Fin.not_lt.mp fun hlt => ?_
  have := before k.val (by simpa [Fin.lt_def] using hlt)
  simp [hk] at this

end LineSet
end Mainboard
