import Mainboard.Interrupt.Chip
import Mathlib.Tactic

/-!
# Which line is pending

The rotated order starts at a base and counts on modulo eight, so the place of a line in it is its
distance from the base. A line is pending on a chip if it is requested and not masked, no other such
line comes before it, and it comes before all that is in service and not left out by a mask mode.
-/
namespace Mainboard

namespace LineSet

theorem add_sub_base (d base : Line) : d + base - base = d := by
  revert d base
  decide

theorem distance?_eq_some_iff {s : LineSet} {base d : Line} :
    s.distance? base = some d ↔
      s.contains (d + base) = true ∧ ∀ k, s.contains k = true → d ≤ k - base := by
  constructor
  · intro h
    refine ⟨contains_of_distance? h, fun k hk => ?_⟩
    apply le_of_distance? h
    rw [sub_add_base]
    exact hk
  · rintro ⟨hd, hle⟩
    cases h : s.distance? base with
    | none =>
      rw [distance?_eq_none_iff] at h
      simp [h] at hd
    | some e =>
      have hde := hle _ (contains_of_distance? h)
      have hed := le_of_distance? h hd
      rw [add_sub_base] at hde
      rw [le_antisymm hde hed]

theorem eq_empty_iff {s : LineSet} : s = empty ↔ ∀ l, s.contains l = false := by
  constructor
  · rintro rfl
    simp
  · intro h
    apply ext
    simpa using h

theorem ne_empty_iff {s : LineSet} : s ≠ empty ↔ ∃ l, s.contains l = true := by
  rw [ne_eq, eq_empty_iff]
  simp

end LineSet

namespace Chip

def waiting (c : Chip) : LineSet := c.requests.without c.mask

@[simp] theorem contains_waiting (c : Chip) (l : Line) :
    c.waiting.contains l = (c.requests.contains l && !c.mask.contains l) :=
  LineSet.contains_without _ _ _

theorem contains_blocking (c : Chip) (l : Line) :
    c.blocking.contains l = (c.inService.contains l && !(c.specialMask && c.mask.contains l) &&
      !(c.specialFullyNested && decide (c.role = .master) && decide (l = cascadeLine))) := by
  unfold blocking
  cases c.specialMask <;> cases c.specialFullyNested <;> cases c.role <;> simp

theorem pending?_of_nothing_waiting {c : Chip} (h : c.waiting = .empty) : c.pending? = none := by
  have hnone : (c.requests.without c.mask).distance? c.rotation = none :=
    LineSet.distance?_eq_none_iff.mpr h
  unfold pending?
  rw [hnone]

theorem pending?_initialise (c : Chip) (fourWords : Bool) :
    (c.initialise fourWords).pending? = none := by
  apply pending?_of_nothing_waiting
  change LineSet.empty.without .empty = .empty
  decide

theorem pending?_of_first {c : Chip} {d : Line} (h : c.waiting.distance? c.rotation = some d) :
    c.pending? = if ∀ k, c.blocking.contains k = true → d < k - c.rotation then
      some (d + c.rotation) else none := by
  have hfirst : (c.requests.without c.mask).distance? c.rotation = some d := h
  unfold pending?
  rw [hfirst]
  cases hb : c.blocking.distance? c.rotation with
  | none =>
    rw [LineSet.distance?_eq_none_iff] at hb
    simp [hb]
  | some served =>
    obtain ⟨hmem, hle⟩ := LineSet.distance?_eq_some_iff.mp hb
    have hiff : d < served ↔ ∀ k, c.blocking.contains k = true → d < k - c.rotation := by
      constructor
      · exact fun hlt k hk => hlt.trans_le (hle k hk)
      · intro hall
        have hlt := hall _ hmem
        rwa [LineSet.add_sub_base] at hlt
    simp [hiff]

theorem pending?_eq_some_iff {c : Chip} {l : Line} :
    c.pending? = some l ↔
      c.waiting.contains l = true ∧
      (∀ k, c.waiting.contains k = true → l - c.rotation ≤ k - c.rotation) ∧
      ∀ k, c.blocking.contains k = true → l - c.rotation < k - c.rotation := by
  cases hd : c.waiting.distance? c.rotation with
  | none =>
    rw [LineSet.distance?_eq_none_iff] at hd
    simp [pending?_of_nothing_waiting hd, hd]
  | some d =>
    rw [pending?_of_first hd]
    obtain ⟨hmem, hle⟩ := LineSet.distance?_eq_some_iff.mp hd
    constructor
    · intro h
      split_ifs at h with hall
      cases h
      rw [LineSet.add_sub_base]
      exact ⟨hmem, hle, hall⟩
    · rintro ⟨hl, hfirst, hall⟩
      have hdl : d = l - c.rotation := by
        apply le_antisymm (hle l hl)
        have hld := hfirst _ hmem
        rwa [LineSet.add_sub_base] at hld
      rw [hdl, if_pos hall, LineSet.sub_add_base]

/-- A chip has a pending line exactly if some line that is requested and not masked comes before all
that blocks. -/
theorem pending?_isSome_iff {c : Chip} :
    c.pending?.isSome = true ↔ ∃ l, c.waiting.contains l = true ∧
      ∀ k, c.blocking.contains k = true → l - c.rotation < k - c.rotation := by
  rw [Option.isSome_iff_exists]
  constructor
  · rintro ⟨l, hl⟩
    obtain ⟨hw, -, hb⟩ := pending?_eq_some_iff.mp hl
    exact ⟨l, hw, hb⟩
  · rintro ⟨l, hw, hb⟩
    cases hd : c.waiting.distance? c.rotation with
    | none =>
      rw [LineSet.distance?_eq_none_iff] at hd
      simp [hd] at hw
    | some d =>
      -- the first waiting line comes before whatever another waiting line comes before
      obtain ⟨hfirst, hle⟩ := LineSet.distance?_eq_some_iff.mp hd
      refine ⟨d + c.rotation, pending?_eq_some_iff.mpr ⟨hfirst, ?_, ?_⟩⟩
      · rwa [LineSet.add_sub_base]
      · intro k hk
        rw [LineSet.add_sub_base]
        exact (hle l hw).trans_lt (hb k hk)

theorem pending?_eq_none_iff {c : Chip} :
    c.pending? = none ↔ ∀ l, c.waiting.contains l = true →
      ∃ k, c.blocking.contains k = true ∧ k - c.rotation ≤ l - c.rotation := by
  rw [← Option.not_isSome_iff_eq_none, pending?_isSome_iff]
  push Not
  rfl

theorem requested_of_pending? {c : Chip} {l : Line} (h : c.pending? = some l) :
    c.requests.contains l = true := by
  have hw := (pending?_eq_some_iff.mp h).1
  rw [contains_waiting, Bool.and_eq_true] at hw
  exact hw.1

theorem pending?_isSome_of_blocking {c c' : Chip} (h : c'.pending?.isSome = true)
    (hwaiting : c'.waiting = c.waiting) (hrotation : c'.rotation = c.rotation)
    (hblocking : ∀ k, c.blocking.contains k = true → c'.blocking.contains k = true) :
    c.pending?.isSome = true := by
  obtain ⟨l, hw, hb⟩ := pending?_isSome_iff.mp h
  rw [hwaiting] at hw
  rw [hrotation] at hb
  exact pending?_isSome_iff.mpr ⟨l, hw, fun k hk => hb k (hblocking k hk)⟩

end Chip
end Mainboard
