import Mathlib.Tactic

/-!
# Arithmetic that does not wrap

A sum of words may be too large for a word, and a shift may be as wide as the word or wider. These
operations have no result then, so a computation with them that has a result never wraps.
-/
namespace Mainboard.Word

variable {w : Nat}

def add? (a b : BitVec w) : Option (BitVec w) := if a.uaddOverflow b then none else some (a + b)

def shiftLeft? (a n : BitVec w) : Option (BitVec w) :=
  if n.toNat < w then some (a <<< n.toNat) else none

theorem add?_of_lt {a b : BitVec w} (h : a.toNat + b.toNat < 2 ^ w) : add? a b = some (a + b) := by
  have hfits : a.uaddOverflow b = false := by simpa [BitVec.uaddOverflow] using h
  rw [add?, hfits, if_neg Bool.false_ne_true]

theorem add?_of_le {a b : BitVec w} (h : 2 ^ w ≤ a.toNat + b.toNat) : add? a b = none := by
  have hover : a.uaddOverflow b = true := by simpa [BitVec.uaddOverflow] using h
  rw [add?, hover, if_pos rfl]

theorem toNat_of_add? {a b c : BitVec w} (h : add? a b = some c) : c.toNat = a.toNat + b.toNat := by
  rcases Nat.lt_or_ge (a.toNat + b.toNat) (2 ^ w) with hlt | hge
  · rw [add?_of_lt hlt] at h
    cases h
    rw [BitVec.toNat_add, Nat.mod_eq_of_lt hlt]
  · rw [add?_of_le hge] at h
    cases h

end Mainboard.Word
