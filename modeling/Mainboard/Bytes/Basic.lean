/-!
# Byte strings and fixed-size storage

Storage of a page or a payload is a list of bytes. Reading past the end of a storage pads with
the value of a floating bus, `0xFF`, and writing past the end drops the excess, so both
operations are total at every offset and a write never changes the length.
-/
namespace Mainboard

/-- A string of bytes, in address order. -/
abbrev Bytes := List UInt8

/-- A page of zeros, built once and shared by all untouched pages. -/
def zeroPage : Bytes := List.replicate 4096 0

namespace Bytes

/-- A string of `n` zeros; a whole page of them is the shared one. -/
def zeros (n : Nat) : Bytes :=
  if n = 4096 then zeroPage else List.replicate n 0

theorem zeros_eq (n : Nat) : zeros n = List.replicate n 0 := by
  unfold zeros zeroPage
  split <;> simp_all

@[simp] theorem length_zeros (n : Nat) : (zeros n).length = n := by
  simp [zeros_eq]

/-- What `n` bytes of a bus that nobody drives read as. -/
def floating (n : Nat) : Bytes := List.replicate n 0xFF

@[simp] theorem length_floating (n : Nat) : (floating n).length = n := by
  simp [floating]

/-- The `n` bytes at `offset`; bytes past the end of the storage float. -/
def window (data : Bytes) (offset n : Nat) : Bytes :=
  let inside := (data.drop offset).take n
  inside ++ floating (n - inside.length)

@[simp] theorem length_window (data : Bytes) (offset n : Nat) :
    (window data offset n).length = n := by
  simp only [window, List.length_append, List.length_take, List.length_drop, length_floating]
  omega

/-- Store `src` at `offset`; bytes that would fall past the end of the storage are dropped. -/
def overwrite (data : Bytes) (offset : Nat) (src : Bytes) : Bytes :=
  let kept := src.take (data.length - offset)
  data.take offset ++ kept ++ data.drop (offset + kept.length)

@[simp] theorem length_overwrite (data : Bytes) (offset : Nat) (src : Bytes) :
    (overwrite data offset src).length = data.length := by
  simp only [overwrite, List.length_append, List.length_take, List.length_drop]
  omega

/-- The byte at `i` after a store is the stored one inside the range and the old one elsewhere. -/
theorem getElem?_overwrite (data : Bytes) (offset : Nat) (src : Bytes) (i : Nat) :
    (overwrite data offset src)[i]? =
      if offset ≤ i ∧ i < offset + src.length ∧ i < data.length then src[i - offset]?
      else data[i]? := by
  by_cases hi : i < data.length
  · simp only [overwrite, List.getElem?_append, List.length_append, List.length_take,
      List.getElem?_take, List.getElem?_drop]
    grind
  · rw [if_neg (by omega), List.getElem?_eq_none (by rw [length_overwrite]; omega),
      List.getElem?_eq_none (by omega)]

/-- Replace the whole storage by zeros. -/
def zeroed (data : Bytes) : Bytes := zeros data.length

end Bytes
end Mainboard
