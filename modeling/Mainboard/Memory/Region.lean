import Std.Data.TreeMap.Lemmas
import Mainboard.Bytes.LittleEndian
import Mainboard.Text.Hex

/-!
# Device memory

A region is a bounds-checked array of bytes that belongs to a device. It may be as large as the
whole bus, so only bytes that have been written are stored and all others are zero. An access
succeeds when its end, as an unbounded number, does not pass the size; an access that fails
changes nothing.
-/
namespace Mainboard

structure Region where
  size : Nat
  cells : Std.TreeMap Nat UInt8

/-- An access that leaves the region. -/
inductive RegionError
  | outOfRange (offset length size : Nat)
  deriving DecidableEq, Repr

def RegionError.message : RegionError → String
  | .outOfRange offset length size =>
    s!"guest memory access out of range: offset={Text.hex offset} len={length} " ++
      s!"size={Text.hex size}"

namespace Region

/-- A region of `size` zeros. -/
def zeroed (size : Nat) : Region := ⟨size, ∅⟩

/-- The byte at an offset; past the end it counts as zero. -/
def byte (r : Region) (offset : Nat) : UInt8 := r.cells.getD offset 0

/-- Run an access of `length` bytes at `offset` if it stays inside. -/
def guarded (r : Region) (offset length : Nat) (access : α) : Except RegionError α :=
  if offset + length ≤ r.size then .ok access
  else .error (.outOfRange offset length r.size)

def read (r : Region) (offset length : Nat) : Except RegionError Bytes :=
  r.guarded offset length ((List.range length).map fun i => r.byte (offset + i))

/-- Store bytes in ascending order of their offsets, without a check. -/
def store (cells : Std.TreeMap Nat UInt8) (offset : Nat) : Bytes → Std.TreeMap Nat UInt8
  | [] => cells
  | b :: bs => store (cells.insert offset b) (offset + 1) bs

def write (r : Region) (offset : Nat) (src : Bytes) : Except RegionError Region :=
  r.guarded offset src.length { r with cells := store r.cells offset src }

/-- Zero a range by forgetting what was written there. -/
def clearRange (r : Region) (offset length : Nat) : Except RegionError Region :=
  r.guarded offset length
    { r with cells := r.cells.filter fun i _ => i < offset || offset + length ≤ i }

/-- Zero a range by writing zeros, the way a device without a faster one does it. -/
def clearRangeByWriting (r : Region) (offset length : Nat) : Except RegionError Region :=
  r.write offset (List.replicate length 0)

/-- Read a little-endian word of `width` bytes. -/
def readWord (r : Region) (offset width : Nat) : Except RegionError Nat := do
  let bs ← r.read offset width
  return LittleEndian.ofBytes bs

/-- Write the low `width` bytes of `value`, least significant first. -/
def writeWord (r : Region) (offset width value : Nat) : Except RegionError Region :=
  r.write offset (LittleEndian.toBytes width value)

@[simp] theorem byte_zeroed (size offset : Nat) : (zeroed size).byte offset = 0 := by
  simp [zeroed, byte]

theorem getD_store (cells : Std.TreeMap Nat UInt8) (offset : Nat) (src : Bytes) (i : Nat) :
    (store cells offset src).getD i 0 =
      if offset ≤ i ∧ i < offset + src.length then src.getD (i - offset) 0
      else cells.getD i 0 := by
  induction src generalizing cells offset with
  | nil => simp only [store, List.length_nil]; rw [if_neg (by omega)]
  | cons b bs ih =>
    rw [store, ih]
    by_cases hi : i = offset
    · subst hi
      rw [if_neg (by omega), if_pos (by simp)]
      simp
    · have hne : ¬compare offset i = .eq := by
        simp only [Nat.compare_eq_eq]
        omega
      rw [Std.TreeMap.getD_insert, if_neg hne, List.length_cons]
      by_cases hin : offset + 1 ≤ i ∧ i < offset + 1 + bs.length
      · rw [if_pos hin, if_pos (by omega)]
        obtain ⟨k, rfl⟩ : ∃ k, i = offset + 1 + k := ⟨i - (offset + 1), by omega⟩
        have h₁ : offset + 1 + k - (offset + 1) = k := by omega
        have h₂ : offset + 1 + k - offset = k + 1 := by omega
        rw [h₁, h₂, List.getD_cons_succ]
      · rw [if_neg hin, if_neg (by omega)]

end Region
end Mainboard
