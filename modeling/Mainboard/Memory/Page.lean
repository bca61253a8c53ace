import Mainboard.Memory.Block

/-!
# Pages and addresses

The bus has 2^20 pages of 4 KiB. An access is cut along page boundaries into spans, each of
which lies in one page; addresses wrap at the top of the 4 GiB. While the A20 gate is disabled,
bit 20 of an address, which is bit 8 of its page, is ignored.
-/
namespace Mainboard

/-- A page of the 4 GiB bus. -/
abbrev Page := Fin 1048576

/-- The bits of an address that pass a disabled A20 gate. -/
def a20Mask : UInt32 := 0xFFEFFFFF

/-- The offset of an address in its page. -/
def offsetInPage (addr : UInt32) : Nat := addr.toNat % 4096

theorem offsetInPage_lt (addr : UInt32) : offsetInPage addr < 4096 :=
  Nat.mod_lt _ (by decide)

def isPageAligned (addr : UInt32) : Bool := offsetInPage addr = 0

namespace Page

/-- The page of an address. -/
def ofAddr (addr : UInt32) : Page := ⟨addr.toNat / 4096, by have := addr.toNat_lt; omega⟩

/-- The page with a number, counting on from the first page after the last one. -/
def ofNumber (n : Nat) : Page := ⟨n % 1048576, Nat.mod_lt _ (by decide)⟩

/-- The first address of a page. -/
def base (p : Page) : UInt32 := UInt32.ofNat (p.val * 4096)

/-- Whether bit 20 is set in the addresses of a page. -/
def hasA20 (p : Page) : Bool := p.val / 256 % 2 = 1

/-- The page with bit 20 of its addresses set. -/
def withA20 (p : Page) : Page :=
  ⟨if p.val / 256 % 2 = 1 then p.val else p.val + 256, by have := p.isLt; split <;> omega⟩

/-- The page with bit 20 of its addresses cleared. -/
def withoutA20 (p : Page) : Page :=
  ⟨if p.val / 256 % 2 = 1 then p.val - 256 else p.val, by have := p.isLt; split <;> omega⟩

@[simp] theorem hasA20_withA20 (p : Page) : p.withA20.hasA20 = true := by
  simp only [hasA20, withA20]
  split <;> simp <;> omega

@[simp] theorem hasA20_withoutA20 (p : Page) : p.withoutA20.hasA20 = false := by
  simp only [hasA20, withoutA20]
  split <;> simp <;> omega

@[simp] theorem withoutA20_withA20 (p : Page) : p.withA20.withoutA20 = p.withoutA20 := by
  apply Fin.ext
  simp only [withA20, withoutA20]
  grind

theorem withA20_withoutA20 {p : Page} (h : p.hasA20 = true) : p.withoutA20.withA20 = p := by
  simp only [hasA20, decide_eq_true_eq] at h
  apply Fin.ext
  simp only [withA20, withoutA20]
  grind

theorem withoutA20_eq_self {p : Page} (h : p.hasA20 = false) : p.withoutA20 = p := by
  simp only [hasA20, decide_eq_false_iff_not] at h
  apply Fin.ext
  simp only [withoutA20]
  split <;> omega

/-- The pages of `length` bytes from the page of `start` on. -/
def range (start : UInt32) (length : Nat) : List Page :=
  (List.range (length / 4096)).map fun i => ofNumber (start.toNat / 4096 + i)

end Page

/-- A stretch of bytes inside one page. -/
structure Span where
  addr : UInt32
  length : Nat
  deriving DecidableEq, Repr

/-- Bytes to be stored inside one page. -/
structure Piece where
  addr : UInt32
  bytes : Bytes
  deriving DecidableEq, Repr

namespace Span

/-- How a word access is split: whole if it fits into a page, byte by byte otherwise. -/
def ofWord (addr : UInt32) (n : Nat) : List Span :=
  if offsetInPage addr + n ≤ 4096 then [⟨addr, n⟩]
  else (List.range n).map fun i => ⟨addr + UInt32.ofNat i, 1⟩

/-- How a bulk access is split: at page boundaries. -/
def ofBulk (addr : UInt32) (n : Nat) : List Span :=
  if n = 0 then []
  else
    let room := 4096 - offsetInPage addr
    ⟨addr, min room n⟩ :: ofBulk (addr + UInt32.ofNat room) (n - room)
termination_by n
decreasing_by have := offsetInPage_lt addr; omega

/-- The spans of a word are as long as the word. -/
theorem length_flatMap_ofWord {f : Span → List α} (hf : ∀ s, (f s).length = s.length)
    (addr : UInt32) (n : Nat) : ((ofWord addr n).flatMap f).length = n := by
  unfold ofWord
  split
  · simp [hf]
  · simp [List.length_flatMap, Function.comp_def, hf, List.map_const']

theorem length_flatMap_ofBulk {f : Span → List α} (hf : ∀ s, (f s).length = s.length)
    (addr : UInt32) (n : Nat) : ((ofBulk addr n).flatMap f).length = n := by
  fun_induction ofBulk addr n with
  | case1 => rfl
  | case2 addr n hn room ih =>
    rw [List.flatMap_cons, List.length_append, ih, hf]
    dsimp only
    omega

end Span

namespace Piece

/-- Cut the bytes of a word as `Span.ofWord` does. -/
def ofWord (addr : UInt32) (src : Bytes) : List Piece :=
  if offsetInPage addr + src.length ≤ 4096 then [⟨addr, src⟩]
  else src.zipIdx.map fun (b, i) => ⟨addr + UInt32.ofNat i, [b]⟩

/-- Cut the bytes of a bulk transfer as `Span.ofBulk` does. -/
def ofBulk (addr : UInt32) (src : Bytes) : List Piece :=
  match src with
  | [] => []
  | b :: bs =>
    let room := 4096 - offsetInPage addr
    ⟨addr, (b :: bs).take room⟩ :: ofBulk (addr + UInt32.ofNat room) ((b :: bs).drop room)
termination_by src.length
decreasing_by
  have := offsetInPage_lt addr
  simp only [List.length_drop, List.length_cons]
  omega

theorem flatMap_bytes_ofWord (addr : UInt32) (src : Bytes) :
    (ofWord addr src).flatMap Piece.bytes = src := by
  unfold ofWord
  split
  · simp
  · simp [List.flatMap_map, ← List.map_eq_flatMap]

theorem flatMap_bytes_ofBulk (addr : UInt32) (src : Bytes) :
    (ofBulk addr src).flatMap Piece.bytes = src := by
  fun_induction ofBulk addr src with
  | case1 => rfl
  | case2 addr b bs room ih => rw [List.flatMap_cons, ih, List.take_append_drop]

end Piece
end Mainboard
