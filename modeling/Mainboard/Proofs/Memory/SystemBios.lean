import Mainboard.Proofs.Memory.PageMap

/-!
# Where the image of the system BIOS shows

An image is padded in front to whole pages and installed page by page, as ROM. On the bus that
means: the image ends at one megabyte, the rest of its first page floats, and all other pages stay
what they are.
-/
namespace Mainboard
namespace Memory

/-- An image that can be installed: it is not empty and fits below one megabyte. -/
def FitsBios (image : Bytes) : Prop := image ≠ [] ∧ image.length ≤ systemBiosEnd

instance (image : Bytes) : Decidable (FitsBios image) := inferInstanceAs (Decidable (_ ∧ _))

def biosStart (image : Bytes) : Nat := (systemBiosEnd - image.length) / blockSize * blockSize

def biosByte (image : Bytes) (addr : Nat) : UInt8 :=
  if addr + image.length < systemBiosEnd then 0xFF
  else image.getD (addr + image.length - systemBiosEnd) 0xFF

def ShowsBios (m : Memory) (image : Bytes) : Prop :=
  ∀ addr : UInt32, biosStart image ≤ addr.toNat → addr.toNat < systemBiosEnd →
    ∃ data, m.pageBlock (.ofAddr addr) = .rom data ∧ data.length = blockSize ∧
      data[offsetInPage addr]? = some (biosByte image addr.toNat)

def biosPlaces (image : Bytes) : List (UInt32 × Block) :=
  placeFrom (.ofNat (systemBiosEnd - (paddedImage image).length))
    ((pagesOf (paddedImage image)).map .rom)

def biosTraffic (image : Bytes) : List Transaction :=
  (biosPlaces image).map fun e => .allocate e.1 e.2

variable {m : Memory} {exact : Prop} {image : Bytes}

/-! ## The image cut into pages -/

theorem getElem?_pagesOf (image : Bytes) (i : Nat) : (pagesOf image)[i]? =
    if i * blockSize < image.length then
      some ((image.drop (i * blockSize)).take blockSize) else none := by
  fun_induction pagesOf image generalizing i with
  | case1 => simp
  | case2 b bs ih =>
    cases i with
    | zero => simp
    | succ i =>
      have hstart : (i + 1) * blockSize = blockSize + i * blockSize := by
        rw [Nat.succ_mul, Nat.add_comm]
      have hinside : i * blockSize < ((b :: bs).drop blockSize).length ↔
          (i + 1) * blockSize < (b :: bs).length := by
        rw [List.length_drop, hstart]
        omega
      rw [List.getElem?_cons_succ, ih, List.drop_drop, hstart]
      simp only [hinside, hstart]

theorem getElem?_placeFrom (start : UInt32) (blocks : List Block) (i : Nat) :
    (placeFrom start blocks)[i]? =
      blocks[i]?.map fun b => (start + UInt32.ofNat (i * blockSize), b) := by
  induction blocks generalizing start i with
  | nil => rfl
  | cons b rest ih =>
    cases i with
    | zero => simp [placeFrom]
    | succ i =>
      have hstart : start + UInt32.ofNat blockSize + UInt32.ofNat (i * blockSize) =
          start + UInt32.ofNat ((i + 1) * blockSize) := by
        rw [UInt32.add_assoc, ← UInt32.ofNat_add, Nat.succ_mul, Nat.add_comm]
      rw [placeFrom, List.getElem?_cons_succ, ih, hstart, List.getElem?_cons_succ]

theorem biosStart_mod (image : Bytes) : biosStart image % 4096 = 0 := Nat.mul_mod_left _ _

theorem FitsBios.length_paddedImage (h : FitsBios image) :
    biosStart image + (paddedImage image).length = systemBiosEnd ∧
      image.length ≤ (paddedImage image).length ∧
      biosStart image < systemBiosEnd := by
  have hpos := List.length_pos_iff.mpr h.1
  have hend := h.2
  rw [Memory.length_paddedImage]
  unfold biosStart systemBiosEnd blockSize at *
  omega

theorem getElem?_paddedImage (h : FitsBios image) {addr : Nat} (hstart : biosStart image ≤ addr)
    (hend : addr < systemBiosEnd) :
    (paddedImage image)[addr - biosStart image]? = some (biosByte image addr) := by
  obtain ⟨hlength, hle, -⟩ := h.length_paddedImage
  have hpadding : (Bytes.floating ((paddedImage image).length - image.length)).length +
      image.length = (paddedImage image).length := by
    rw [Bytes.length_floating]
    omega
  have heq : paddedImage image =
      .floating ((paddedImage image).length - image.length) ++ image := by
    rw [Memory.length_paddedImage]
    rfl
  rw [heq]
  unfold biosByte
  split_ifs with hfloat
  · rw [List.getElem?_append_left (by omega)]
    exact List.getElem?_replicate_of_lt (by omega)
  · rw [List.getElem?_append_right (by omega), List.getD_eq_getElem?_getD]
    have hindex : addr - biosStart image -
        (Bytes.floating ((paddedImage image).length - image.length)).length =
          addr + image.length - systemBiosEnd := by omega
    have hinside : addr + image.length - systemBiosEnd < image.length := by omega
    rw [hindex, List.getElem?_eq_getElem hinside]
    rfl

/-- The blocks of an image are its pages, without a gap from the first on. -/
theorem mem_biosPlaces (h : FitsBios image) {e : UInt32 × Block} : e ∈ biosPlaces image ↔
    ∃ i, biosStart image + i * blockSize < systemBiosEnd ∧
      e = (.ofNat (biosStart image + i * blockSize),
        .rom (((paddedImage image).drop (i * blockSize)).take blockSize)) := by
  obtain ⟨hlength, -, -⟩ := h.length_paddedImage
  have hstart : systemBiosEnd - (paddedImage image).length = biosStart image := by omega
  have hinside : ∀ i, i * blockSize < (paddedImage image).length ↔
      biosStart image + i * blockSize < systemBiosEnd := by
    intro i
    omega
  simp only [biosPlaces, List.mem_iff_getElem?, getElem?_placeFrom, List.getElem?_map,
    getElem?_pagesOf, hstart, hinside, ← UInt32.ofNat_add]
  refine exists_congr fun i => ?_
  split_ifs with hi
  · simp [hi, eq_comm]
  · simp [hi]

theorem biosPlaces_aligned (h : FitsBios image) {e : UInt32 × Block} (he : e ∈ biosPlaces image) :
    e.1.toNat % 4096 = 0 ∧ e.2.size = blockSize := by
  obtain ⟨hlength, -, -⟩ := h.length_paddedImage
  obtain ⟨i, hi, rfl⟩ := (mem_biosPlaces h).mp he
  have haligned := biosStart_mod image
  unfold systemBiosEnd at hi hlength
  unfold blockSize at hi
  constructor
  · rw [UInt32.toNat_ofNat', blockSize]
    omega
  · change (((paddedImage image).drop (i * blockSize)).take blockSize).length = blockSize
    rw [List.length_take, List.length_drop]
    unfold blockSize
    omega

/-! ## Installing an image -/

theorem loadSystemBios_of_fits (m : Memory) (h : FitsBios image) : m.loadSystemBios image =
    .ok () (m.run (biosTraffic image)) := by
  have haccepted : ¬(image.isEmpty = true ∨ image.length > systemBiosEnd) := by
    rw [List.isEmpty_iff, not_or, not_lt]
    exact h
  unfold loadSystemBios
  rw [if_neg haccepted]
  exact m.allocateAll_eq_ok fun e he => biosPlaces_aligned h he

theorem loadSystemBios_of_not_fits (m : Memory) (h : ¬FitsBios image) :
    m.loadSystemBios image = .error (.invalidRomImage image.length) m := by
  unfold FitsBios at h
  rw [not_and_or, not_not, not_le, ← List.isEmpty_iff] at h
  unfold loadSystemBios
  rw [if_pos h]

/-- The pages from the first one of an image up to one megabyte show the pages of the image. All
others show what they did. -/
theorem ArenaSafe.pageBlock_biosPlaces (h : m.ArenaSafe exact) (hfits : FitsBios image) (p : Page) :
    (m.run (biosTraffic image)).pageBlock p =
      if biosStart image ≤ p.val * blockSize ∧ p.val * blockSize < systemBiosEnd then
        .rom (((paddedImage image).drop (p.val * blockSize - biosStart image)).take blockSize)
      else m.pageBlock p := by
  -- which page the block number `i` is installed at
  have hpage : ∀ i, biosStart image + i * blockSize < systemBiosEnd →
      (p = .ofAddr (.ofNat (biosStart image + i * blockSize)) ↔
        p.val * blockSize = biosStart image + i * blockSize) := by
    intro i hi
    have haligned := biosStart_mod image
    have hval : (Page.ofAddr (.ofNat (biosStart image + i * blockSize))).val =
        (biosStart image + i * blockSize) % 2 ^ 32 / 4096 :=
      congrArg (· / 4096) UInt32.toNat_ofNat'
    rw [Fin.ext_iff, hval]
    unfold systemBiosEnd blockSize at *
    omega
  have hplaces := fun e he => biosPlaces_aligned hfits (e := e) he
  split_ifs with hp
  · apply h.pageBlock_allocations_here hplaces
    · let i := (p.val * blockSize - biosStart image) / blockSize
      have hi : p.val * blockSize = biosStart image + i * blockSize := by
        have haligned := biosStart_mod image
        unfold i blockSize at *
        omega
      exact ⟨_, (mem_biosPlaces hfits).mpr ⟨i, by omega, rfl⟩, (hpage i (by omega)).mpr hi⟩
    · intro e he hpe
      obtain ⟨i, hi, rfl⟩ := (mem_biosPlaces hfits).mp he
      rw [(hpage i hi).mp hpe, Nat.add_sub_cancel_left]
  · apply h.pageBlock_allocations_elsewhere hplaces
    intro e he hpe
    obtain ⟨i, hi, rfl⟩ := (mem_biosPlaces hfits).mp he
    have hval := (hpage i hi).mp hpe
    exact hp ⟨by omega, by omega⟩

theorem ArenaSafe.showsBios_biosPlaces (h : m.ArenaSafe exact) (hfits : FitsBios image) :
    (m.run (biosTraffic image)).ShowsBios image := by
  intro addr hstart hend
  obtain ⟨hlength, -, -⟩ := hfits.length_paddedImage
  have haligned := biosStart_mod image
  have hsplit : addr.toNat = (Page.ofAddr addr).val * blockSize + offsetInPage addr := by
    unfold Page.ofAddr offsetInPage blockSize
    dsimp only
    omega
  have hoffset : offsetInPage addr < blockSize := offsetInPage_lt addr
  have hcovered : biosStart image ≤ (Page.ofAddr addr).val * blockSize ∧
      (Page.ofAddr addr).val * blockSize < systemBiosEnd := by
    unfold blockSize at *
    omega
  refine ⟨_, (h.pageBlock_biosPlaces hfits _).trans (if_pos hcovered), ?_, ?_⟩
  · rw [List.length_take, List.length_drop]
    unfold systemBiosEnd blockSize at *
    omega
  · have hindex : (Page.ofAddr addr).val * blockSize - biosStart image + offsetInPage addr =
        addr.toNat - biosStart image := by omega
    rw [List.getElem?_take_of_lt hoffset, List.getElem?_drop, hindex]
    exact getElem?_paddedImage hfits hstart hend

end Memory
end Mainboard
