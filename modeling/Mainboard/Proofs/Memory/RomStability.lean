import Mainboard.Proofs.Memory.Promotion
import Mainboard.Proofs.Memory.Replacement
import Mainboard.Proofs.Memory.SystemBios

/-!
# ROM stays what it is

A store into ROM is swallowed and a clear passes it by, so what is installed as ROM is read until
the page is mapped anew. For the image of the system BIOS this includes the accesses that reach it
with bit 20 of the address set while the gate is disabled.
-/
namespace Mainboard
namespace Memory

/-- Under both states of the gate, at every address that the gate lets through to the place of an
image, its byte is read, and a floating one in front of it up to the start of the page. -/
structure ReadsImage (m : Memory) (image : Bytes) : Prop where
  inside : ∀ gate addr i, i < image.length →
    ((m.setGateA20 gate).effective addr).toNat = 0x100000 - image.length + i →
      some ((m.setGateA20 gate).byteAt addr) = image[i]?
  front : ∀ gate addr,
    (0x100000 - image.length) / 4096 * 4096 ≤ ((m.setGateA20 gate).effective addr).toNat →
      ((m.setGateA20 gate).effective addr).toNat < 0x100000 - image.length →
        (m.setGateA20 gate).byteAt addr = 0xFF

/-- Outside of the pages of an image, every address shows the same block and the same byte under
both states of the gate. -/
def KeepsOutside (m : Memory) (image : Bytes) (m' : Memory) : Prop :=
  ∀ gate addr,
    ((m.setGateA20 gate).effective addr).toNat < (0x100000 - image.length) / 4096 * 4096 ∨
      0x100000 ≤ ((m.setGateA20 gate).effective addr).toNat →
    (m'.setGateA20 gate).blockAt addr = (m.setGateA20 gate).blockAt addr ∧
      (m'.setGateA20 gate).byteAt addr = (m.setGateA20 gate).byteAt addr

variable {m m' : Memory} {exact : Prop} {image data : Bytes} {addr : UInt32} {x : UInt8}
  {reported : List Notice}

/-! ## Addresses behind the gate -/

theorem offsetInPage_effective (m : Memory) (addr : UInt32) :
    offsetInPage (m.effective addr) = offsetInPage addr := by
  have hmask : offsetInPage (addr &&& a20Mask) = offsetInPage addr := by
    have hlow : a20Mask.toNat % 2 ^ 12 = 2 ^ 12 - 1 := rfl
    unfold offsetInPage
    rw [UInt32.toNat_and, show 4096 = 2 ^ 12 from rfl, Nat.and_mod_two_pow, hlow,
      Nat.and_two_pow_sub_one_eq_mod, Nat.mod_mod]
  unfold effective
  split_ifs
  · rfl
  · exact hmask

theorem ArenaSafe.blockAt_setGateA20 (h : m.ArenaSafe exact) (gate : Bool) (addr : UInt32) :
    (m.setGateA20 gate).blockAt addr =
      m.pageBlock (.ofAddr ((m.setGateA20 gate).effective addr)) := by
  rw [ofAddr_effective]
  exact congrArg m.block (blockIdAt_setGateA20 h.coherent gate addr)

theorem byteAt_of_rom (hblock : m.blockAt addr = .rom data)
    (hbyte : data[offsetInPage addr]? = some x) : m.byteAt addr = x := by
  obtain ⟨hlt, rfl⟩ := List.getElem?_eq_some_iff.mp hbyte
  unfold byteAt readSpan
  rw [hblock]
  unfold Block.read Bytes.window
  dsimp only
  rw [List.drop_eq_getElem_cons hlt]
  rfl

/-! ## Images -/

theorem ShowsBios.byteAt (hsafe : m.ArenaSafe exact) (h : m.ShowsBios image) {gate : Bool}
    (hstart : biosStart image ≤ ((m.setGateA20 gate).effective addr).toNat)
    (hend : ((m.setGateA20 gate).effective addr).toNat < systemBiosEnd) :
    (m.setGateA20 gate).byteAt addr =
      biosByte image ((m.setGateA20 gate).effective addr).toNat := by
  obtain ⟨data, hpage, -, hbyte⟩ := h _ hstart hend
  rw [offsetInPage_effective] at hbyte
  exact byteAt_of_rom ((hsafe.blockAt_setGateA20 gate addr).trans hpage) hbyte

theorem ShowsBios.readsImage (hsafe : m.ArenaSafe exact) (h : m.ShowsBios image)
    (hfits : FitsBios image) : m.ReadsImage image where
  inside gate addr i hi haddr := by
    have hle : image.length ≤ 0x100000 := hfits.2
    have hstart : biosStart image ≤ ((m.setGateA20 gate).effective addr).toNat :=
      (Nat.div_mul_le_self _ _).trans (haddr ▸ Nat.le_add_right _ _)
    have hindex : 0x100000 - image.length + i + image.length - 0x100000 = i := by omega
    rw [h.byteAt hsafe hstart (by rw [haddr, systemBiosEnd]; omega), haddr, biosByte, systemBiosEnd,
      if_neg (by omega), hindex, List.getD_eq_getElem?_getD, List.getElem?_eq_getElem hi]
    rfl
  front gate addr hstart hend := by
    rw [h.byteAt hsafe hstart (by rw [systemBiosEnd]; omega), biosByte, systemBiosEnd,
      if_pos (by omega)]

theorem ShowsBios.evolves (h : m.ShowsBios image) (he : m.Evolves reported m') :
    m'.ShowsBios image := by
  intro addr hstart hend
  obtain ⟨data, hpage, hdata⟩ := h addr hstart hend
  exact ⟨data, he.rom _ data hpage, hdata⟩

theorem devices_run_allocations (m : Memory) (places : List (UInt32 × Block)) :
    (m.run (places.map fun e => .allocate e.1 e.2)).devices = m.devices := by
  induction places generalizing m with
  | nil => rfl
  | cons e rest ih =>
    rw [List.map_cons, run_cons, ih]
    exact Stable.devices_allocate m e.1 e.2

theorem ArenaSafe.keepsOutside_biosPlaces (h : m.ArenaSafe exact) (hfits : FitsBios image)
    (h' : (m.run (biosTraffic image)).ArenaSafe exact) :
    m.KeepsOutside image (m.run (biosTraffic image)) := by
  intro gate addr houtside
  have hgate : ((m.run (biosTraffic image)).setGateA20 gate).effective addr =
      (m.setGateA20 gate).effective addr := rfl
  have hblock : ((m.run (biosTraffic image)).setGateA20 gate).blockAt addr =
      (m.setGateA20 gate).blockAt addr := by
    rw [h'.blockAt_setGateA20, h.blockAt_setGateA20, hgate, h.pageBlock_biosPlaces hfits, if_neg]
    generalize (m.setGateA20 gate).effective addr = shown at houtside
    have hval : (Page.ofAddr shown).val = shown.toNat / 4096 := rfl
    rw [hval]
    unfold biosStart systemBiosEnd blockSize
    omega
  exact ⟨hblock, byteAt_congr hblock (m.devices_run_allocations (biosPlaces image))⟩

/-- On every bus that a run of transactions leaves, restores of arbitrary bytes included, a page of
ROM keeps its bytes over all further transactions that do not remap: stores of any width and bulk
stores, at any address and under either state of the gate, clears and resets, and all the others. In
particular every image of the system BIOS that is not empty and fits below one megabyte is installed
so that it ends there, with floating bytes in front of it up to the start of its first page; all
other pages keep what they show; and the image is read from then on, through the alias of its
addresses too. -/
theorem rom_immutable (ramSize : UInt32) (regions : Array Region) (ts us : List Transaction)
    (hus : ∀ u ∈ us, ¬u.IsRemap) :
    let m := (new ramSize regions).run ts
    (∀ p data, m.pageBlock p = .rom data → (m.run us).pageBlock p = .rom data) ∧
    ∀ image : Bytes, 1 ≤ image.length → image.length ≤ 0x100000 →
      ∃ m', m.loadSystemBios image = .ok () m' ∧ m'.ReadsImage image ∧ m.KeepsOutside image m' ∧
        (m'.run us).ReadsImage image := by
  intro m
  have h : m.ArenaSafe False := (arenaSafe_run ramSize regions ts).weaken
  obtain ⟨_, hevolves⟩ := h.evolves_run hus
  refine ⟨hevolves.rom, fun image hpos hle => ?_⟩
  have hfits : FitsBios image := ⟨List.length_pos_iff.mp hpos, hle⟩
  have h' : (m.run (biosTraffic image)).ArenaSafe False := h.run _
  obtain ⟨_, hevolves'⟩ := h'.evolves_run hus
  have hshows := h.showsBios_biosPlaces hfits
  exact ⟨_, m.loadSystemBios_of_fits hfits, hshows.readsImage h' hfits,
    h.keepsOutside_biosPlaces hfits h', (hshows.evolves hevolves').readsImage (h'.run us) hfits⟩

/-- Three bytes below one megabyte are overwritten through their alias, cleared, and overwritten by
a word that reaches into the page above. They are read as before, and so is the floating byte in
front. -/
theorem small_image_stays :
    let m := (new 0x200000 #[]).run [.allocate 0x100000 .freshRam]
    let image : Bytes := [0x11, 0x22, 0x33]
    let us : List Transaction := [.setGateA20 false, .copyIn 0x1FFFFC [1, 2, 3, 4], .clear,
      .setGateA20 true, .writeWord 0xFFFFE 8 0, .reset]
    (∀ u ∈ us, ¬u.IsRemap) ∧ (1 ≤ image.length ∧ image.length ≤ 0x100000) ∧
      ∃ m', m.loadSystemBios image = .ok () m' ∧
        ((m'.run us).setGateA20 true).byteAt 0xFFFFD = 0x11 ∧
        ((m'.run us).setGateA20 false).byteAt 0x1FFFFF = 0x33 ∧
        ((m'.run us).setGateA20 false).byteAt 0x1FFFFC = 0xFF := by
  intro m image us
  have hus : ∀ u ∈ us, ¬u.IsRemap := by decide
  have hpos : 1 ≤ image.length := by decide
  have hle : image.length ≤ 0x100000 := by decide
  have hmasked : ∀ (n : Memory) addr, (n.setGateA20 false).effective addr = addr &&& a20Mask :=
    fun _ _ => rfl
  obtain ⟨m', hload, -, -, hreads⟩ := (rom_immutable 0x200000 #[] _ us hus).2 image hpos hle
  refine ⟨hus, ⟨hpos, hle⟩, m', hload, ?_, ?_, ?_⟩
  · exact Option.some.inj (hreads.inside true 0xFFFFD 0 (by decide) rfl)
  · exact Option.some.inj (hreads.inside false 0x1FFFFF 2 (by decide) (by rw [hmasked]; decide))
  · exact hreads.front false 0x1FFFFC (by rw [hmasked]; decide) (by rw [hmasked]; decide)

end Memory
end Mainboard
