import Mainboard.Proofs.Machine.Setup
import Mainboard.Proofs.Machine.SnapshotRoundTrip

/-!
# A reset re-establishes the configured machine

Whatever was done to a machine, its configuration is the one that it was made with, and the image of
its BIOS is one that has been installed and can be installed again. So a reset always succeeds. It
leaves RAM and image where the configuration has them, whatever was mapped there, and both chips in
the state that the two vector bases determine. Only the sticky flags of the dispatcher remember what
was before.
-/
namespace Mainboard

variable {σ δ : Type}

/-! ## Chips -/

/-- A chip of a pair that has been set up the way a PC BIOS does. -/
def Chip.legacy (role : Role) (base : UInt8) : Chip :=
  { new role with vectorBase := base, fourWords := true }

theorem Controller.initLegacy_new (masterBase slaveBase : UInt8) :
    new.initLegacy masterBase slaveBase =
    ⟨.legacy .master (masterBase &&& 0xF8), .legacy .slave (slaveBase &&& 0xF8), false, true⟩ := rfl

theorem and_eq_self_of_mod {base : UInt8} (h : base.toNat % 8 = 0) : base &&& 0xF8 = base := by
  have hbits : ∀ b : BitVec 8, b.toNat % 8 = 0 → b &&& 0xF8#8 = b := by decide
  exact UInt8.toBitVec_inj.mp (hbits base.toBitVec h)

theorem Core.forwardIntr_of_clear [Processor σ] {c : Core σ} {master slave : Chip}
    (h : c.controller = ⟨master, slave, false, true⟩) :
    c.forwardIntr.controller = ⟨master, slave, false, false⟩ ∧
      c.forwardIntr.cpu = Processor.clearInterrupt c.cpu := by
  unfold forwardIntr Controller.takeClear Controller.takeRaise
  rw [h]
  exact ⟨rfl, rfl⟩

/-! ## The configuration -/

namespace Config

variable {config : Config}

/-- The page is below the end of RAM and not in the hole. -/
def hasRam (config : Config) (p : Page) : Prop :=
  config.mapSystemRam = true ∧ p.val * blockSize < config.ramSize.toNat ∧
    (p.val * blockSize < legacyHoleStart ∨ legacyHoleEnd ≤ p.val * blockSize)

instance (config : Config) (p : Page) : Decidable (config.hasRam p) :=
  inferInstanceAs (Decidable (_ ∧ _ ∧ _))

theorem error?_eq_none (h : config.error? = none) : config.ramSize.toNat % blockSize = 0 ∧
    config.masterVectorBase.toNat % 8 = 0 ∧ config.slaveVectorBase.toNat % 8 = 0 := by
  unfold error? at h
  split_ifs at h with hsize hblocks hcadence hmaster hslave
  rw [not_or, not_not] at hsize
  exact ⟨hsize.2, not_not.mp hmaster, not_not.mp hslave⟩

theorem mem_pageAddresses {start stop : Nat} {p : Page} (hstart : start % blockSize = 0)
    (hstop : stop % blockSize = 0) (hle : start ≤ p.val * blockSize)
    (hlt : p.val * blockSize < stop) :
    p.base ∈ pageAddresses start stop := by
  refine List.mem_map.mpr ⟨p.val - start / blockSize, List.mem_range.mpr ?_, ?_⟩
  · unfold blockSize at *
    omega
  · unfold Page.base blockSize at *
    congr 1
    omega

theorem place_of_mem_pageAddresses {start stop : Nat} {addr : UInt32}
    (hstart : start % blockSize = 0)
    (hstop : stop ≤ 2 ^ 32) (h : addr ∈ pageAddresses start stop) :
    start ≤ (Page.ofAddr addr).val * blockSize ∧ (Page.ofAddr addr).val * blockSize < stop := by
  obtain ⟨i, hi, rfl⟩ := List.mem_map.mp h
  have hcount := List.mem_range.mp hi
  have hval : (Page.ofAddr (UInt32.ofNat (start + i * blockSize))).val =
      (start + i * blockSize) % 2 ^ 32 / 4096 := congrArg (· / 4096) UInt32.toNat_ofNat'
  rw [hval]
  unfold blockSize at *
  omega

theorem mem_ramPages (hsize : config.ramSize.toNat % blockSize = 0) {p : Page}
    (h : config.hasRam p) :
    p.base ∈ config.ramPages := by
  obtain ⟨hmap, hinside, hhole⟩ := h
  have hstop : min config.ramSize.toNat legacyHoleStart % blockSize = 0 := by
    rcases min_choice config.ramSize.toNat legacyHoleStart with hmin | hmin <;> rw [hmin]
    · exact hsize
    · rfl
  unfold ramPages
  rw [if_pos hmap, List.mem_append]
  rcases hhole with hbelow | habove
  · exact Or.inl (mem_pageAddresses rfl hstop (Nat.zero_le _) (lt_min hinside hbelow))
  · exact Or.inr (mem_pageAddresses rfl hsize habove hinside)

theorem hasRam_of_mem_ramPages {addr : UInt32} (h : addr ∈ config.ramPages) :
    config.hasRam (.ofAddr addr) := by
  have hlt := config.ramSize.toNat_lt
  unfold ramPages at h
  split_ifs at h with hmap
  · rcases List.mem_append.mp h with h | h
    · obtain ⟨-, hbelow⟩ := place_of_mem_pageAddresses rfl ((min_le_left _ _).trans hlt.le) h
      exact ⟨hmap, hbelow.trans_le (min_le_left _ _), Or.inl (hbelow.trans_le (min_le_right _ _))⟩
    · obtain ⟨habove, hinside⟩ := place_of_mem_pageAddresses rfl hlt.le h
      exact ⟨hmap, hinside, Or.inr habove⟩
  · cases h

end Config

theorem Page.ofAddr_base (p : Page) : ofAddr p.base = p := by
  apply Fin.ext
  have hval : (ofAddr p.base).val = p.val * 4096 % 2 ^ 32 / 4096 :=
    congrArg (· / 4096) UInt32.toNat_ofNat'
  rw [hval]
  omega

namespace Machine

variable {m m' : Machine σ δ}

/-! ## What the pages show -/

def Covered (bios : Option Bytes) (p : Page) : Prop :=
  ∃ image, bios = some image ∧ Memory.biosStart image ≤ p.val * blockSize ∧
    p.val * blockSize < Memory.systemBiosEnd

theorem pageBlock_ramTraffic {memory : Memory} (h : memory.ArenaSafe False) {config : Config}
    (hsize : config.ramSize.toNat % blockSize = 0) (p : Page) :
    (memory.run config.ramTraffic).pageBlock p =
      if config.hasRam p then .freshRam else memory.pageBlock p := by
  let places := config.ramPages.map fun addr => (addr, Block.freshRam)
  have htraffic : config.ramTraffic = places.map fun e => .allocate e.1 e.2 := by
    unfold places Config.ramTraffic
    rw [List.map_map]
    rfl
  have hplaces : ∀ e ∈ places, ∃ addr ∈ config.ramPages, (addr, Block.freshRam) = e :=
    fun e he => List.mem_map.mp he
  have hwhole : ∀ e ∈ places, e.1.toNat % 4096 = 0 ∧ e.2.size = blockSize := by
    intro e he
    obtain ⟨addr, haddr, rfl⟩ := hplaces e he
    exact ⟨config.ramPages_aligned haddr, List.length_replicate⟩
  rw [htraffic]
  split_ifs with hp
  · refine h.pageBlock_allocations_here hwhole ?_ fun e he _ => ?_
    · exact ⟨_, List.mem_map.mpr ⟨p.base, Config.mem_ramPages hsize hp, rfl⟩, p.ofAddr_base.symm⟩
    · obtain ⟨addr, -, rfl⟩ := hplaces e he
      rfl
  · refine h.pageBlock_allocations_elsewhere hwhole fun e he hpage => hp ?_
    obtain ⟨addr, haddr, rfl⟩ := hplaces e he
    exact hpage ▸ Config.hasRam_of_mem_ramPages haddr

theorem pageBlock_installTraffic {memory : Memory} (h : memory.ArenaSafe False) {config : Config}
    (hsize : config.ramSize.toNat % blockSize = 0) {bios : Option Bytes}
    (hfits : ∀ image, bios = some image → Memory.FitsBios image) {p : Page} (hp : config.hasRam p)
    (hfree : ¬Covered bios p) :
    (memory.run (installTraffic config bios)).pageBlock p = .freshRam := by
  have hram := (pageBlock_ramTraffic h hsize p).trans (if_pos hp)
  unfold installTraffic
  rw [Memory.run_append]
  cases bios with
  | none => exact hram
  | some image =>
    refine Eq.trans ?_ hram
    refine ((h.run _).pageBlock_biosPlaces (hfits image rfl) p).trans (if_neg fun hcovered => ?_)
    exact hfree ⟨image, rfl, hcovered⟩

variable [Processor σ] [PortDevice δ]

/-! ## The reset -/

/-- The machine `m'` is the machine `m` set up as configured: RAM is zeroed where no image covers
it, the image ends at one megabyte, the gate is as it should be at reset, both chips are as the
vector bases say with nothing latched; the processor has been reset and then told to clear INTR; no
instructions are counted and no trap is armed, while the sticky flags are still there. -/
structure Reestablished (m m' : Machine σ δ) : Prop where
  config : m'.config = m.config
  bios : m'.bios = m.bios
  ram : ∀ p, m.config.hasRam p → ¬Covered m.bios p → m'.memory.pageBlock p = .freshRam
  image : ∀ image, m.bios = some image → m'.memory.ShowsBios image
  gateA20 : m'.memory.gateA20 = m.config.a20AtReset
  controller : m'.controller = ⟨.legacy .master m.config.masterVectorBase,
    .legacy .slave m.config.slaveVectorBase, false, false⟩
  cpu : m'.core.cpu = Processor.clearInterrupt (Processor.reset m.core.cpu)
  dispatcher : m'.core.dispatcher =
    { m.core.dispatcher with sinceDelivery := 0, trapArmed := false }

theorem reestablished (hsafe : m.memory.ArenaSafe False) (hconfig : m.config.error? = none)
    (hboot : m.Bootable) : m.Reestablished m.resetParts.configured := by
  obtain ⟨hsize, hmaster, hslave⟩ := Config.error?_eq_none hconfig
  have hreset : m.memory.reset.ArenaSafe False := hsafe.run [.reset]
  have hlegacy :
      m.resetParts.controller.initLegacy m.config.masterVectorBase m.config.slaveVectorBase =
      ⟨.legacy .master m.config.masterVectorBase, .legacy .slave m.config.slaveVectorBase,
        false, true⟩ := by
    change (m.ports.reset .new).2.initLegacy _ _ = _
    rw [PortBus.reset_new, Controller.initLegacy_new, and_eq_self_of_mod hmaster,
      and_eq_self_of_mod hslave]
  obtain ⟨hcontroller, hcpu⟩ := Core.forwardIntr_of_clear (c := { m.resetParts.core with
    memory := m.resetParts.configured.memory
    controller := _ }) hlegacy
  constructor
  case config => rfl
  case bios => rfl
  case ram => exact fun p hp hfree => pageBlock_installTraffic hreset hsize hboot hp hfree
  case image =>
    intro image himage
    have hshows := (hreset.run m.config.ramTraffic).showsBios_biosPlaces (hboot image himage)
    have htraffic :
        installTraffic m.config m.bios = m.config.ramTraffic ++ Memory.biosTraffic image := by
      rw [himage]
      rfl
    rw [← Memory.run_append, ← htraffic] at hshows
    exact hshows
  case gateA20 => rfl
  case controller => exact hcontroller
  case cpu => exact hcpu
  case dispatcher => rfl

/-- After any history, restores of arbitrary bytes included, a machine still has the configuration
that it was made with and the last image of a BIOS that was accepted; a reset succeeds and sets it
up as these say, whatever was mapped over RAM and in whatever state its chips were. -/
theorem reset_reestablishes_configuration {config : Config} {cpu : σ} {regions : Array Region}
    {m₀ : Machine σ δ} (hnew : new config cpu regions = .ok m₀) (ops : List (Operation σ δ)) :
    let m := m₀.run ops
    m.config = config ∧ m.bios = (ops.filterMap Operation.image?).getLast? ∧
      ∃ m', m.reset = .ok () m' ∧ m.Reestablished m' := by
  intro m
  obtain ⟨hconfig₀, hbios₀⟩ := setup_new hnew
  obtain ⟨hconfig, hbios⟩ := m₀.setup_run ops
  have hboot : m.Bootable := bootable_run hnew ops
  have hsafe : m.memory.ArenaSafe False := by
    unfold m
    rw [memory_run, memory_new hnew]
    exact ((Memory.arenaSafe_new config.ramSize regions False).run _).run _
  have hvalid : m.config.error? = none := by
    unfold m
    rw [hconfig, hconfig₀]
    exact (new_eq_ok_iff.mp hnew).1
  refine ⟨hconfig.trans hconfig₀, ?_, _, reset_of_bootable hboot, reestablished hsafe hvalid hboot⟩
  rw [hbios, hbios₀, Option.or_none]

/-- A machine with ROM in the place of RAM, a chip that is being initialised and an armed trap is
set up again: a page of RAM at the start, and one byte of BIOS at the end of the first megabyte. -/
theorem disturbed_machine_reestablished :
    let config := { Config.default with ramSize := 0x2000 }
    let start : Machine PinLog Empty := left (assemble config ⟨[]⟩ #[]).configure
    let m := start.run [.setSystemBios [0xEA], .memory (.allocate 0 (.rom zeroPage)), .setTrap true,
      .writePort Register.masterCommand 1 0x11]
    m.controller.master.initState = .vectorBase ∧
    ∃ m', m.reset = .ok () m' ∧ m.Reestablished m' ∧ m'.memory.pageBlock 0 = .freshRam ∧
      ∃ data, m'.memory.pageBlock 0xFF = .rom data ∧ data[4095]? = some 0xEA := by
  intro config start m
  have hnew : new config ⟨[]⟩ #[] = .ok start := new_eq_ok_iff.mpr ⟨by decide, rfl⟩
  obtain ⟨hconfig, hbios, m', hreset, h⟩ := reset_reestablishes_configuration hnew
    [.setSystemBios [0xEA], .memory (.allocate 0 (.rom zeroPage)), .setTrap true,
      .writePort Register.masterCommand 1 0x11]
  have himage : m.bios = some [0xEA] := hbios.trans (by decide)
  refine ⟨by decide +kernel, m', hreset, h, h.ram 0 ?_ ?_, ?_⟩
  · rw [hconfig]
    decide
  · rintro ⟨image, hsome, hcovered, -⟩
    rw [himage] at hsome
    cases hsome
    exact absurd hcovered (by decide)
  · obtain ⟨data, hdata, -, hbyte⟩ := h.image [0xEA] himage 0xFFFFF (by decide) (by decide)
    have hpage : Page.ofAddr 0xFFFFF = 0xFF := by decide
    have hoffset : offsetInPage 0xFFFFF = 4095 := by decide
    have hlast : Memory.biosByte [0xEA] (0xFFFFF : UInt32).toNat = 0xEA := by decide
    rw [hpage] at hdata
    rw [hoffset, hlast] at hbyte
    exact ⟨data, hdata, hbyte⟩

end Machine
end Mainboard
