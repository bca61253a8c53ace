import Mainboard.Proofs.Machine.Traffic
import Mainboard.Proofs.Memory.SystemBios

/-!
# The setup of a machine

The configuration of a machine is the one that it was made with, and the image of its BIOS is the
last one that was accepted, whatever else is done to it. An image that was accepted once is accepted
again. So applying the configuration always succeeds, and so does a reset.
-/
namespace Mainboard
namespace Machine

variable {σ δ : Type} {m : Machine σ δ}

/-! ## Applying the configuration -/

/-- The image of a machine can be installed. -/
def Bootable (m : Machine σ δ) : Prop := ∀ image, m.bios = some image → Memory.FitsBios image

def installTraffic (config : Config) (bios : Option Bytes) : List Transaction :=
  config.ramTraffic ++ bios.elim [] Memory.biosTraffic

theorem installMemory_of_fits (config : Config) {bios : Option Bytes} (memory : Memory)
    (hfits : ∀ image, bios = some image → Memory.FitsBios image) :
    installMemory config bios memory = .ok () (memory.run (installTraffic config bios)) := by
  unfold installMemory installTraffic
  rw [Memory.allocateAll_ramPages, Memory.run_append]
  cases bios with
  | none => rfl
  | some image => exact Memory.loadSystemBios_of_fits _ (hfits image rfl)

section

variable [Processor σ]

def configured (m : Machine σ δ) : Machine σ δ :=
  let memory := (m.memory.run (installTraffic m.config m.bios)).setGateA20 m.config.a20AtReset
  ((m.setMemory memory).setController
    (m.controller.initLegacy m.config.masterVectorBase m.config.slaveVectorBase)).forwardIntr

theorem configure_of_bootable (h : m.Bootable) : m.configure = .ok () m.configured := by
  unfold configure updateMemory
  rw [installMemory_of_fits m.config m.memory h]
  rfl

end

/-! ## What no operation changes -/

def Operation.image? : Operation σ δ → Option Bytes
  | .setSystemBios image => if Memory.FitsBios image then some image else none
  | _ => none

theorem fitsBios_of_image? {op : Operation σ δ} {image : Bytes} (h : op.image? = some image) :
    Memory.FitsBios image := by
  unfold Operation.image? at h
  split at h
  · split_ifs at h with hfits
    exact Option.some_inj.mp h ▸ hfits
  · cases h

theorem setup_load (m : Machine σ δ) (input : Bytes) :
    (left (m.load input)).config = m.config ∧ (left (m.load input)).bios = m.bios := by
  unfold load
  cases stage input with
  | error e => exact ⟨rfl, rfl⟩
  | ok staged =>
    dsimp only
    cases m.memory.load staged.memory with
    | error e memory => exact ⟨rfl, rfl⟩
    | ok u memory =>
      dsimp only
      cases staged.dispatcher with
      | none => exact ⟨rfl, rfl⟩
      | some saved =>
        dsimp only
        split <;> exact ⟨rfl, rfl⟩

theorem setup_setSystemBios (m : Machine σ δ) (image : Bytes) :
    (left (m.setSystemBios image)).config = m.config ∧ (left (m.setSystemBios image)).bios =
      if Memory.FitsBios image then some image else m.bios := by
  unfold setSystemBios updateMemory
  dsimp only
  split_ifs with hfits
  · rw [m.memory.loadSystemBios_of_fits hfits]
    exact ⟨rfl, rfl⟩
  · rw [m.memory.loadSystemBios_of_not_fits hfits]
    exact ⟨rfl, rfl⟩

variable [Processor σ]

theorem setup_restore (m : Machine σ δ) (input : Bytes) :
    (left (m.restore input)).config = m.config ∧ (left (m.restore input)).bios = m.bios := by
  have hload := m.setup_load input
  unfold restore
  cases hresult : m.load input <;> rw [hresult] at hload <;> exact hload

theorem setup_configure (m : Machine σ δ) :
    (left m.configure).config = m.config ∧ (left m.configure).bios = m.bios := by
  unfold configure updateMemory
  cases installMemory m.config m.bios m.memory <;> exact ⟨rfl, rfl⟩

variable {config : Config} {cpu : σ} {regions : Array Region} {m₀ : Machine σ δ}

theorem setup_new (hnew : new config cpu regions = .ok m₀) :
    m₀.config = config ∧ m₀.bios = none := by
  rw [← (new_eq_ok_iff.mp hnew).2]
  exact setup_configure (assemble config cpu regions)

variable [PortDevice δ]

theorem setup_executeSlice (m : Machine σ δ) :
    (left m.executeSlice).config = m.config ∧ (left m.executeSlice).bios = m.bios := by
  rw [left_executeSlice]
  split_ifs
  · exact setup_configure (resetParts { m with core := m.core.runSlice.2 })
  · exact ⟨rfl, rfl⟩

theorem setup_step (m : Machine σ δ) (op : Operation σ δ) :
    (m.step op).config = m.config ∧ (m.step op).bios = op.image?.or m.bios := by
  cases op with
  | setSystemBios image =>
    obtain ⟨hconfig, hbios⟩ := m.setup_setSystemBios image
    refine ⟨hconfig, hbios.trans ?_⟩
    unfold Operation.image?
    dsimp only
    split_ifs <;> rfl
  | reset => exact setup_configure m.resetParts
  | executeSlice => exact m.setup_executeSlice
  | execute =>
    change (left m.execute).config = _ ∧ (left m.execute).bios = _
    rw [left_execute]
    exact m.setup_executeSlice
  | load input => exact m.setup_load input
  | restore input => exact m.setup_restore input
  | _ => exact ⟨rfl, rfl⟩

/-- The configuration stays, and the image of the BIOS is the last one that was accepted. -/
theorem setup_run (m : Machine σ δ) (ops : List (Operation σ δ)) :
    (m.run ops).config = m.config ∧
      (m.run ops).bios = (ops.filterMap Operation.image?).getLast?.or m.bios := by
  induction ops generalizing m with
  | nil => exact ⟨rfl, rfl⟩
  | cons op ops ih =>
    obtain ⟨hconfig, hbios⟩ := m.setup_step op
    obtain ⟨hconfig', hbios'⟩ := ih (m.step op)
    refine ⟨hconfig'.trans hconfig, ?_⟩
    rw [run_cons, hbios', hbios, List.filterMap_cons]
    cases op.image? with
    | none => rfl
    | some image =>
      dsimp only
      rw [List.getLast?_cons]
      cases (ops.filterMap Operation.image?).getLast? <;> rfl

theorem bootable_run (hnew : new config cpu regions = .ok m₀) (ops : List (Operation σ δ)) :
    (m₀.run ops).Bootable := by
  intro image himage
  rw [(m₀.setup_run ops).2, (setup_new hnew).2, Option.or_none] at himage
  obtain ⟨op, -, hop⟩ := List.mem_filterMap.mp (List.mem_of_getLast? himage)
  exact fitsBios_of_image? hop

theorem reset_of_bootable (h : m.Bootable) : m.reset = .ok () m.resetParts.configured :=
  configure_of_bootable (m := m.resetParts) h

theorem executeSlice_of_bootable (h : m.Bootable) :
    m.executeSlice = .ok m.core.runSlice.1 (left m.executeSlice) := by
  have hreset : reset { m with core := m.core.runSlice.2 } = .ok () _ :=
    reset_of_bootable (m := { m with core := m.core.runSlice.2 }) h
  rw [left_executeSlice, hreset]
  unfold executeSlice
  dsimp only
  rw [hreset]
  split_ifs <;> rfl

end Machine
end Mainboard
