import Mainboard.Processor.PinLog
import Mainboard.Proofs.Interrupt.SavedPair
import Mainboard.Proofs.Machine.Pair
import Mainboard.Proofs.Memory.SnapshotRoundTrip

/-!
# A saved machine is restored

The snapshot of a machine holds those of its bus, its pair of chips and its dispatcher. Each is read
back in full by any machine with the same regions: the chips because all operations keep them in
their places, the bus because all operations are transactions of it. Nothing of the target's own
state is left in these parts. Its processor is told the level of the INTR pin, once, as it follows
from the restored chips.
-/
namespace Mainboard

namespace Dispatcher

theorem wellFormed_toContainer (d : Dispatcher) : d.toContainer.WellFormed := by
  have hword : ∀ v : UInt32, (Encode.u32 v).length < 256 ^ 4 := by simp
  have hflag : ∀ v : Bool, (Encode.bool v).length < 256 ^ 4 := by simp
  exact (Container.wellFormed_empty deviceId deviceVersion).set _ (hword _) |>.set _ (hflag _)
    |>.set _ (hflag _) |>.set _ (hflag _)

theorem length_save_lt (d : Dispatcher) : d.save.length < 256 ^ 4 := by
  have hflag : ∀ v : Bool, (Encode.bool v).length ≤ 1 := fun v => (Encode.length_bool v).le
  have hempty := (Container.length_encode_empty deviceId deviceVersion).le
  have hsave := Container.length_encode_set_le hempty Tag.sinceDelivery
      (Encode.length_u32 d.sinceDelivery).le
    |> (Container.length_encode_set_le · Tag.trapArmed (hflag d.trapArmed))
    |> (Container.length_encode_set_le · Tag.traceHit (hflag d.traceHit))
    |> (Container.length_encode_set_le · Tag.tripleFaulted (hflag d.tripleFaulted))
  exact hsave.trans_lt (by decide)

/-- The count and the flags are restored, the limits stay. -/
theorem restored_save (present d : Dispatcher) : present.restored d.save =
    .ok { d with maxBlocks := present.maxBlocks, cadence := present.cadence } := by
  have hparse : Container.parseFor d.save deviceId deviceVersion = .ok d.toContainer :=
    Container.parseFor_encode d.wellFormed_toContainer rfl
  have hsince : d.toContainer.u32 Tag.sinceDelivery = .ok (some d.sinceDelivery) :=
    Container.u32_of_bytes rfl
  have harmed : d.toContainer.bool Tag.trapArmed = .ok (some d.trapArmed) :=
    Container.bool_of_bytes rfl
  have hhit : d.toContainer.bool Tag.traceHit = .ok (some d.traceHit) := Container.bool_of_bytes rfl
  have htriple : d.toContainer.bool Tag.tripleFaulted = .ok (some d.tripleFaulted) :=
    Container.bool_of_bytes rfl
  simp only [restored, bind, Except.bind, hparse, hsince, harmed, hhit, htriple]
  rfl

end Dispatcher

namespace Machine

variable {σ δ : Type} {m t : Machine σ δ}

/-! ## The parts in one snapshot -/

def packed (memory : Bytes) (controller : Controller) (dispatcher : Dispatcher) : Container :=
  Container.empty deviceId deviceVersion
    |>.set Tag.memory memory
    |>.set Tag.controller controller.save
    |>.set Tag.dispatcher dispatcher.save

theorem wellFormed_packed {memory : Bytes} (hlength : memory.length < 2 ^ 32)
    (controller : Controller)
    (dispatcher : Dispatcher) : (packed memory controller dispatcher).WellFormed :=
  (Container.wellFormed_empty deviceId deviceVersion).set _ hlength
    |>.set _ (Controller.length_save_lt _) |>.set _ (Dispatcher.length_save_lt _)

/-- The small parts are read as they were, whatever the bytes of the bus. -/
theorem stage_packed {memory : Bytes} {controller : Controller} (hfit : controller.Fit)
    (hlength : memory.length < 2 ^ 32) (dispatcher : Dispatcher) :
    stage (packed memory controller dispatcher).encode =
      .ok ⟨memory, controller, some dispatcher.save⟩ := by
  let c := packed memory controller dispatcher
  have hparse : Container.parseFor c.encode deviceId deviceVersion = .ok c :=
    Container.parseFor_encode (wellFormed_packed hlength controller dispatcher) rfl
  have hmemory : required c Tag.memory .noAddressSpace = .ok memory := rfl
  have hcontroller : required c Tag.controller .noController = .ok controller.save := rfl
  have hdispatcher : c.bytes Tag.dispatcher = some dispatcher.save := rfl
  have hrestored := Controller.restored_save hfit Controller.fit_new
  have hchecked := Dispatcher.restored_save .default dispatcher
  simp only [stage, bind, Except.bind, c, hparse, hmemory, hcontroller, hrestored, hdispatcher,
    hchecked]
  rfl

theorem stage_save (hfit : m.controller.Fit) (hlength : m.memory.save.length < 2 ^ 32) :
    stage m.save = .ok ⟨m.memory.save, m.controller, some m.core.dispatcher.save⟩ :=
  stage_packed hfit hlength m.core.dispatcher

/-- The machine with the parts of a saved one and the bus that a restore left. -/
def withSaved (t m : Machine σ δ) (memory : Memory) : Machine σ δ :=
  { t with
    core :=
      { cpu := t.core.cpu
        memory := memory
        controller := m.controller
        dispatcher := { m.core.dispatcher with
          maxBlocks := t.core.dispatcher.maxBlocks, cadence := t.core.dispatcher.cadence } } }

theorem load_save (hfit : m.controller.Fit) (hlength : m.memory.save.length < 2 ^ 32)
    {memory : Memory}
    (hload : t.memory.load m.memory.save = .ok () memory) :
    t.load m.save = .ok () (t.withSaved m memory) := by
  have hdispatcher : t.core.dispatcher.load m.core.dispatcher.save =
      .ok () (t.withSaved m memory).core.dispatcher := by
    unfold Dispatcher.load
    rw [Dispatcher.restored_save]
    rfl
  unfold load
  rw [stage_save hfit hlength]
  dsimp only
  rw [hload]
  dsimp only [setController, setMemory]
  rw [hdispatcher]
  rfl

/-! ## What a restore takes over -/

variable [Processor σ]

/-- A restored machine has bus, chips, count and flags of the saved one, with nothing latched. Of
the target it keeps everything else; its processor has received one call for the INTR pin. -/
structure TakesOver (m' t m : Machine σ δ) : Prop where
  memory : m'.memory.SeenAs m.memory
  master : m'.controller.master = m.controller.master
  slave : m'.controller.slave = m.controller.slave
  intrRaise : m'.controller.intrRaise = false
  intrClear : m'.controller.intrClear = false
  sinceDelivery : m'.core.dispatcher.sinceDelivery = m.core.dispatcher.sinceDelivery
  trapArmed : m'.core.dispatcher.trapArmed = m.core.dispatcher.trapArmed
  traceHit : m'.core.dispatcher.traceHit = m.core.dispatcher.traceHit
  tripleFaulted : m'.core.dispatcher.tripleFaulted = m.core.dispatcher.tripleFaulted
  cpu : m'.core.cpu = if m.controller.irq?.isSome then Processor.raiseInterrupt t.core.cpu
    else Processor.clearInterrupt t.core.cpu
  devices : m'.memory.devices = t.memory.devices
  maxBlocks : m'.core.dispatcher.maxBlocks = t.core.dispatcher.maxBlocks
  cadence : m'.core.dispatcher.cadence = t.core.dispatcher.cadence
  config : m'.config = t.config
  ports : m'.ports = t.ports
  bios : m'.bios = t.bios

theorem takesOver_withSaved {memory : Memory} (hseen : memory.SeenAs m.memory)
    (hdevices : memory.devices = t.memory.devices) :
      (t.withSaved m memory).redriveIntr.TakesOver t m :=
  ⟨hseen, rfl, rfl, rfl, rfl, rfl, rfl, rfl, rfl, rfl, hdevices, rfl, rfl, rfl, rfl, rfl⟩

theorem save_withSaved {memory : Memory} (hsave : memory.save = m.memory.save)
    (hraise : m.controller.intrRaise = false) (hclear : m.controller.intrClear = false) :
    (t.withSaved m memory).redriveIntr.save = m.save := by
  have hlatches : ∀ c : Controller, c.intrRaise = false → c.intrClear = false →
      { c with intrRaise := false, intrClear := false } = c := by
    rintro ⟨master, slave, raise, clear⟩ rfl rfl
    rfl
  have hcontroller : (t.withSaved m memory).redriveIntr.controller = m.controller :=
    hlatches m.controller hraise hclear
  have hmemory : (t.withSaved m memory).redriveIntr.memory.save = m.memory.save := hsave
  unfold save toContainer
  rw [hcontroller, hmemory]
  rfl

/-! ## Histories -/

theorem handsOwn_ramTraffic (config : Config) (memory : Memory) (had : Block → Prop) :
    memory.HandsOwn had (config.ramTraffic ++ [.setGateA20 config.a20AtReset]) := by
  refine Memory.handsOwn_of_ownStorage memory had fun t ht devices => ?_
  obtain ⟨addr, rfl⟩ | rfl := config.cases_startTraffic ht <;> trivial

variable [PortDevice δ] {config : Config} {cpu : σ} {regions : Array Region} {m₀ : Machine σ δ}

theorem fit_run (hnew : new config cpu regions = .ok m₀) (ops : List (Operation σ δ)) :
    (m₀.run ops).controller.Fit := by
  have hkept : Controller.Kept Controller.Fit := fun c op h => h.step op
  exact keeps_run hkept (keeps_new hkept Controller.fit_new hnew) ops

/-- The bus of a machine has had a history of its own. -/
theorem lived_run (hnew : new config cpu regions = .ok m₀) {ops : List (Operation σ δ)}
    (hown : m₀.memory.HandsOwn (fun _ => False) (m₀.runTraffic ops)) :
    ∃ had, Memory.Lived config.ramSize regions had (m₀.run ops).memory := by
  -- One history: the configuration of the new bus first, then the operations.
  have hstart := Memory.Lived.new.run (handsOwn_ramTraffic config (.new config.ramSize regions) _)
  rw [← memory_new hnew] at hstart
  rw [memory_run]
  exact ⟨_, hstart.run (hown.mono fun b => False.elim)⟩

/-- What a machine saves after any history is restored by every machine that has the same regions
registered, whatever was done to that one before. -/
theorem saved_machine_restored (hnew : new config cpu regions = .ok m₀) (ops : List (Operation σ δ))
    (hown : m₀.memory.HandsOwn (fun _ => False) (m₀.runTraffic ops)) (t : Machine σ δ)
    (hregions : (m₀.run ops).memory.devices.SameRegions t.memory.devices)
    (hblocks : (m₀.run ops).memory.Encodable) (hlength : (m₀.run ops).memory.save.length < 2 ^ 32) :
    ∃ m', t.restore (m₀.run ops).save = .ok () m' ∧ m'.TakesOver t (m₀.run ops) ∧
      ((m₀.run ops).controller.intrRaise = false → (m₀.run ops).controller.intrClear = false →
        m'.save = (m₀.run ops).save) := by
  obtain ⟨had, hlived⟩ := lived_run hnew hown
  obtain ⟨hload, hseen, hsave⟩ := hlived.load_save hblocks hregions
  refine ⟨_, ?_, takesOver_withSaved hseen rfl, save_withSaved hsave⟩
  unfold restore
  rw [load_save (fit_run hnew ops) hlength hload]

/-- A machine with a window, a page of RAM and a pending request, set back after the request has
been acknowledged and the page of RAM has been given up. -/
theorem pending_machine_restored :
    let config := { Config.default with ramSize := 0x2000, mapSystemRam := false }
    let start : Machine PinLog Empty := left (assemble config ⟨[]⟩ #[.zeroed 4096]).configure
    let m := start.run
      [.memory (.map 0 0x5000 4096), .memory (.allocate 0x3000 .freshRam), .setIrq 1 true]
    let t := m.run [.acknowledge, .memory (.allocate 0x3000 .unconnected)]
    ∃ m', t.restore m.save = .ok () m' ∧ m'.TakesOver t m ∧
      m'.core.cpu.levels = true :: t.core.cpu.levels ∧ m'.save = m.save := by
  intro config start m t
  have hnew : new config ⟨[]⟩ #[.zeroed 4096] = .ok start := new_eq_ok_iff.mpr ⟨by decide, rfl⟩
  have hown : start.memory.HandsOwn (fun _ => False) (start.runTraffic
      [.memory (.map 0 0x5000 4096), .memory (.allocate 0x3000 .freshRam), .setIrq 1 true]) :=
    ⟨trivial, Or.inl trivial, trivial⟩
  obtain ⟨had, hlived⟩ := lived_run hnew hown
  have hsize : m.memory.blocks.size = 3 := by decide +kernel
  have hregistered : m.memory.devices.registered = #[0] := by decide +kernel
  have hblocks : m.memory.blocks.size ≤ 2 ^ 19 := by
    rw [hsize]
    decide
  have hencodable : m.memory.Encodable := by
    refine hlived.encodable hblocks ?_
    rw [hregistered]
    decide
  have hsame : m.memory.devices.SameRegions t.memory.devices := by
    have hrun : ∀ (s : Machine PinLog Empty) (t : Transaction),
        (s.run [.acknowledge, .memory t]).memory = s.memory.step t := fun _ _ => rfl
    have hdevices : t.memory.devices = m.memory.devices :=
      (congrArg Memory.devices (hrun m (.allocate 0x3000 .unconnected))).trans
        (Memory.Stable.devices_allocate m.memory 0x3000 .unconnected)
    rw [hdevices]
    exact ⟨rfl, fun _ _ => rfl⟩
  have hpending : m.controller.irq?.isSome = true := by decide +kernel
  obtain ⟨m', hrestore, htakes, hsave⟩ :=
    saved_machine_restored hnew _ hown t hsame hencodable (hlived.length_save_lt hblocks)
  refine ⟨m', hrestore, htakes, ?_, hsave (by decide +kernel) (by decide +kernel)⟩
  rw [htakes.cpu, hpending]
  rfl

end Machine
end Mainboard
