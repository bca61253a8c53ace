import Mainboard.Execution.Slice
import Mainboard.Machine.Config
import Mainboard.Port.Bus

/-!
# The machine

A PC around a processor: bus, interrupt controller behind its ports, and dispatcher. After every
operation that may change the controller its requests are forwarded to the INTR pin. A reset puts
every part back in the order of construction and applies the configuration again, the image of
the system BIOS included; a triple fault resets the machine.
-/
namespace Mainboard

inductive MachineError
  | config (error : ConfigError)
  | map (error : MapError)
  | fetch (error : FetchError)
  | snapshot (error : SnapshotError)
  deriving DecidableEq, Repr

def MachineError.message : MachineError → String
  | .config e => "invalid machine configuration: " ++ e.message
  | .map e => e.message
  | .fetch e => e.message
  | .snapshot e => "snapshot restore failed: " ++ e.message

structure Machine (σ δ : Type) where
  config : Config
  core : Core σ
  ports : PortBus δ
  bios : Option Bytes

namespace Machine

variable {σ δ : Type}

/-- The result of an operation with the machine it leaves. -/
abbrev Outcome (σ δ : Type) := EStateM.Result MachineError (Machine σ δ)

def memory (m : Machine σ δ) : Memory := m.core.memory

def setMemory (m : Machine σ δ) (memory : Memory) : Machine σ δ :=
  { m with core := { m.core with memory := memory } }

def controller (m : Machine σ δ) : Controller := m.core.controller

def setController (m : Machine σ δ) (controller : Controller) : Machine σ δ :=
  { m with core := { m.core with controller := controller } }

def setDispatcher (m : Machine σ δ) (dispatcher : Dispatcher) : Machine σ δ :=
  { m with core := { m.core with dispatcher := dispatcher } }

/-- A change of the bus as an operation of the machine. -/
def updateMemory (m : Machine σ δ) (change : Memory → Memory.Update α) : Outcome σ δ α :=
  match change m.memory with
  | .ok a memory => .ok a (m.setMemory memory)
  | .error e memory => .error (.map e) (m.setMemory memory)

/-- Install RAM and the image of the system BIOS. -/
def installMemory (config : Config) (bios : Option Bytes) (memory : Memory) :
    Memory.Update Unit :=
  match memory.allocateAll (config.ramPages.map fun addr => (addr, .freshRam)) with
  | .error e memory => .error e memory
  | .ok _ memory =>
    match bios with
    | none => .ok () memory
    | some image => memory.loadSystemBios image

/-- Forward the requests of the controller to the INTR pin. -/
def forwardIntr [Processor σ] (m : Machine σ δ) : Machine σ δ :=
  { m with core := m.core.forwardIntr }

variable [Processor σ]

/-- Apply the configuration. -/
def configure (m : Machine σ δ) : Outcome σ δ Unit :=
  match m.updateMemory (installMemory m.config m.bios) with
  | .error e m => .error e m
  | .ok _ m =>
    let m := m.setMemory (m.memory.setGateA20 m.config.a20AtReset)
    let controller :=
      m.controller.initLegacy m.config.masterVectorBase m.config.slaveVectorBase
    .ok () (m.setController controller).forwardIntr

/-- The parts of a machine before the configuration is applied. -/
def assemble (config : Config) (cpu : σ) (regions : Array Region) : Machine σ δ where
  config := config
  core :=
    { cpu := cpu
      memory := .new config.ramSize regions
      controller := .new
      dispatcher := .new config.maxBlocks config.cadence }
  ports := PortBus.empty.attachController
  bios := none

/-- A machine with the given processor, beside device regions that it may map. -/
def new (config : Config) (cpu : σ) (regions : Array Region) :
    Except MachineError (Machine σ δ) :=
  match config.error? with
  | some e => .error (.config e)
  | none =>
    match (assemble config cpu regions).configure with
    | .ok _ m => .ok m
    | .error e _ => .error e

/-- Install the image of the system BIOS, also on every reset from now on. -/
def setSystemBios (m : Machine σ δ) (image : Bytes) : Outcome σ δ Unit :=
  match m.updateMemory fun memory => memory.loadSystemBios image with
  | .error e m => .error e m
  | .ok _ m => .ok () { m with bios := some image }

variable [PortDevice δ]

/-- Reset the parts of a machine without applying the configuration. -/
def resetParts (m : Machine σ δ) : Machine σ δ :=
  let (ports, controller) := m.ports.reset m.controller.reset
  { m with
    core :=
      { cpu := Processor.reset m.core.cpu
        memory := m.memory.reset
        controller := controller
        dispatcher := m.core.dispatcher.reset }
    ports := ports }

def reset (m : Machine σ δ) : Outcome σ δ Unit := m.resetParts.configure

/-- Run a slice. A triple fault resets the machine before this returns. -/
def executeSlice (m : Machine σ δ) : Outcome σ δ Slice :=
  let (slice, core) := m.core.runSlice
  let m := { m with core := core }
  if slice.exit = .tripleFault then
    match m.reset with
    | .ok _ m => .ok slice m
    | .error e m => .error e m
  else .ok slice m

/-- Run a slice for the number of instructions retired. -/
def execute (m : Machine σ δ) : Outcome σ δ UInt32 :=
  match m.executeSlice with
  | .error e m => .error e m
  | .ok slice m =>
    match slice.exit with
    | .fetch e => .error (.fetch e) m
    | _ => .ok slice.executed m

/-- Drive an interrupt line. -/
def setIrq (m : Machine σ δ) (line : Nat) (level : Bool) : Machine σ δ :=
  (m.setController (m.controller.setIrq line level)).forwardIntr

/-- Acknowledge the interrupt with the highest priority. -/
def acknowledge (m : Machine σ δ) : UInt8 × Machine σ δ :=
  let (vector, controller) := m.controller.acknowledge
  (vector, (m.setController controller).forwardIntr)

def readPort (m : Machine σ δ) (port : UInt16) (size : Nat) : UInt32 × Machine σ δ :=
  let (value, ports, controller) := m.ports.read m.controller port size
  (value, ({ m with ports := ports }.setController controller).forwardIntr)

def writePort (m : Machine σ δ) (port : UInt16) (size : Nat) (value : UInt32) : Machine σ δ :=
  let (ports, controller) := m.ports.write m.controller port size value
  ({ m with ports := ports }.setController controller).forwardIntr

end Machine
end Mainboard
