import Mainboard.Interrupt.Controller
import Mainboard.Processor.Basic

/-!
# Running one block

A core is a processor with its bus, its interrupt controller and the dispatcher that drives it.
In real mode a block is fetched from the physical bus; otherwise its address is linear, and the
processor translates it while paging is enabled. Nothing is run from a page that is not connected.
-/
namespace Mainboard

/-- Limits and flags of the run loop. The two sticky flags stay until they are taken. -/
structure Dispatcher where
  maxBlocks : UInt32
  cadence : UInt32
  /-- Instructions retired since interrupts were last offered. -/
  sinceDelivery : UInt32
  trapArmed : Bool
  traceHit : Bool
  tripleFaulted : Bool
  deriving DecidableEq, Repr

namespace Dispatcher

/-- A dispatcher with at least one block per slice and at least one instruction per offer. -/
def new (maxBlocks cadence : UInt32) : Dispatcher where
  maxBlocks := max maxBlocks 1
  cadence := max cadence 1
  sinceDelivery := 0
  trapArmed := false
  traceHit := false
  tripleFaulted := false

def defaultMaxBlocks : UInt32 := 100

def defaultCadence : UInt32 := 1

def default : Dispatcher := new defaultMaxBlocks defaultCadence

/-- Stop the run loop after the next block. -/
def arm (d : Dispatcher) : Dispatcher := { d with trapArmed := true }

/-- Arm the trap in the given case. -/
def armIf (d : Dispatcher) (armed : Bool) : Dispatcher :=
  { d with trapArmed := d.trapArmed || armed }

def takeTraceHit (d : Dispatcher) : Bool × Dispatcher := (d.traceHit, { d with traceHit := false })

def takeTripleFaulted (d : Dispatcher) : Bool × Dispatcher :=
  (d.tripleFaulted, { d with tripleFaulted := false })

/-- Forget the count and the trap; the sticky flags stay. -/
def reset (d : Dispatcher) : Dispatcher := { d with sinceDelivery := 0, trapArmed := false }

@[simp] theorem traceHit_reset (d : Dispatcher) : d.reset.traceHit = d.traceHit := rfl

@[simp] theorem tripleFaulted_reset (d : Dispatcher) :
    d.reset.tripleFaulted = d.tripleFaulted := rfl

end Dispatcher

structure Core (σ : Type) where
  cpu : σ
  memory : Memory
  controller : Controller
  dispatcher : Dispatcher

/-- Where instructions are fetched from. -/
inductive Space
  | physical
  | linear
  deriving DecidableEq, Repr

def Space.ofMode (mode : Mode) : Space := if mode.isLinear then .linear else .physical

namespace Core

variable {σ : Type}

/-- Carry out what a processor does in a block. -/
def runProgram (c : Core σ) : BlockProgram σ → Except ProcessorExit UInt32 × Core σ
  | .finish cpu outcome => (outcome, { c with cpu := cpu })
  | .observe next => c.runProgram (next c.memory)
  | .transact t next => { c with memory := c.memory.step t }.runProgram next
  | .armTrap next => { c with dispatcher := c.dispatcher.arm }.runProgram next

/-- Carry out what a processor does when it may take interrupts. -/
def runDelivery (c : Core σ) : Delivery σ → Core σ
  | .done cpu => { c with cpu := cpu }
  | .acknowledge next =>
    let (vector, controller) := c.controller.acknowledge
    { c with controller := controller }.runDelivery (next vector)
  | .armTrap next => { c with dispatcher := c.dispatcher.arm }.runDelivery next

variable [Processor σ]

/-- Forward the controller's requests to the INTR pin, clear before raise. -/
def forwardIntr (c : Core σ) : Core σ :=
  let (clear, controller) := c.controller.takeClear
  let (raise, controller) := controller.takeRaise
  let cpu := if clear then Processor.clearInterrupt c.cpu else c.cpu
  let cpu := if raise then Processor.raiseInterrupt cpu else cpu
  { c with cpu := cpu, controller := controller }

/-- The physical address of the next instruction. -/
def translate (c : Core σ) (space : Space) (addr : UInt32) : Except ProcessorExit UInt32 × Core σ :=
  if space = .linear ∧ Processor.isPaging c.cpu then
    let (result, cpu) := Processor.translateLinear c.cpu c.memory addr
    let dispatcher := c.dispatcher.armIf (Processor.armsInTranslation c.cpu c.memory addr)
    (result.mapError .fault, { c with cpu := cpu, dispatcher := dispatcher })
  else (.ok addr, c)

/-- Run the block at the instruction pointer. -/
def executeInMode (c : Core σ) (space : Space) (mode : Mode) :
    Except ProcessorExit UInt32 × Core σ :=
  match c.translate space (Processor.instructionPointer c.cpu) with
  | (.error e, c) => (.error e, c)
  | (.ok addr, c) =>
    match c.memory.fetch addr with
    | .error e => (.error (.fetch e), c)
    | .ok _ => c.runProgram (Processor.executeBlock c.cpu mode addr)

end Core
end Mainboard
