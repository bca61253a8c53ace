import Mainboard.Execution.Snapshot
import Mainboard.Interrupt.Snapshot
import Mainboard.Machine.Basic

/-!
# Saving and restoring a machine

A saved machine holds the snapshots of its bus, its controller and its dispatcher; processor and
devices are saved by their owners. A restore reads the two small parts first, then restores the
bus, and then puts the small parts in place. The level of the INTR pin follows from the restored
controller.
-/
namespace Mainboard
namespace Machine

/-- The identifier `MACH`. -/
def deviceId : DeviceId := #v[0x4D, 0x41, 0x43, 0x48]

def deviceVersion : Version := ⟨1, 0⟩

namespace Tag

def memory : UInt16 := 1
def controller : UInt16 := 2
def dispatcher : UInt16 := 3

end Tag

variable {σ δ : Type}

def toContainer (m : Machine σ δ) : Container :=
  Container.empty deviceId deviceVersion
    |>.set Tag.memory m.memory.save
    |>.set Tag.controller m.controller.save
    |>.set Tag.dispatcher m.core.dispatcher.save

def save (m : Machine σ δ) : Bytes := m.toContainer.encode

/-- Save the machine unless the saved bus takes 4 GiB or more. It is longer than any field inside of
it, and the other parts are far shorter. -/
def save? (m : Machine σ δ) : Option Bytes :=
  if m.memory.saveLength < UInt32.size then some m.save else none

/-- The parts of a saved machine; the small ones have been read. -/
structure Staged where
  memory : Bytes
  controller : Controller
  dispatcher : Option Bytes

/-- The payload of a tag that must be present. -/
def required (c : Container) (tag : UInt16) (fault : FieldFault) : Except SnapshotError Bytes :=
  match c.bytes tag with
  | some payload => .ok payload
  | none => .error (.invalidField fault)

def stage (input : Bytes) : Except SnapshotError Staged := do
  let c ← Container.parseFor input deviceId deviceVersion
  let memory ← required c Tag.memory .noAddressSpace
  let saved ← required c Tag.controller .noController
  let controller ← Controller.new.restored saved
  match c.bytes Tag.dispatcher with
  | none => return ⟨memory, controller, none⟩
  | some dispatcher =>
    let _ ← Dispatcher.default.restored dispatcher
    return ⟨memory, controller, some dispatcher⟩

/-- Restore the parts of a saved machine. -/
def load (m : Machine σ δ) (input : Bytes) :
    EStateM.Result SnapshotError (Machine σ δ) Unit :=
  match stage input with
  | .error e => .error e m
  | .ok staged =>
    match m.memory.load staged.memory with
    | .error e memory => .error e (m.setMemory memory)
    | .ok _ memory =>
      let m := (m.setMemory memory).setController staged.controller
      match staged.dispatcher with
      | none => .ok () m
      | some saved =>
        match m.core.dispatcher.load saved with
        | .error e dispatcher => .error e (m.setDispatcher dispatcher)
        | .ok _ dispatcher => .ok () (m.setDispatcher dispatcher)

variable [Processor σ]

/-- Drop the latched requests and drive the INTR pin from what is pending. -/
def redriveIntr (m : Machine σ δ) : Machine σ δ :=
  let controller := { m.controller with intrRaise := false, intrClear := false }
  let cpu :=
    if controller.irq?.isSome then Processor.raiseInterrupt m.core.cpu
    else Processor.clearInterrupt m.core.cpu
  { m with core := { m.core with cpu := cpu, controller := controller } }

/-- Restore a saved machine together with the INTR pin. -/
def restore (m : Machine σ δ) (input : Bytes) : Outcome σ δ Unit :=
  match m.load input with
  | .error e m => .error (.snapshot e) m
  | .ok _ m => .ok () m.redriveIntr

end Machine
end Mainboard
