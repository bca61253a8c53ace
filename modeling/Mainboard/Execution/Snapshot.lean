import Mainboard.Execution.Core
import Mainboard.Snapshot.Container

/-!
# Saving and restoring the dispatcher

The count and the three flags are saved, the limits are not. What is missing from a snapshot is
zero or not set, and a restore that fails changes nothing.
-/
namespace Mainboard
namespace Dispatcher

/-- The identifier `EXEC`. -/
def deviceId : DeviceId := #v[0x45, 0x58, 0x45, 0x43]

def deviceVersion : Version := ⟨1, 0⟩

namespace Tag

def sinceDelivery : UInt16 := 1
def trapArmed : UInt16 := 2
def traceHit : UInt16 := 3
def tripleFaulted : UInt16 := 4

end Tag

def toContainer (d : Dispatcher) : Container :=
  Container.empty deviceId deviceVersion
    |>.set Tag.sinceDelivery (Encode.u32 d.sinceDelivery)
    |>.set Tag.trapArmed (Encode.bool d.trapArmed)
    |>.set Tag.traceHit (Encode.bool d.traceHit)
    |>.set Tag.tripleFaulted (Encode.bool d.tripleFaulted)

def save (d : Dispatcher) : Bytes := d.toContainer.encode

/-- The dispatcher that a snapshot describes, with the given limits. -/
def restored (d : Dispatcher) (input : Bytes) : Except SnapshotError Dispatcher := do
  let r ← Container.parseFor input deviceId deviceVersion
  let sinceDelivery ← r.u32 Tag.sinceDelivery
  let trapArmed ← r.bool Tag.trapArmed
  let traceHit ← r.bool Tag.traceHit
  let tripleFaulted ← r.bool Tag.tripleFaulted
  return { d with
    sinceDelivery := sinceDelivery.getD 0
    trapArmed := trapArmed.getD false
    traceHit := traceHit.getD false
    tripleFaulted := tripleFaulted.getD false }

/-- Restore a saved dispatcher. -/
def load (d : Dispatcher) (input : Bytes) : EStateM.Result SnapshotError Dispatcher Unit :=
  match d.restored input with
  | .ok next => .ok () next
  | .error e => .error e d

end Dispatcher
end Mainboard
