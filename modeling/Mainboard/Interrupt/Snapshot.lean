import Mainboard.Interrupt.Controller
import Mainboard.Snapshot.Container

/-!
# Saving and restoring the pair

Each chip is one payload of fifteen bytes; the two latches are truth values of their own. A chip
whose payload is missing keeps its registers, and a missing latch is empty. A restore that fails
changes nothing. Registers that cannot hold every value, the rotation, the initialisation state
and the trigger modes, take the nearest value they can hold.
-/
namespace Mainboard

namespace Chip

def encode (c : Chip) : Bytes :=
  Encode.u8 (.ofBitVec c.levels) ++ Encode.u8 (.ofBitVec c.requests) ++
    Encode.u8 (.ofBitVec c.mask) ++ Encode.u8 (.ofBitVec c.inService) ++
    Encode.u8 (UInt8.ofNat c.rotation.val) ++ Encode.u8 c.vectorBase ++
    Encode.bool c.showInService ++ Encode.bool c.poll ++ Encode.bool c.specialMask ++
    Encode.u8 c.initState.toByte ++ Encode.bool c.autoEnd ++ Encode.bool c.rotateOnAutoEnd ++
    Encode.bool c.specialFullyNested ++ Encode.bool c.fourWords ++
    Encode.u8 (.ofBitVec c.levelTriggered)

/-- Read the registers of a chip in a given place. -/
def decode (role : Role) : Decode Chip := do
  let levels ← Decode.u8
  let requests ← Decode.u8
  let mask ← Decode.u8
  let inService ← Decode.u8
  let rotation ← Decode.u8
  let vectorBase ← Decode.u8
  let showInService ← Decode.bool
  let poll ← Decode.bool
  let specialMask ← Decode.bool
  let initState ← Decode.u8
  let autoEnd ← Decode.bool
  let rotateOnAutoEnd ← Decode.bool
  let specialFullyNested ← Decode.bool
  let fourWords ← Decode.bool
  let levelTriggered ← Decode.u8
  return {
    role := role
    levels := levels.toBitVec
    requests := requests.toBitVec
    mask := mask.toBitVec
    inService := inService.toBitVec
    rotation := Fin.ofNat 8 rotation.toNat
    vectorBase := vectorBase
    showInService := showInService
    poll := poll
    specialMask := specialMask
    initState := .ofByte initState
    autoEnd := autoEnd
    rotateOnAutoEnd := rotateOnAutoEnd
    specialFullyNested := specialFullyNested
    fourWords := fourWords
    levelTriggered := levelTriggered.toBitVec &&& role.triggerMask }

end Chip

namespace Controller

/-- The identifier `PIC8`. -/
def deviceId : DeviceId := #v[0x50, 0x49, 0x43, 0x38]

def deviceVersion : Version := ⟨1, 0⟩

namespace Tag

def master : UInt16 := 1
def slave : UInt16 := 2
def intrRaise : UInt16 := 3
def intrClear : UInt16 := 4

end Tag

def toContainer (c : Controller) : Container :=
  Container.empty deviceId deviceVersion
    |>.set Tag.master c.master.encode
    |>.set Tag.slave c.slave.encode
    |>.set Tag.intrRaise (Encode.bool c.intrRaise)
    |>.set Tag.intrClear (Encode.bool c.intrClear)

def save (c : Controller) : Bytes := c.toContainer.encode

/-- The chip under a tag, or the present one if there is none. -/
def restoreChip (present : Chip) (r : Container) (tag : UInt16) : Except SnapshotError Chip :=
  match r.bytes tag with
  | none => .ok present
  | some payload => (Chip.decode present.role).parse payload

/-- The pair that a snapshot describes, for a target with the given registers. -/
def restored (c : Controller) (input : Bytes) : Except SnapshotError Controller := do
  let r ← Container.parseFor input deviceId deviceVersion
  let master ← restoreChip c.master r Tag.master
  let slave ← restoreChip c.slave r Tag.slave
  let intrRaise ← r.bool Tag.intrRaise
  let intrClear ← r.bool Tag.intrClear
  return ⟨master, slave, intrRaise.getD false, intrClear.getD false⟩

/-- Restore a saved pair. -/
def load (c : Controller) (input : Bytes) : EStateM.Result SnapshotError Controller Unit :=
  match c.restored input with
  | .ok next => .ok () next
  | .error e => .error e c

end Controller
end Mainboard
