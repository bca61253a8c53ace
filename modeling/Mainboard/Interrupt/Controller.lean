import Mainboard.Interrupt.Chip

/-!
# The pair of chips

The slave's output drives line two of the master with a pulse. Requests to raise or clear the
processor's INTR pin are latched, for the owner to forward after each operation.
-/
namespace Mainboard

/-- A register that a port reaches. -/
inductive Register
  | command (role : Role)
  | data (role : Role)
  | trigger (role : Role)
  deriving DecidableEq, Repr

namespace Register

def masterCommand : UInt16 := 0x20
def masterData : UInt16 := 0x21
def slaveCommand : UInt16 := 0xA0
def slaveData : UInt16 := 0xA1
def masterTrigger : UInt16 := 0x4D0
def slaveTrigger : UInt16 := 0x4D1

def ofPort? (port : UInt16) : Option Register :=
  if port = masterCommand then some (.command .master)
  else if port = masterData then some (.data .master)
  else if port = slaveCommand then some (.command .slave)
  else if port = slaveData then some (.data .slave)
  else if port = masterTrigger then some (.trigger .master)
  else if port = slaveTrigger then some (.trigger .slave)
  else none

/-- The ports of the pair. -/
def ports : List UInt16 :=
  [masterCommand, masterData, slaveCommand, slaveData, masterTrigger, slaveTrigger]

end Register

structure Controller where
  master : Chip
  slave : Chip
  intrRaise : Bool
  intrClear : Bool
  deriving DecidableEq, Repr

namespace Controller

/-- The pair after power on, not initialised. -/
def new : Controller := ⟨.new .master, .new .slave, false, false⟩

def reset (_ : Controller) : Controller := new

def chip (c : Controller) : Role → Chip
  | .master => c.master
  | .slave => c.slave

def setChip (c : Controller) (role : Role) (chip : Chip) : Controller :=
  match role with
  | .master => { c with master := chip }
  | .slave => { c with slave := chip }

@[simp] theorem chip_setChip (c : Controller) (role r : Role) (chip : Chip) :
    (c.setChip role chip).chip r = if r = role then chip else c.chip r := by
  cases role <;> cases r <;> rfl

/-- Pulse the cascade line if the slave has a request, and latch a raise if the master has. -/
def update (c : Controller) : Controller :=
  let c :=
    if c.slave.pending?.isSome then
      { c with master := (c.master.setLine cascadeLine true).setLine cascadeLine false }
    else c
  if c.master.pending?.isSome then { c with intrRaise := true } else c

/-- Drive one of the sixteen lines; others do not exist. -/
def setIrq (c : Controller) (line : Nat) (level : Bool) : Controller :=
  if line < 8 then (c.setChip .master (c.master.setLine (Fin.ofNat 8 line) level)).update
  else if line < 16 then (c.setChip .slave (c.slave.setLine (Fin.ofNat 8 line) level)).update
  else c

/-- The master's line that would be acknowledged next. -/
def irq? (c : Controller) : Option Line := c.master.pending?

/-- The vector that the next acknowledge would return, if something is pending. -/
def pendingVector? (c : Controller) : Option UInt8 :=
  match c.master.pending? with
  | none => none
  | some l =>
    if l = cascadeLine then some (c.slave.vector (c.slave.pending?.getD spuriousLine))
    else some (c.master.vector l)

/-- Acknowledge on the slave: its request with the highest priority, or a spurious one. -/
def acknowledgeSlave (c : Controller) : UInt8 × Controller :=
  match c.slave.pending? with
  | some l => (c.slave.vector l, { c with slave := c.slave.acknowledge l })
  | none => (c.slave.vector spuriousLine, c)

/-- Acknowledge the request with the highest priority and answer its vector; with nothing pending
this is the spurious vector of the chip that was asked last. -/
def acknowledge (c : Controller) : UInt8 × Controller :=
  let (vector, c) :=
    match c.master.pending? with
    | some l =>
      let c := { c with master := c.master.acknowledge l }
      if l = cascadeLine then c.acknowledgeSlave else (c.master.vector l, c)
    | none => (c.master.vector spuriousLine, c)
  (vector, c.update)

/-- Read the pending line of a chip and take it off the chip, without an acknowledge. -/
def pollRead (c : Controller) (role : Role) : UInt8 × Controller :=
  match (c.chip role).pending? with
  | some l =>
    let c := if role = .slave then { c with master := c.master.drop cascadeLine } else c
    let c := c.setChip role ((c.chip role).drop l)
    let c := if role = .slave ∨ l ≠ cascadeLine then c.update else c
    (UInt8.ofNat l.val, c)
  | none => (UInt8.ofNat spuriousLine.val, c.update)

/-- Carry out a command for a chip. Only what can make a request deliverable updates INTR. -/
def execute (c : Controller) (role : Role) (command : Command) : Controller :=
  let chip := c.chip role
  match command with
  | .initialise fourWords =>
    { c.setChip role (chip.initialise fourWords) with intrRaise := false, intrClear := true }
  | .configure poll showInService specialMask =>
    c.setChip role (chip.configure poll showInService specialMask)
  | .rotateOnAutoEnd enabled => c.setChip role { chip with rotateOnAutoEnd := enabled }
  | .endHighest rotate =>
    match chip.served? with
    | some l => (c.setChip role (chip.endLine l rotate)).update
    | none => c
  | .endLine l rotate => (c.setChip role (chip.endLine l rotate)).update
  | .setLowest l => (c.setChip role { chip with rotation := l + 1 }).update
  | .nothing => c

/-- A byte on a data port is the mask of a chip that is ready, and a word of its initialisation
otherwise. -/
def writeData (c : Controller) (role : Role) (value : UInt8) : Controller :=
  let chip := c.chip role
  if chip.initState = .ready then (c.setChip role { chip with mask := value.toBitVec }).update
  else c.setChip role (chip.initWord value)

def readChip (c : Controller) (role : Role) (register : Chip → UInt8) : UInt8 × Controller :=
  if (c.chip role).poll then
    let (value, c) := c.pollRead role
    (value, c.setChip role { c.chip role with poll := false })
  else (register (c.chip role), c)

/-- Read a byte from a port; a port of no register floats. -/
def readPort (c : Controller) (port : UInt16) : UInt8 × Controller :=
  match Register.ofPort? port with
  | some (.command role) => c.readChip role Chip.status
  | some (.data role) => c.readChip role fun chip => .ofBitVec chip.mask
  | some (.trigger role) => (.ofBitVec (c.chip role).levelTriggered, c)
  | none => (0xFF, c)

/-- Write a byte to a port; a port of no register ignores it. -/
def writePort (c : Controller) (port : UInt16) (value : UInt8) : Controller :=
  match Register.ofPort? port with
  | some (.command role) => c.execute role (.ofByte value)
  | some (.data role) => c.writeData role value
  | some (.trigger role) => c.setChip role ((c.chip role).setTrigger value)
  | none => c

/-- Take the request to raise INTR. -/
def takeRaise (c : Controller) : Bool × Controller :=
  (c.intrRaise, { c with intrRaise := false })

/-- Take the request to clear INTR. -/
def takeClear (c : Controller) : Bool × Controller :=
  (c.intrClear, { c with intrClear := false })

/-- Set both chips up the way a PC BIOS does: cascaded on line two, nothing masked. -/
def initLegacy (c : Controller) (masterBase slaveBase : UInt8) : Controller :=
  let words : List (UInt16 × UInt8) :=
    [(Register.masterCommand, 0x11), (Register.masterData, masterBase),
      (Register.masterData, 4), (Register.masterData, 1),
      (Register.slaveCommand, 0x11), (Register.slaveData, slaveBase),
      (Register.slaveData, 2), (Register.slaveData, 1)]
  words.foldl (fun c (port, value) => c.writePort port value) c

end Controller
end Mainboard
