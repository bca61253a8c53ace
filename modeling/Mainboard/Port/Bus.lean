import Mainboard.Bytes.LittleEndian
import Mainboard.Interrupt.Controller

/-!
# I/O ports

Each of the 65536 ports leads to one device at most; the interrupt controller sits behind the
ports of its registers. Only accesses of one, two and four bytes reach a device. A wider access
to the controller is a series of byte accesses on consecutive ports, low byte first. What nobody
answers floats high.
-/
namespace Mainboard

/-- A device behind ports. -/
class PortDevice (δ : Type) where
  read : δ → UInt16 → Nat → UInt32 × δ
  write : δ → UInt16 → Nat → UInt32 → δ
  /-- Return to the state after power on. -/
  reset : δ → δ

/-- A bus may have no devices. -/
instance : PortDevice Empty where
  read := nofun
  write := nofun
  reset := id

/-- What a port leads to. -/
inductive Attachment
  | controller
  | device (index : Nat)
  deriving DecidableEq, Repr

structure PortBus (δ : Type) where
  attachments : List (UInt16 × Attachment)
  devices : Array δ

namespace Controller

/-- Read bytes from consecutive ports. -/
def readPorts (c : Controller) (port : UInt16) : Nat → Bytes × Controller
  | 0 => ([], c)
  | n + 1 =>
    let (b, c) := c.readPort port
    let (bs, c) := c.readPorts (port + 1) n
    (b :: bs, c)

/-- Write bytes to consecutive ports. -/
def writePorts (c : Controller) (port : UInt16) : Bytes → Controller
  | [] => c
  | b :: bs => (c.writePort port b).writePorts (port + 1) bs

end Controller

namespace PortBus

variable {δ : Type}

def empty : PortBus δ := ⟨[], #[]⟩

def attachment? (bus : PortBus δ) (port : UInt16) : Option Attachment :=
  bus.attachments.lookup port

/-- Let a port lead to something else from now on. -/
def attach (bus : PortBus δ) (port : UInt16) (target : Attachment) : PortBus δ :=
  { bus with attachments := (port, target) :: bus.attachments.filter (·.1 != port) }

/-- Let the ports of its registers lead to the controller. -/
def attachController (bus : PortBus δ) : PortBus δ :=
  Register.ports.foldl (fun bus port => bus.attach port .controller) bus

/-- Add a device that no port leads to yet. -/
def addDevice (bus : PortBus δ) (device : δ) : Nat × PortBus δ :=
  (bus.devices.size, { bus with devices := bus.devices.push device })

/-- The value of a bus of `size` bytes that nobody drives. -/
def floating (size : Nat) : UInt32 :=
  if size = 1 then 0xFF else if size = 2 then 0xFFFF else 0xFFFFFFFF

/-- The sizes of accesses that reach a device. -/
def isDispatched (size : Nat) : Bool := size = 1 || size = 2 || size = 4

theorem attachment?_attach (bus : PortBus δ) (port p : UInt16) (target : Attachment) :
    (bus.attach port target).attachment? p =
      if p = port then some target else bus.attachment? p := by
  have hfilter : ∀ l : List (UInt16 × Attachment), p ≠ port →
      (l.filter (·.1 != port)).lookup p = l.lookup p := by
    intro l hp
    induction l with
    | nil => rfl
    | cons entry rest ih =>
      obtain ⟨q, target⟩ := entry
      by_cases hq : q = port
      · subst hq
        have hpq : (p == q) = false := by simp [hp]
        simp [List.lookup_cons, hpq, ih]
      · cases hpq : p == q <;> simp [hq, List.lookup_cons, hpq, ih]
  by_cases h : p = port
  · simp [attach, attachment?, h]
  · have hp : (p == port) = false := by simp [h]
    simp [attach, attachment?, h, List.lookup_cons, hp, hfilter _ h]

variable [PortDevice δ]

/-- Dispatch a read to what the port leads to. -/
def dispatchRead (bus : PortBus δ) (c : Controller) (port : UInt16) (size : Nat) :
    UInt32 × PortBus δ × Controller :=
  match bus.attachment? port with
  | none => (floating size, bus, c)
  | some .controller =>
    let (bs, c) := c.readPorts port size
    (UInt32.ofNat (LittleEndian.ofBytes bs), bus, c)
  | some (.device index) =>
    match bus.devices[index]? with
    | none => (floating size, bus, c)
    | some device =>
      let (value, device) := PortDevice.read device port size
      (value, { bus with devices := bus.devices.setIfInBounds index device }, c)

/-- Dispatch a write to what the port leads to. -/
def dispatchWrite (bus : PortBus δ) (c : Controller) (port : UInt16) (size : Nat)
    (value : UInt32) : PortBus δ × Controller :=
  match bus.attachment? port with
  | none => (bus, c)
  | some .controller => (bus, c.writePorts port (LittleEndian.toBytes size value.toNat))
  | some (.device index) =>
    match bus.devices[index]? with
    | none => (bus, c)
    | some device =>
      let device := PortDevice.write device port size value
      ({ bus with devices := bus.devices.setIfInBounds index device }, c)

/-- Read from a port. An access of no bytes reads zero. -/
def read (bus : PortBus δ) (c : Controller) (port : UInt16) (size : Nat) :
    UInt32 × PortBus δ × Controller :=
  if size = 0 then (0, bus, c)
  else if isDispatched size then bus.dispatchRead c port size
  else (floating size, bus, c)

/-- Write to a port. -/
def write (bus : PortBus δ) (c : Controller) (port : UInt16) (size : Nat) (value : UInt32) :
    PortBus δ × Controller :=
  if isDispatched size then bus.dispatchWrite c port size value else (bus, c)

def readByte (bus : PortBus δ) (c : Controller) (port : UInt16) :
    UInt8 × PortBus δ × Controller :=
  let (value, bus, c) := bus.read c port 1
  (value.toUInt8, bus, c)

def writeByte (bus : PortBus δ) (c : Controller) (port : UInt16) (value : UInt8) :
    PortBus δ × Controller :=
  bus.write c port 1 value.toUInt32

/-- Reset what one port leads to. The controller is reset through the master's command port only,
as all its ports lead to the same one. -/
def resetPort (bus : PortBus δ) (c : Controller) (port : UInt16) (target : Attachment) :
    PortBus δ × Controller :=
  match target with
  | .controller => (bus, if port = Register.masterCommand then c.reset else c)
  | .device index => ({ bus with devices := bus.devices.modify index PortDevice.reset }, c)

/-- Reset port by port: a device on several ports is reset once for each. -/
def reset (bus : PortBus δ) (c : Controller) : PortBus δ × Controller :=
  bus.attachments.foldl (fun (bus, c) (port, target) => bus.resetPort c port target) (bus, c)

end PortBus
end Mainboard
