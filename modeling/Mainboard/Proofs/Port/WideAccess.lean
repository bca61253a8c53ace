import Mainboard.Port.Bus
import Mainboard.Proofs.Bytes.LittleEndian

/-!
# Wide accesses to the controller

A word or a double word at a port of the controller never goes back to the bus: the controller
splits it itself. It may run past its registers, where the bus has a port of its own to ask. When no
device sits there, the bus would have found the same as the controller does: a byte of ones, and
nobody to write to. So the access is the byte accesses that it stands for, made one after another,
and what one byte does to the meaning of the next it does either way.
-/
namespace Mainboard

/-! ## Ports of no register -/

theorem Register.ofPort?_of_notMem {port : UInt16} (h : port ∉ Register.ports) :
    Register.ofPort? port = none := by
  simp only [ports, List.mem_cons, List.not_mem_nil, or_false, not_or] at h
  obtain ⟨h₁, h₂, h₃, h₄, h₅, h₆⟩ := h
  simp [ofPort?, h₁, h₂, h₃, h₄, h₅, h₆]

namespace Controller

variable (c : Controller) {port : UInt16}

theorem readPort_of_notMem (h : port ∉ Register.ports) : c.readPort port = (0xFF, c) := by
  rw [readPort, Register.ofPort?_of_notMem h]

theorem writePort_of_notMem (h : port ∉ Register.ports) (value : UInt8) :
    c.writePort port value = c := by
  rw [writePort, Register.ofPort?_of_notMem h]

end Controller

namespace PortBus

variable {δ : Type}

/-! ## Whose a port is -/

theorem attachment?_attachController (bus : PortBus δ) (port : UInt16) :
    bus.attachController.attachment? port =
      if port ∈ Register.ports then some .controller else bus.attachment? port := by
  simp only [attachController, Register.ports, List.foldl_cons, List.foldl_nil, attachment?_attach,
    List.mem_cons, List.not_mem_nil, or_false]
  split_ifs <;> simp_all

/-- The registers of the controller have their ports. -/
def HasController (bus : PortBus δ) : Prop :=
  ∀ port ∈ Register.ports, bus.attachment? port = some .controller

theorem hasController_attachController (bus : PortBus δ) : bus.attachController.HasController := by
  intro port hport
  rw [attachment?_attachController, if_pos hport]

def HasDevice (bus : PortBus δ) (port : UInt16) : Prop :=
  ∃ index, bus.attachment? port = some (.device index)

theorem not_hasDevice_empty (port : UInt16) : ¬(empty : PortBus δ).HasDevice port :=
  fun ⟨_, h⟩ => absurd h nofun

theorem hasDevice_attachController (bus : PortBus δ) (port : UInt16) :
    bus.attachController.HasDevice port ↔ port ∉ Register.ports ∧ bus.HasDevice port := by
  unfold HasDevice
  rw [attachment?_attachController]
  split_ifs with h <;> simp [h]

/-- Without a device a port leads to the controller, or to nothing where the controller has no
register either. -/
theorem HasController.attachment?_of_not_hasDevice {bus : PortBus δ} (h : bus.HasController)
    {port : UInt16} (hdevice : ¬bus.HasDevice port) :
    bus.attachment? port = some .controller ∨
      (bus.attachment? port = none ∧ port ∉ Register.ports) := by
  cases hport : bus.attachment? port with
  | none =>
    refine Or.inr ⟨rfl, fun hmem => ?_⟩
    rw [h port hmem] at hport
    exact absurd hport nofun
  | some target =>
    cases target with
    | controller => exact Or.inl rfl
    | device index => exact absurd ⟨index, hport⟩ hdevice

variable [PortDevice δ]

/-! ## Byte accesses one after another -/

def readBytes (bus : PortBus δ) (c : Controller) (port : UInt16) :
    Nat → Bytes × PortBus δ × Controller
  | 0 => ([], bus, c)
  | n + 1 =>
    let (b, bus, c) := bus.readByte c port
    let (bs, bus, c) := bus.readBytes c (port + 1) n
    (b :: bs, bus, c)

def writeBytes (bus : PortBus δ) (c : Controller) (port : UInt16) : Bytes → PortBus δ × Controller
  | [] => (bus, c)
  | b :: bs =>
    let (bus, c) := bus.writeByte c port b
    bus.writeBytes c (port + 1) bs

variable {bus : PortBus δ} {port : UInt16}

theorem read_controller (h : bus.attachment? port = some .controller) {size : Nat}
    (hsize : isDispatched size = true) (c : Controller) :
    bus.read c port size = (UInt32.ofNat (LittleEndian.ofBytes (c.readPorts port size).1), bus,
      (c.readPorts port size).2) := by
  have hpos : size ≠ 0 := by rintro rfl; exact absurd hsize (by decide)
  simp [read, dispatchRead, h, hpos, hsize]

theorem write_controller (h : bus.attachment? port = some .controller) {size : Nat}
    (hsize : isDispatched size = true) (c : Controller) (value : UInt32) :
    bus.write c port size value =
      (bus, c.writePorts port (LittleEndian.toBytes size value.toNat)) := by
  simp [write, dispatchWrite, h, hsize]

namespace HasController

variable (h : bus.HasController)
include h

theorem readByte (hdevice : ¬bus.HasDevice port) (c : Controller) :
    bus.readByte c port = ((c.readPort port).1, bus, (c.readPort port).2) := by
  have hone : isDispatched 1 = true := rfl
  rcases h.attachment?_of_not_hasDevice hdevice with hport | ⟨hport, hmem⟩
  · have hbyte (b : UInt8) : (UInt32.ofNat (LittleEndian.ofBytes [b])).toUInt8 = b := by
      simp [LittleEndian.ofBytes]
    simp [PortBus.readByte, read_controller hport hone, Controller.readPorts, hbyte]
  · simp [PortBus.readByte, read, hone, dispatchRead, hport, floating, c.readPort_of_notMem hmem]

theorem writeByte (hdevice : ¬bus.HasDevice port) (c : Controller) (value : UInt8) :
    bus.writeByte c port value = (bus, c.writePort port value) := by
  have hone : isDispatched 1 = true := rfl
  rcases h.attachment?_of_not_hasDevice hdevice with hport | ⟨hport, hmem⟩
  · simp [PortBus.writeByte, write_controller hport hone, Controller.writePorts,
      LittleEndian.toBytes]
  · simp [PortBus.writeByte, write, hone, dispatchWrite, hport, c.writePort_of_notMem hmem]

end HasController

/-! ## A wide access is its byte accesses -/

/-- No device sits on any of `n` consecutive ports. -/
def Vacant (bus : PortBus δ) (port : UInt16) (n : Nat) : Prop :=
  ∀ i < n, ¬bus.HasDevice (port + UInt16.ofNat i)

omit [PortDevice δ] in
theorem Vacant.head {n : Nat} (h : bus.Vacant port (n + 1)) : ¬bus.HasDevice port := by
  simpa using h 0 n.succ_pos

omit [PortDevice δ] in
theorem Vacant.tail {n : Nat} (h : bus.Vacant port (n + 1)) : bus.Vacant (port + 1) n := by
  intro i hi
  have := h (i + 1) (Nat.succ_lt_succ hi)
  rwa [show port + 1 + UInt16.ofNat i = port + UInt16.ofNat (i + 1) by
    rw [UInt16.ofNat_add, UInt16.add_assoc, UInt16.add_comm 1]; rfl]

namespace HasController

variable (h : bus.HasController)
include h

theorem readBytes {n : Nat} (hvacant : bus.Vacant port n) (c : Controller) :
    bus.readBytes c port n = ((c.readPorts port n).1, bus, (c.readPorts port n).2) := by
  induction n generalizing port c with
  | zero => rfl
  | succ n ih =>
    rw [PortBus.readBytes, h.readByte hvacant.head]
    simp [Controller.readPorts, ih hvacant.tail]

theorem writeBytes {bs : Bytes} (hvacant : bus.Vacant port bs.length) (c : Controller) :
    bus.writeBytes c port bs = (bus, c.writePorts port bs) := by
  induction bs generalizing port c with
  | nil => rfl
  | cons b bs ih =>
    rw [PortBus.writeBytes, h.writeByte hvacant.head]
    simp [Controller.writePorts, ih hvacant.tail]

/-- An access at a port of the controller that runs into no device is its byte accesses through the
bus, low byte first and in order: what it reads, and all it leaves behind. -/
theorem wide_access_eq_byte_accesses {size : Nat} (hsize : size = 1 ∨ size = 2 ∨ size = 4)
    (hport : port ∈ Register.ports) (hvacant : bus.Vacant port size) (c : Controller)
    (value : UInt32) :
    bus.write c port size value =
        bus.writeBytes c port (LittleEndian.toBytes size value.toNat) ∧
      bus.read c port size =
        let (bytes, bus, c) := bus.readBytes c port size
        (UInt32.ofNat (LittleEndian.ofBytes bytes), bus, c) := by
  have hdispatched : isDispatched size = true := by
    rcases hsize with rfl | rfl | rfl <;> rfl
  have hlength : bus.Vacant port (LittleEndian.toBytes size value.toNat).length := by
    rwa [LittleEndian.length_toBytes]
  refine ⟨?_, ?_⟩
  · rw [write_controller (h port hport) hdispatched, h.writeBytes hlength]
  · rw [read_controller (h port hport) hdispatched, h.readBytes hvacant]

end HasController

/-- The first byte of this read takes the poll, the second finds the mask, and two ports are of no
register. -/
theorem double_word_read_takes_poll :
    let bus : PortBus Empty := empty.attachController
    let c := ((Controller.new.initLegacy 0x20 0x28).setIrq 9 true).writePorts Register.slaveCommand
      [0x0C, 0xF0]
    bus.HasController ∧ bus.Vacant Register.slaveCommand 4 ∧
      bus.write c Register.slaveCommand 4 0x3011 =
        bus.writeBytes c Register.slaveCommand [0x11, 0x30, 0, 0] ∧
      bus.read c Register.slaveCommand 4 =
        (let (bytes, bus, c) := bus.readBytes c Register.slaveCommand 4
        (UInt32.ofNat (LittleEndian.ofBytes bytes), bus, c)) ∧
      (bus.read c Register.slaveCommand 4).1 = 0xFFFFF001 := by
  intro bus c
  have hregisters : bus.HasController := hasController_attachController _
  have hvacant : bus.Vacant Register.slaveCommand 4 := fun i _ hdevice =>
    not_hasDevice_empty _ ((hasDevice_attachController _ _).mp hdevice).2
  have haccess :=
    hregisters.wide_access_eq_byte_accesses (.inr (.inr rfl)) (by decide) hvacant c 0x3011
  exact ⟨hregisters, hvacant, haccess.1, haccess.2, by decide +kernel⟩

end PortBus
end Mainboard
