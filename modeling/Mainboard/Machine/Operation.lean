import Mainboard.Interrupt.Operation
import Mainboard.Machine.Snapshot

/-!
# Operations of a machine

Everything that an owner can do to a machine, as data, and runs of operations. Beside the operations
of the machine itself an owner has hold of its bus, its controller, its processor, its ports and its
trace trap, and can change each of them in between.
-/
namespace Mainboard
namespace Machine

inductive Operation (σ δ : Type)
  | setSystemBios (image : Bytes)
  | reset
  | executeSlice
  | execute
  | takeTraceHit
  | takeTripleFaulted
  | setIrq (line : Nat) (level : Bool)
  | acknowledge
  | readPort (port : UInt16) (size : Nat)
  | writePort (port : UInt16) (size : Nat) (value : UInt32)
  | load (input : Bytes)
  | restore (input : Bytes)
  | memory (t : Transaction)
  | controller (op : Controller.Operation)
  | setCpu (cpu : σ)
  | setPorts (ports : PortBus δ)
  | setTrap (armed : Bool)

variable {σ δ ε α : Type}

/-- The machine that a result leaves, whether it is an error or not. -/
def left : EStateM.Result ε (Machine σ δ) α → Machine σ δ
  | .ok _ m => m
  | .error _ m => m

variable [Processor σ] [PortDevice δ]

/-- The machine after an operation. -/
def step (m : Machine σ δ) : Operation σ δ → Machine σ δ
  | .setSystemBios image => left (m.setSystemBios image)
  | .reset => left m.reset
  | .executeSlice => left m.executeSlice
  | .execute => left m.execute
  | .takeTraceHit => m.setDispatcher m.core.dispatcher.takeTraceHit.2
  | .takeTripleFaulted => m.setDispatcher m.core.dispatcher.takeTripleFaulted.2
  | .setIrq line level => m.setIrq line level
  | .acknowledge => m.acknowledge.2
  | .readPort port size => (m.readPort port size).2
  | .writePort port size value => m.writePort port size value
  | .load input => left (m.load input)
  | .restore input => left (m.restore input)
  | .memory t => m.setMemory (m.memory.step t)
  | .controller op => m.setController (m.controller.step op)
  | .setCpu cpu => { m with core := { m.core with cpu := cpu } }
  | .setPorts ports => { m with ports := ports }
  | .setTrap armed => m.setDispatcher { m.core.dispatcher with trapArmed := armed }

/-- The machine after operations in order. -/
def run (m : Machine σ δ) (ops : List (Operation σ δ)) : Machine σ δ := ops.foldl step m

@[simp] theorem run_nil (m : Machine σ δ) : m.run [] = m := rfl

@[simp] theorem run_cons (m : Machine σ δ) (op : Operation σ δ) (ops : List (Operation σ δ)) :
    m.run (op :: ops) = (m.step op).run ops := rfl

end Machine
end Mainboard
