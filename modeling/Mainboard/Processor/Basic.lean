import Mainboard.Fault.Chain
import Mainboard.Memory.Transaction
import Mainboard.Processor.Mode

/-!
# The processor as the board sees it

The board does not decode instructions. A processor tells its mode flags, runs one block at a
time, takes interrupts and exceptions, and can be reset. What it does to the bus during a block
is a tree of actions: to look at the bus, to carry out a transaction, to arm the trace trap; the
tree ends with the state of the processor and the number of instructions retired, or the reason
why the block ended early. In the same way taking interrupts is a tree of acknowledges. A
processor with a handle on the trace trap may arm it there too, and while it translates an address
or handles an exception.
-/
namespace Mainboard

/-- Why a block ended early, or why an exception could not be delivered. -/
inductive ProcessorExit
  | tripleFault
  | modeSwitch
  | fault (fault : Fault)
  | fetch (error : FetchError)
  deriving DecidableEq, Repr

def ProcessorExit.message : ProcessorExit → String
  | .tripleFault => "triple fault"
  | .modeSwitch => "processor mode switch"
  | .fault f => f.message
  | .fetch e => e.message

/-- What a processor does in one block. -/
inductive BlockProgram (σ : Type)
  | finish (cpu : σ) (outcome : Except ProcessorExit UInt32)
  | observe (next : Memory → BlockProgram σ)
  | transact (t : Transaction) (next : BlockProgram σ)
  | armTrap (next : BlockProgram σ)

/-- What a processor does when interrupts may be taken. -/
inductive Delivery (σ : Type)
  | done (cpu : σ)
  | acknowledge (next : UInt8 → Delivery σ)
  | armTrap (next : Delivery σ)

class Processor (σ : Type) where
  /-- The linear address of the next instruction. -/
  instructionPointer : σ → UInt32
  isProtected : σ → Bool
  isVirtual8086 : σ → Bool
  isPaging : σ → Bool := fun _ => false
  /-- Translate a linear address; asked only while paging. -/
  translateLinear : σ → Memory → UInt32 → Except Fault UInt32 × σ :=
    fun cpu _ addr => (.ok addr, cpu)
  /-- Whether the trace trap is armed by that. -/
  armsInTranslation : σ → Memory → UInt32 → Bool := fun _ _ _ => false
  /-- Run the block at a physical address. -/
  executeBlock : σ → Mode → UInt32 → BlockProgram σ
  /-- Take interrupts after the given number of instructions. -/
  processInterrupts : σ → Mode → UInt32 → Delivery σ
  handleException : σ → Mode → Fault → Except ProcessorExit Unit × σ
  /-- Whether the trace trap is armed by that. -/
  armsInHandler : σ → Mode → Fault → Bool := fun _ _ _ => false
  /-- Assert the INTR pin. -/
  raiseInterrupt : σ → σ
  /-- Deassert the INTR pin. -/
  clearInterrupt : σ → σ
  reset : σ → σ

namespace Processor

variable {σ : Type} [Processor σ]

def mode (cpu : σ) : Mode := .ofFlags (isProtected cpu) (isVirtual8086 cpu)

end Processor
end Mainboard
