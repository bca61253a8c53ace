import Mainboard.Execution.Core

/-!
# Slices of execution

A slice runs blocks in the mode that the processor has at its start, up to the dispatcher's limit
or until a block ends it. After a block that succeeds the retired instructions are counted, and
interrupts are offered when the count reaches the cadence; then an armed trap ends the slice. The
count is carried from slice to slice.
-/
namespace Mainboard

/-- Why a slice ended. -/
inductive SliceExit
  | completed
  | traceTrap
  | modeSwitch
  | fault (fault : Fault)
  | tripleFault
  | fetch (error : FetchError)
  deriving DecidableEq, Repr

structure Slice where
  executed : UInt32
  exit : SliceExit
  deriving DecidableEq, Repr

/-- The sum of two words, or the largest word if it does not fit. -/
def saturatingAdd (a b : UInt32) : UInt32 :=
  if a.toNat + b.toNat < UInt32.size then a + b else UInt32.ofNat (UInt32.size - 1)

theorem toNat_saturatingAdd (a b : UInt32) :
    (saturatingAdd a b).toNat = min (a.toNat + b.toNat) (UInt32.size - 1) := by
  unfold saturatingAdd UInt32.size
  split
  · rw [UInt32.toNat_add]
    omega
  · simp only [UInt32.toNat_ofNat']
    omega

namespace Core

variable {σ : Type} [Processor σ]

/-- Count retired instructions, and offer interrupts when the count reaches the cadence. -/
def countRetired (c : Core σ) (mode : Mode) (count : UInt32) : Core σ :=
  let since := saturatingAdd c.dispatcher.sinceDelivery count
  if c.dispatcher.cadence ≤ since then
    let c := (c.runDelivery (Processor.processInterrupts c.cpu mode since)).forwardIntr
    { c with dispatcher := { c.dispatcher with sinceDelivery := 0 } }
  else { c with dispatcher := { c.dispatcher with sinceDelivery := since } }

/-- Take the trace trap. A trap that was armed leaves its mark. -/
def takeTrap (c : Core σ) : Bool × Core σ :=
  if c.dispatcher.trapArmed then
    (true, { c with dispatcher := { c.dispatcher with trapArmed := false, traceHit := true } })
  else (false, c)

/-- End a slice with a triple fault, which marks both sticky flags. -/
def tripleFault (c : Core σ) : SliceExit × Core σ :=
  (.tripleFault,
    { c with dispatcher := { c.dispatcher with tripleFaulted := true, traceHit := true } })

/-- Hand an exception to the processor. -/
def deliver (c : Core σ) (mode : Mode) (fault : Fault) : SliceExit × Core σ :=
  let (result, cpu) := Processor.handleException c.cpu mode fault
  let dispatcher := c.dispatcher.armIf (Processor.armsInHandler c.cpu mode fault)
  let c := { c with cpu := cpu, dispatcher := dispatcher }
  match result with
  | .error .tripleFault => c.tripleFault
  | .error .modeSwitch => (.modeSwitch, c)
  | _ => (.fault fault, c)

/-- How a block that ended early ends the slice. -/
def leave (c : Core σ) (mode : Mode) : ProcessorExit → SliceExit × Core σ
  | .modeSwitch => (.modeSwitch, c)
  | .fault fault => c.deliver mode fault
  | .tripleFault => c.tripleFault
  | .fetch e => (.fetch e, c)

/-- Run one block: the instructions it retired, and the exit if it ends the slice. -/
def runBlock (c : Core σ) (mode : Mode) : UInt32 × Option SliceExit × Core σ :=
  match c.executeInMode (.ofMode mode) mode with
  | (.ok count, c) =>
    let (trapped, c) := (c.countRetired mode count).takeTrap
    (count, if trapped then some .traceTrap else none, c)
  | (.error e, c) =>
    let (exit, c) := c.leave mode e
    (0, some exit, c)

/-- Run blocks until one ends the slice, at most the given number. -/
def runBlocks (c : Core σ) (mode : Mode) (executed : UInt32) : Nat → Slice × Core σ
  | 0 => (⟨executed, .completed⟩, c)
  | n + 1 =>
    let (count, exit, c) := c.runBlock mode
    let executed := saturatingAdd executed count
    match exit with
    | some exit => (⟨executed, exit⟩, c)
    | none => c.runBlocks mode executed n

/-- Run a slice. The bus learns first whether the processor is paging. -/
def runSlice (c : Core σ) : Slice × Core σ :=
  let mode := Processor.mode c.cpu
  let c := { c with memory := c.memory.setPagingActive (Processor.isPaging c.cpu) }
  c.runBlocks mode 0 c.dispatcher.maxBlocks.toNat

end Core
end Mainboard
