import Mainboard.Processor.Basic

/-!
# A processor that watches its INTR pin

The least that a board can drive. What the board does to the pin can be read off its state.
-/
namespace Mainboard

/-- A processor that never retires an instruction and keeps the levels that its INTR pin was driven
to, the last one first. -/
structure PinLog where
  levels : List Bool
  deriving DecidableEq, Repr

instance : Processor PinLog where
  instructionPointer _ := 0
  isProtected _ := false
  isVirtual8086 _ := false
  executeBlock cpu _ _ := .finish cpu (.ok 0)
  processInterrupts cpu _ _ := .done cpu
  handleException cpu _ fault := (.error (.fault fault), cpu)
  raiseInterrupt cpu := ⟨true :: cpu.levels⟩
  clearInterrupt cpu := ⟨false :: cpu.levels⟩
  reset cpu := cpu

end Mainboard
