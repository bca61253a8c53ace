import Mainboard.Execution.Slice
import Mathlib.Tactic

/-!
# Processors that look alike to the board

A map between the states of two processors is a morphism if it commutes with everything the run loop
asks of a processor. Slices then commute with it too: the loop never looks into a processor's state.
-/
namespace Mainboard

variable {σ τ : Type} {f : σ → τ}

def BlockProgram.map (f : σ → τ) : BlockProgram σ → BlockProgram τ
  | .finish cpu outcome => .finish (f cpu) outcome
  | .observe next => .observe fun memory => (next memory).map f
  | .transact t next => .transact t (next.map f)
  | .armTrap next => .armTrap (next.map f)

def Delivery.map (f : σ → τ) : Delivery σ → Delivery τ
  | .done cpu => .done (f cpu)
  | .acknowledge next => .acknowledge fun vector => (next vector).map f
  | .armTrap next => .armTrap (next.map f)

theorem Delivery.map_map_of_leftInverse {g : τ → σ} (h : Function.LeftInverse g f)
    (delivery : Delivery σ) : (delivery.map f).map g = delivery := by
  induction delivery with
  | done cpu => exact congrArg Delivery.done (h cpu)
  | acknowledge next ih => exact congrArg Delivery.acknowledge (funext ih)
  | armTrap next ih => exact congrArg Delivery.armTrap ih

/-- The map commutes with what slices ask of a processor. -/
structure Processor.Morphism [Processor σ] [Processor τ] (f : σ → τ) : Prop where
  instructionPointer : ∀ s, instructionPointer (f s) = instructionPointer s
  isProtected : ∀ s, isProtected (f s) = isProtected s
  isVirtual8086 : ∀ s, isVirtual8086 (f s) = isVirtual8086 s
  isPaging : ∀ s, isPaging (f s) = isPaging s
  translateLinear : ∀ s memory addr,
    translateLinear (f s) memory addr = (translateLinear s memory addr).map id f
  armsInTranslation : ∀ s memory addr,
    armsInTranslation (f s) memory addr = armsInTranslation s memory addr
  executeBlock : ∀ s mode addr, executeBlock (f s) mode addr = (executeBlock s mode addr).map f
  processInterrupts : ∀ s mode count,
    processInterrupts (f s) mode count = (processInterrupts s mode count).map f
  handleException : ∀ s mode fault,
    handleException (f s) mode fault = (handleException s mode fault).map id f
  armsInHandler : ∀ s mode fault, armsInHandler (f s) mode fault = armsInHandler s mode fault
  raiseInterrupt : ∀ s, raiseInterrupt (f s) = f (raiseInterrupt s)
  clearInterrupt : ∀ s, clearInterrupt (f s) = f (clearInterrupt s)

namespace Core

def map (f : σ → τ) (c : Core σ) : Core τ where
  cpu := f c.cpu
  memory := c.memory
  controller := c.controller
  dispatcher := c.dispatcher

@[simp] theorem cpu_map (c : Core σ) : (c.map f).cpu = f c.cpu := rfl

@[simp] theorem memory_map (c : Core σ) : (c.map f).memory = c.memory := rfl

@[simp] theorem dispatcher_map (c : Core σ) : (c.map f).dispatcher = c.dispatcher := rfl

theorem runProgram_map (c : Core σ) (program : BlockProgram σ) :
    (c.map f).runProgram (program.map f) = (c.runProgram program).map id (map f) := by
  induction program generalizing c with
  | finish cpu outcome => rfl
  | observe next ih => exact ih c.memory c
  | transact t next ih => exact ih { c with memory := c.memory.step t }
  | armTrap next ih => exact ih { c with dispatcher := c.dispatcher.arm }

theorem runDelivery_map (c : Core σ) (delivery : Delivery σ) :
    (c.map f).runDelivery (delivery.map f) = (c.runDelivery delivery).map f := by
  induction delivery generalizing c with
  | done cpu => rfl
  | acknowledge next ih => exact ih _ { c with controller := c.controller.acknowledge.2 }
  | armTrap next ih => exact ih { c with dispatcher := c.dispatcher.arm }

theorem takeTrap_map (c : Core σ) : (c.map f).takeTrap = c.takeTrap.map id (map f) := by
  unfold takeTrap
  rw [dispatcher_map]
  split_ifs <;> rfl

variable [Processor σ] [Processor τ]

theorem forwardIntr_map (h : Processor.Morphism f) (c : Core σ) :
    (c.map f).forwardIntr = c.forwardIntr.map f := by
  unfold forwardIntr map
  dsimp only
  split_ifs
  · rw [h.clearInterrupt, h.raiseInterrupt]
  · rw [h.raiseInterrupt]
  · rw [h.clearInterrupt]
  · rfl

theorem translate_map (h : Processor.Morphism f) (c : Core σ) (space : Space) (addr : UInt32) :
    (c.map f).translate space addr = (c.translate space addr).map id (map f) := by
  unfold translate
  rw [cpu_map, memory_map, h.isPaging, h.translateLinear, h.armsInTranslation]
  split_ifs <;> rfl

theorem executeInMode_map (h : Processor.Morphism f) (c : Core σ) (space : Space) (mode : Mode) :
    (c.map f).executeInMode space mode = (c.executeInMode space mode).map id (map f) := by
  unfold executeInMode
  rw [cpu_map, h.instructionPointer, translate_map h]
  obtain ⟨result, d⟩ := c.translate space (Processor.instructionPointer c.cpu)
  cases result with
  | error e => rfl
  | ok addr =>
    dsimp only [Prod.map_apply, id_eq]
    rw [memory_map]
    cases d.memory.fetch addr with
    | error e => rfl
    | ok _ =>
      dsimp only
      rw [cpu_map, h.executeBlock, runProgram_map]

theorem countRetired_map (h : Processor.Morphism f) (c : Core σ) (mode : Mode) (count : UInt32) :
    (c.map f).countRetired mode count = (c.countRetired mode count).map f := by
  unfold countRetired
  dsimp only
  rw [dispatcher_map, cpu_map, h.processInterrupts, runDelivery_map, forwardIntr_map h]
  split_ifs <;> rfl

theorem deliver_map (h : Processor.Morphism f) (c : Core σ) (mode : Mode) (fault : Fault) :
    (c.map f).deliver mode fault = (c.deliver mode fault).map id (map f) := by
  unfold deliver
  rw [cpu_map, h.handleException, h.armsInHandler]
  obtain ⟨result, cpu⟩ := Processor.handleException c.cpu mode fault
  dsimp only [Prod.map_apply, id_eq]
  split <;> rfl

theorem leave_map (h : Processor.Morphism f) (c : Core σ) (mode : Mode) (reason : ProcessorExit) :
    (c.map f).leave mode reason = (c.leave mode reason).map id (map f) := by
  cases reason with
  | fault fault => exact deliver_map h c mode fault
  | _ => rfl

theorem runBlock_map (h : Processor.Morphism f) (c : Core σ) (mode : Mode) :
    (c.map f).runBlock mode = (c.runBlock mode).map id (Prod.map id (map f)) := by
  unfold runBlock
  rw [executeInMode_map h]
  obtain ⟨result, d⟩ := c.executeInMode (.ofMode mode) mode
  cases result with
  | ok count =>
    dsimp only [Prod.map_apply, id_eq]
    rw [countRetired_map h, takeTrap_map]
    rfl
  | error reason =>
    dsimp only [Prod.map_apply, id_eq]
    rw [leave_map h]
    rfl

theorem runBlocks_map (h : Processor.Morphism f) (c : Core σ) (mode : Mode) (executed : UInt32)
    (n : Nat) :
    (c.map f).runBlocks mode executed n = (c.runBlocks mode executed n).map id (map f) := by
  induction n generalizing c executed with
  | zero => rfl
  | succ n ih =>
    unfold runBlocks
    rw [runBlock_map h]
    obtain ⟨count, exit, d⟩ := c.runBlock mode
    cases exit with
    | none => exact ih d _
    | some exit => rfl

theorem runSlice_map (h : Processor.Morphism f) (c : Core σ) :
    (c.map f).runSlice = c.runSlice.map id (map f) := by
  have hmode : Processor.mode (f c.cpu) = Processor.mode c.cpu := by
    unfold Processor.mode
    rw [h.isProtected, h.isVirtual8086]
  unfold runSlice
  rw [cpu_map, hmode, h.isPaging]
  exact runBlocks_map h { c with memory := c.memory.setPagingActive (Processor.isPaging c.cpu) }
    _ _ _

end Core
end Mainboard
