import Mainboard.Proofs.Execution.Morphism

/-!
# A processor that keeps a log

Any processor can be given a log of the blocks that it was asked to run and of the interrupts that
it was offered. The log is part of its state and the board cannot see it, so a recorded run forgets
to the run without the log. What the run loop writes into the log is told together with what it does
to its own count.
-/
namespace Mainboard

inductive Event
  /-- A block succeeded, and retired this many instructions. -/
  | retired (count : UInt32)
  /-- A block failed. -/
  | failed
  /-- Interrupts were offered, after this many instructions. -/
  | offered (count : UInt32)
  deriving DecidableEq, Repr

namespace Event

def block? : Event → Option (Option UInt32)
  | .retired count => some (some count)
  | .failed => some none
  | .offered _ => none

def ofOutcome : Except ProcessorExit UInt32 → Event
  | .ok count => .retired count
  | .error _ => .failed

end Event

structure Recorded (σ : Type) where
  cpu : σ
  log : List Event

variable {σ : Type}

def Recorded.start (cpu : σ) : Recorded σ := ⟨cpu, []⟩

def BlockProgram.record (log : List Event) : BlockProgram σ → BlockProgram (Recorded σ)
  | .finish cpu outcome => .finish ⟨cpu, log ++ [.ofOutcome outcome]⟩ outcome
  | .observe next => .observe fun memory => (next memory).record log
  | .transact t next => .transact t (next.record log)
  | .armTrap next => .armTrap (next.record log)

theorem BlockProgram.map_record (log : List Event) (program : BlockProgram σ) :
    (program.record log).map Recorded.cpu = program := by
  induction program with
  | finish cpu outcome => rfl
  | observe next ih => exact congrArg BlockProgram.observe (funext ih)
  | transact t next ih => exact congrArg (BlockProgram.transact t) ih
  | armTrap next ih => exact congrArg BlockProgram.armTrap ih

/-! ## What is counted and written -/

/-- The limits of a run loop, the instructions it counted since interrupts were last offered, and
the log of its processor. -/
structure Tally where
  maxBlocks : UInt32
  cadence : UInt32
  since : UInt32
  log : List Event

namespace Tally

def note (t : Tally) (event : Event) : Tally := { t with log := t.log ++ [event] }

def offer (t : Tally) (count : UInt32) : Tally :=
  let sum := saturatingAdd t.since count
  if t.cadence ≤ sum then { t with since := 0, log := t.log ++ [.offered sum] }
  else { t with since := sum }

def attempt (t : Tally) : Option UInt32 → Tally
  | some count => (t.note (.retired count)).offer count
  | none => t.note .failed

end Tally

namespace Core

def tally (c : Core (Recorded σ)) : Tally where
  maxBlocks := c.dispatcher.maxBlocks
  cadence := c.dispatcher.cadence
  since := c.dispatcher.sinceDelivery
  log := c.cpu.log

theorem tally_runProgram (c : Core (Recorded σ)) (log : List Event) (program : BlockProgram σ) :
    (c.runProgram (program.record log)).2.tally =
      { c.tally with log := log ++ [.ofOutcome (c.runProgram (program.record log)).1] } := by
  induction program generalizing c with
  | finish cpu outcome => rfl
  | observe next ih => exact ih c.memory c
  | transact t next ih => exact ih { c with memory := c.memory.step t }
  | armTrap next ih => exact ih { c with dispatcher := c.dispatcher.arm }

theorem tally_runDelivery (c : Core (Recorded σ)) (log : List Event) (delivery : Delivery σ) :
    (c.runDelivery (delivery.map fun cpu => ⟨cpu, log⟩)).tally = { c.tally with log := log } := by
  induction delivery generalizing c with
  | done cpu => rfl
  | acknowledge next ih => exact ih _ { c with controller := c.controller.acknowledge.2 }
  | armTrap next ih => exact ih { c with dispatcher := c.dispatcher.arm }

@[simp] theorem tally_takeTrap (c : Core (Recorded σ)) : c.takeTrap.2.tally = c.tally := by
  unfold takeTrap
  split_ifs <;> rfl

end Core

/-! ## The processor with a log -/

variable [Processor σ]

instance : Processor (Recorded σ) where
  instructionPointer r := Processor.instructionPointer r.cpu
  isProtected r := Processor.isProtected r.cpu
  isVirtual8086 r := Processor.isVirtual8086 r.cpu
  isPaging r := Processor.isPaging r.cpu
  translateLinear r memory addr :=
    (Processor.translateLinear r.cpu memory addr).map id fun cpu => ⟨cpu, r.log⟩
  armsInTranslation r := Processor.armsInTranslation r.cpu
  executeBlock r mode addr := (Processor.executeBlock r.cpu mode addr).record r.log
  processInterrupts r mode count :=
    (Processor.processInterrupts r.cpu mode count).map fun cpu => ⟨cpu, r.log ++ [.offered count]⟩
  handleException r mode fault :=
    (Processor.handleException r.cpu mode fault).map id fun cpu => ⟨cpu, r.log⟩
  armsInHandler r := Processor.armsInHandler r.cpu
  raiseInterrupt r := ⟨Processor.raiseInterrupt r.cpu, r.log⟩
  clearInterrupt r := ⟨Processor.clearInterrupt r.cpu, r.log⟩
  reset r := ⟨Processor.reset r.cpu, r.log⟩

theorem Recorded.morphism : Processor.Morphism (Recorded.cpu : Recorded σ → σ) where
  instructionPointer _ := rfl
  isProtected _ := rfl
  isVirtual8086 _ := rfl
  isPaging _ := rfl
  translateLinear _ _ _ := rfl
  armsInTranslation _ _ _ := rfl
  executeBlock r mode addr :=
    (BlockProgram.map_record r.log (Processor.executeBlock r.cpu mode addr)).symm
  processInterrupts r mode count :=
    (Delivery.map_map_of_leftInverse (fun _ => rfl)
      (Processor.processInterrupts r.cpu mode count)).symm
  handleException _ _ _ := rfl
  armsInHandler _ _ _ := rfl
  raiseInterrupt _ := rfl
  clearInterrupt _ := rfl

namespace Core

@[simp] theorem tally_forwardIntr (c : Core (Recorded σ)) : c.forwardIntr.tally = c.tally := by
  unfold forwardIntr
  dsimp only
  split_ifs <;> rfl

theorem tally_translate (c : Core (Recorded σ)) (space : Space) (addr : UInt32) :
    (c.translate space addr).2.tally = c.tally := by
  unfold translate
  split_ifs <;> rfl

/-- A block that runs is noted with its outcome. One that cannot be fetched fails unnoted. -/
theorem executeInMode_cases (c : Core (Recorded σ)) (space : Space) (mode : Mode) :
    (c.executeInMode space mode).2.tally =
        c.tally.note (.ofOutcome (c.executeInMode space mode).1) ∨
      (c.executeInMode space mode).1.isOk = false ∧
        (c.executeInMode space mode).2.tally = c.tally := by
  have htranslate := c.tally_translate space (Processor.instructionPointer c.cpu)
  unfold executeInMode
  cases hstep : c.translate space (Processor.instructionPointer c.cpu) with
  | mk result d =>
    rw [hstep] at htranslate
    cases result with
    | error e => exact Or.inr ⟨rfl, htranslate⟩
    | ok addr =>
      dsimp only
      cases d.memory.fetch addr with
      | error e => exact Or.inr ⟨rfl, htranslate⟩
      | ok _ =>
        left
        rw [← htranslate]
        exact d.tally_runProgram d.cpu.log (Processor.executeBlock d.cpu.cpu mode addr)

theorem tally_countRetired (c : Core (Recorded σ)) (mode : Mode) (count : UInt32) :
    (c.countRetired mode count).tally = c.tally.offer count := by
  have hcadence : c.tally.cadence = c.dispatcher.cadence := rfl
  have hsince : c.tally.since = c.dispatcher.sinceDelivery := rfl
  unfold countRetired Tally.offer
  dsimp only
  rw [hcadence, hsince]
  split_ifs
  · have hdelivery := c.tally_runDelivery
      (c.cpu.log ++ [.offered (saturatingAdd c.dispatcher.sinceDelivery count)])
      (Processor.processInterrupts c.cpu.cpu mode (saturatingAdd c.dispatcher.sinceDelivery count))
    have hforward := (tally_forwardIntr _).trans hdelivery
    exact congrArg (fun t : Tally => { t with since := 0 }) hforward
  · rfl

end Core

/-- The slice was ended by a block that did not succeed. -/
def SliceExit.byFailedBlock : SliceExit → Bool
  | .completed => false
  | .traceTrap => false
  | _ => true

namespace Core

theorem byFailedBlock_leave (c : Core (Recorded σ)) (mode : Mode) (reason : ProcessorExit) :
    (c.leave mode reason).1.byFailedBlock = true := by
  cases reason with
  | fault fault =>
    change (c.deliver mode fault).1.byFailedBlock = true
    unfold deliver
    dsimp only
    split <;> rfl
  | _ => rfl

theorem tally_leave (c : Core (Recorded σ)) (mode : Mode) (reason : ProcessorExit) :
    (c.leave mode reason).2.tally = c.tally := by
  cases reason with
  | fault fault =>
    change (c.deliver mode fault).2.tally = c.tally
    unfold deliver
    dsimp only
    split <;> rfl
  | _ => rfl

/-- A block either succeeds, is counted and leaves at most a trace trap, or it fails, counts for
nothing and ends the slice. A block that fails may not have reached the processor. -/
theorem runBlock_cases (c : Core (Recorded σ)) (mode : Mode) :
    (∃ count exit d, c.runBlock mode = (count, exit, d) ∧ (exit = none ∨ exit = some .traceTrap) ∧
      d.tally = c.tally.attempt (some count)) ∨
    ∃ exit d, c.runBlock mode = (0, some exit, d) ∧ exit.byFailedBlock = true ∧
      (d.tally = c.tally ∨ d.tally = c.tally.attempt none) := by
  have hexecute := c.executeInMode_cases (.ofMode mode) mode
  unfold runBlock
  cases hresult : c.executeInMode (.ofMode mode) mode with
  | mk result d =>
    rw [hresult] at hexecute
    cases result with
    | ok count =>
      have hnoted : d.tally = c.tally.note (.retired count) :=
        hexecute.resolve_right fun hfailed => Bool.noConfusion hfailed.1
      left
      refine ⟨count, _, (d.countRetired mode count).takeTrap.2, rfl, ?_, ?_⟩
      · split_ifs
        · exact Or.inr rfl
        · exact Or.inl rfl
      · rw [tally_takeTrap, tally_countRetired, hnoted]
        rfl
    | error reason =>
      right
      refine ⟨_, (d.leave mode reason).2, rfl, d.byFailedBlock_leave mode reason, ?_⟩
      rw [tally_leave]
      rcases hexecute with hnoted | ⟨-, hsame⟩
      · exact Or.inr hnoted
      · exact Or.inl hsame

end Core
end Mainboard
