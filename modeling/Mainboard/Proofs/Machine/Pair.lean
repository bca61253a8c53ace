import Mainboard.Proofs.Machine.Traffic

/-!
# What a machine does to its interrupt controllers

A machine changes the pair of chips by operations of the pair only: through its ports, by
acknowledges, when it forwards requests to the INTR pin, and in its reset. A restore amounts to a
reset of the pair followed by a restore of it. So what every operation of the pair keeps, every
operation of a machine keeps.
-/
namespace Mainboard

def Controller.Kept (P : Controller → Prop) : Prop := ∀ c op, P c → P (c.step op)

variable {σ δ : Type} {P : Controller → Prop}

/-! ## Ports -/

namespace Controller.Kept

variable {c : Controller}

theorem readPorts (hP : Controller.Kept P) (h : P c) (port : UInt16) (n : Nat) :
    P (c.readPorts port n).2 := by
  induction n generalizing c port with
  | zero => exact h
  | succ n ih => exact ih (hP c (.readPort port) h) (port + 1)

theorem writePorts (hP : Controller.Kept P) (h : P c) (port : UInt16) (bs : Bytes) :
    P (c.writePorts port bs) := by
  induction bs generalizing c port with
  | nil => exact h
  | cons b bs ih => exact ih (hP c (.writePort port b) h) (port + 1)

variable [PortDevice δ]

theorem busRead (hP : Controller.Kept P) (h : P c) (bus : PortBus δ) (port : UInt16) (size : Nat) :
    P (bus.read c port size).2.2 := by
  unfold PortBus.read PortBus.dispatchRead
  split_ifs
  · exact h
  · split
    · exact h
    · exact hP.readPorts h port size
    · split <;> exact h
  · exact h

theorem busWrite (hP : Controller.Kept P) (h : P c) (bus : PortBus δ) (port : UInt16) (size : Nat)
    (value : UInt32) : P (bus.write c port size value).2 := by
  unfold PortBus.write PortBus.dispatchWrite
  split_ifs
  · split
    · exact h
    · exact hP.writePorts h port _
    · split <;> exact h
  · exact h

theorem resetPort (hP : Controller.Kept P) (h : P c) (bus : PortBus δ) (port : UInt16)
    (target : Attachment) : P (bus.resetPort c port target).2 := by
  cases target with
  | device index => exact h
  | controller =>
    dsimp only [PortBus.resetPort]
    split_ifs
    · exact hP c .reset h
    · exact h

theorem busReset (hP : Controller.Kept P) (h : P c) (bus : PortBus δ) : P (bus.reset c).2 := by
  refine List.foldlRecOn (motive := fun reset : PortBus δ × Controller => P reset.2)
    bus.attachments _ h ?_
  rintro ⟨bus, c⟩ hc ⟨port, target⟩ -
  exact hP.resetPort hc bus port target

end Controller.Kept

/-- The ports of a pair that has been reset have nothing left to do to it. -/
theorem PortBus.reset_new [PortDevice δ] (bus : PortBus δ) : (bus.reset .new).2 = .new := by
  unfold reset
  refine List.foldlRecOn (motive := fun state : PortBus δ × Controller => state.2 = .new)
    bus.attachments _ rfl ?_
  rintro ⟨bus, c⟩ rfl ⟨port, target⟩ -
  cases target with
  | controller => exact ite_self _
  | device index => rfl

/-! ## Slices -/

namespace Core

variable {c : Core σ}

theorem controller_runProgram (c : Core σ) (program : BlockProgram σ) :
    (c.runProgram program).2.controller = c.controller := by
  induction program generalizing c with
  | finish cpu outcome => rfl
  | observe next ih => exact ih c.memory c
  | transact t next ih => exact ih { c with memory := c.memory.step t }
  | armTrap next ih => exact ih { c with dispatcher := c.dispatcher.arm }

theorem controller_takeTrap (c : Core σ) : c.takeTrap.2.controller = c.controller := by
  unfold takeTrap
  split_ifs <;> rfl

variable [Processor σ]

theorem controller_executeInMode (c : Core σ) (space : Space) (mode : Mode) :
    (c.executeInMode space mode).2.controller = c.controller := by
  have htranslate : (c.translate space (Processor.instructionPointer c.cpu)).2.controller =
      c.controller := by
    unfold translate
    split_ifs <;> rfl
  unfold executeInMode
  rw [← htranslate]
  obtain ⟨result, d⟩ := c.translate space (Processor.instructionPointer c.cpu)
  cases result with
  | error e => rfl
  | ok addr =>
    dsimp only
    cases d.memory.fetch addr with
    | error e => rfl
    | ok _ => exact d.controller_runProgram _

theorem controller_leave (c : Core σ) (mode : Mode) (reason : ProcessorExit) :
    (c.leave mode reason).2.controller = c.controller := by
  cases reason with
  | fault fault =>
    change (c.deliver mode fault).2.controller = c.controller
    unfold deliver
    dsimp only
    split <;> rfl
  | _ => rfl

end Core

namespace Controller.Kept

theorem runDelivery (hP : Controller.Kept P) {c : Core σ} (h : P c.controller)
    (delivery : Delivery σ) :
    P (c.runDelivery delivery).controller := by
  induction delivery generalizing c with
  | done cpu => exact h
  | acknowledge next ih =>
    exact ih _ (c := { c with controller := c.controller.acknowledge.2 }) (hP _ .acknowledge h)
  | armTrap next ih => exact ih (c := { c with dispatcher := c.dispatcher.arm }) h

theorem forwardIntr [Processor σ] (hP : Controller.Kept P) {c : Core σ} (h : P c.controller) :
    P c.forwardIntr.controller :=
  hP _ .takeRaise (hP _ .takeClear h)

end Controller.Kept

namespace Core

variable [Processor σ]

/-- A property of the pair that is kept when the processor is offered interrupts and what the pair
requests then is forwarded. -/
def OfferKeeps (σ : Type) [Processor σ] (P : Controller → Prop) : Prop :=
  ∀ (c : Core σ) (delivery : Delivery σ), P c.controller →
    P (c.runDelivery delivery).forwardIntr.controller

theorem offerKeeps_of_kept (hP : Controller.Kept P) : OfferKeeps σ P :=
  fun _ delivery h => hP.forwardIntr (hP.runDelivery h delivery)

namespace OfferKeeps

variable {c : Core σ}

theorem countRetired (hP : OfferKeeps σ P) (h : P c.controller) (mode : Mode) (count : UInt32) :
    P (c.countRetired mode count).controller := by
  unfold Core.countRetired
  dsimp only
  split_ifs
  · exact hP _ _ h
  · exact h

theorem runBlock (hP : OfferKeeps σ P) (h : P c.controller) (mode : Mode) :
    P (c.runBlock mode).2.2.controller := by
  rw [← c.controller_executeInMode (.ofMode mode) mode] at h
  unfold Core.runBlock
  generalize c.executeInMode (.ofMode mode) mode = executed at h ⊢
  obtain ⟨result, d⟩ := executed
  cases result with
  | ok count =>
    have hcount := hP.countRetired h mode count
    rw [← Core.controller_takeTrap] at hcount
    exact hcount
  | error reason =>
    rw [← d.controller_leave mode reason] at h
    exact h

theorem runBlocks (hP : OfferKeeps σ P) (h : P c.controller) (mode : Mode) (executed : UInt32)
    (n : Nat) : P (c.runBlocks mode executed n).2.controller := by
  induction n generalizing c executed with
  | zero => exact h
  | succ n ih =>
    have hblock := hP.runBlock h mode
    unfold Core.runBlocks
    generalize c.runBlock mode = ran at hblock ⊢
    obtain ⟨count, exit, d⟩ := ran
    cases exit with
    | some exit => exact hblock
    | none => exact ih hblock _

/-- Between the offers of a slice nothing touches the pair, whatever ends it. -/
theorem runSlice (hP : OfferKeeps σ P) (h : P c.controller) : P c.runSlice.2.controller :=
  hP.runBlocks (c := { c with memory := c.memory.setPagingActive (Processor.isPaging c.cpu) }) h
    _ _ _

end OfferKeeps
end Core

/-! ## The machine -/

namespace Machine

variable {m : Machine σ δ}

theorem controller_setSystemBios (m : Machine σ δ) (image : Bytes) :
    (left (m.setSystemBios image)).controller = m.controller := by
  unfold setSystemBios updateMemory
  dsimp only
  cases m.memory.loadSystemBios image <;> rfl

/-- What has been staged are the payloads of a container. The pair has been restored from the state
after power on, and the dispatcher's payload, if there is one, is known to describe a dispatcher. -/
theorem exists_of_stage {input : Bytes} {staged : Staged} (h : stage input = .ok staged) :
    ∃ c saved, Container.parseFor input deviceId deviceVersion = .ok c ∧
      c.bytes Tag.memory = some staged.memory ∧ c.bytes Tag.controller = some saved ∧
      Controller.new.restored saved = .ok staged.controller ∧
      c.bytes Tag.dispatcher = staged.dispatcher ∧
      ∀ payload, staged.dispatcher = some payload →
        ∃ d, Dispatcher.default.restored payload = .ok d := by
  have required_eq_ok : ∀ {c : Container} {tag fault payload}, required c tag fault = .ok payload →
      c.bytes tag = some payload := by
    intro c tag fault payload hpayload
    unfold required at hpayload
    split at hpayload <;> cases hpayload
    assumption
  simp only [stage, except_bind_eq_ok_iff] at h
  obtain ⟨c, hparse, memory, hmemory, saved, hsaved, controller, hrestored, h⟩ := h
  split at h
  · rename_i hnone
    cases h
    exact ⟨c, saved, hparse, required_eq_ok hmemory, required_eq_ok hsaved, hrestored, hnone, nofun⟩
  · rename_i payload hsome
    obtain ⟨d, hd, hstaged⟩ := except_bind_eq_ok_iff.mp h
    cases hstaged
    refine ⟨c, saved, hparse, required_eq_ok hmemory, required_eq_ok hsaved, hrestored, hsome, ?_⟩
    rintro _ ⟨⟩
    exact ⟨d, hd⟩

theorem keeps_load (hP : Controller.Kept P) (h : P m.controller) (input : Bytes) :
    P (left (m.load input)).controller := by
  unfold load
  cases hstage : stage input with
  | error e => exact h
  | ok staged =>
    dsimp only
    obtain ⟨-, saved, -, -, -, hrestored, -, -⟩ := exists_of_stage hstage
    -- The staged pair is what a reset and then a restore leave of any pair.
    have hload : Controller.new.step (.load saved) = staged.controller := by
      simp only [Controller.step, Controller.load, hrestored]
    have hstaged : P staged.controller := hload ▸ hP _ (.load saved) (hP m.controller .reset h)
    cases m.memory.load staged.memory with
    | error e memory => exact h
    | ok u memory =>
      dsimp only
      cases staged.dispatcher with
      | none => exact hstaged
      | some saved =>
        dsimp only
        split <;> exact hstaged

variable [Processor σ]

theorem keeps_forwardIntr (hP : Controller.Kept P) (h : P m.controller) :
    P m.forwardIntr.controller := Controller.Kept.forwardIntr hP h

theorem keeps_restore (hP : Controller.Kept P) (h : P m.controller) (input : Bytes) :
    P (left (m.restore input)).controller := by
  have hload := keeps_load hP h input
  unfold restore
  cases hresult : m.load input with
  | error e n =>
    rw [hresult] at hload
    exact hload
  | ok u n =>
    rw [hresult] at hload
    exact hP _ .takeClear (hP _ .takeRaise hload)

theorem keeps_configure (hP : Controller.Kept P) (h : P m.controller) :
    P (left m.configure).controller := by
  unfold configure updateMemory
  dsimp only
  cases installMemory m.config m.bios m.memory with
  | error e memory => exact h
  | ok u memory => exact keeps_forwardIntr hP (hP _ (.initLegacy _ _) h)

theorem keeps_new (hP : Controller.Kept P) (h : P .new) {config : Config} {cpu : σ}
    {regions : Array Region} (hnew : new config cpu regions = .ok m) : P m.controller := by
  rw [← (new_eq_ok_iff.mp hnew).2]
  exact keeps_configure (m := (assemble config cpu regions : Machine σ δ)) hP h

variable [PortDevice δ]

theorem keeps_reset (hP : Controller.Kept P) (h : P m.controller) : P (left m.reset).controller :=
  keeps_configure hP (hP.busReset (hP _ .reset h) m.ports)

theorem keeps_executeSlice (hP : Controller.Kept P) (h : P m.controller) :
    P (left m.executeSlice).controller := by
  have hslice : P m.core.runSlice.2.controller := (Core.offerKeeps_of_kept hP).runSlice h
  rw [left_executeSlice]
  split_ifs
  · exact keeps_reset (m := { m with core := m.core.runSlice.2 }) hP hslice
  · exact hslice

theorem keeps_execute (hP : Controller.Kept P) (h : P m.controller) :
    P (left m.execute).controller := by
  rw [left_execute]
  exact keeps_executeSlice hP h

theorem keeps_step (hP : Controller.Kept P) (h : P m.controller) (op : Operation σ δ) :
    P (m.step op).controller := by
  cases op with
  | setSystemBios image =>
    have hsame : (m.step (.setSystemBios image)).controller = m.controller :=
      m.controller_setSystemBios image
    rwa [hsame]
  | reset => exact keeps_reset hP h
  | executeSlice => exact keeps_executeSlice hP h
  | execute => exact keeps_execute hP h
  | setIrq line level => exact keeps_forwardIntr hP (hP _ (.setIrq line level) h)
  | acknowledge => exact keeps_forwardIntr hP (hP _ .acknowledge h)
  | readPort port size => exact keeps_forwardIntr hP (hP.busRead h m.ports port size)
  | writePort port size value => exact keeps_forwardIntr hP (hP.busWrite h m.ports port size value)
  | load input => exact keeps_load hP h input
  | restore input => exact keeps_restore hP h input
  | controller op => exact hP _ op h
  | _ => exact h

/-- What every operation of the pair keeps holds of the pair in a machine after any run. -/
theorem keeps_run (hP : Controller.Kept P) (h : P m.controller) (ops : List (Operation σ δ)) :
    P (m.run ops).controller := by
  induction ops generalizing m with
  | nil => exact h
  | cons op ops ih => exact ih (keeps_step hP h op)

end Machine
end Mainboard
