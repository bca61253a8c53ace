import Mainboard.Execution.Core
import Mainboard.Processor.PinLog
import Mainboard.Proofs.Interrupt.Latches

/-!
# Forwarding the latches once or after each access

The latches are two bits for a history of any length. They are enough to drive the INTR pin to the
level that the history asks for: forwarding them, clear before raise, composes in the same way as
laying requests over earlier ones. So it makes no difference to the pin how many accesses are made
in between.
-/
namespace Mainboard

variable {σ : Type}

/-- The function tells the level of the INTR pin from the state of a processor. -/
structure Processor.ShowsPin [Processor σ] (level : σ → Bool) : Prop where
  raise : ∀ cpu, level (raiseInterrupt cpu) = true
  clear : ∀ cpu, level (clearInterrupt cpu) = false

namespace Core

def access (c : Core σ) (op : Controller.Operation) : Core σ :=
  { c with controller := c.controller.step op }

/-- The pair `c` of chips, whose latches wait, against the core `d`, whose latches have been
forwarded after each access. What waits is what would take the pin from `start` to the level that it
has in `d`. -/
structure Waits (level : σ → Bool) (start : Bool) (c : Controller) (d : Core σ) : Prop where
  master : c.master = d.controller.master
  slave : c.slave = d.controller.slave
  intrRaise : d.controller.intrRaise = false
  intrClear : d.controller.intrClear = false
  level : level d.cpu = (c.intrRaise || (start && !c.intrClear))

variable {level : σ → Bool} {start : Bool} {c : Controller} {d : Core σ}

theorem Waits.controller_eq (h : Waits level start c d) :
    d.controller = { c with intrRaise := false, intrClear := false } := by
  change Controller.mk d.controller.master d.controller.slave d.controller.intrRaise
    d.controller.intrClear = _
  rw [h.master, h.slave, h.intrRaise, h.intrClear]

variable [Processor σ]

def accessEach (c : Core σ) (ops : List Controller.Operation) : Core σ :=
  ops.foldl (fun c op => (c.access op).forwardIntr) c

def accessAll (c : Core σ) (ops : List Controller.Operation) : Core σ :=
  { c with controller := c.controller.run ops }.forwardIntr

/-- The level of the pin after a request to raise it, a request to clear it, or neither. -/
theorem level_forwardIntr (hlevel : Processor.ShowsPin level) (c : Core σ) :
    level c.forwardIntr.cpu =
      (c.controller.intrRaise || (level c.cpu && !c.controller.intrClear)) := by
  unfold forwardIntr Controller.takeClear Controller.takeRaise
  dsimp only
  cases c.controller.intrRaise with
  | true => simp [hlevel.raise]
  | false => cases c.controller.intrClear <;> simp [hlevel.clear]

theorem Waits.access (hlevel : Processor.ShowsPin level) (h : Waits level start c d)
    {op : Controller.Operation} (hop : op.isAccess = true) :
    Waits level start (c.step op) (d.access op).forwardIntr := by
  obtain ⟨hmaster, hslave, hraise, hclear⟩ :=
    (Controller.overlaid_of_empty h.master h.slave h.intrRaise h.intrClear).step hop
  refine ⟨hmaster, hslave, rfl, rfl, ?_⟩
  have hcpu : (d.access op).cpu = d.cpu := rfl
  have hcontroller : (d.access op).controller = d.controller.step op := rfl
  rw [level_forwardIntr hlevel, hcpu, hcontroller, h.level, hraise, hclear]
  -- requests over requests over a level, in either order of composition
  generalize (d.controller.step op).intrRaise = raise, (d.controller.step op).intrClear = clear
  cases raise <;> cases clear <;> simp

theorem Waits.run (hlevel : Processor.ShowsPin level) (h : Waits level start c d)
    {ops : List Controller.Operation} (hops : ∀ op ∈ ops, op.isAccess = true) :
    Waits level start (c.run ops) (d.accessEach ops) := by
  unfold accessEach
  induction ops generalizing c d with
  | nil => exact h
  | cons op ops ih =>
    exact ih (h.access hlevel (hops op List.mem_cons_self)) fun op' hop' =>
      hops op' (List.mem_cons_of_mem op hop')

theorem frame_accessEach (d : Core σ) (ops : List Controller.Operation) :
    (d.accessEach ops).memory = d.memory ∧ (d.accessEach ops).dispatcher = d.dispatcher := by
  unfold accessEach
  induction ops generalizing d with
  | nil => exact ⟨rfl, rfl⟩
  | cons op ops ih => exact ih (d.access op).forwardIntr

/-- For any processor whose state shows the level of its pin: from empty latches, accesses to the
pair leave the pin at the same level whether the latches are forwarded once after all accesses or
after each of them. Chips, bus and dispatcher are the same as well, and the latches are empty in the
end. -/
theorem forward_once_eq_each (hlevel : Processor.ShowsPin level) (d : Core σ)
    (hraise : d.controller.intrRaise = false) (hclear : d.controller.intrClear = false)
    (ops : List Controller.Operation) (hops : ∀ op ∈ ops, op.isAccess = true) :
    let once := d.accessAll ops
    let each := d.accessEach ops
    level once.cpu = level each.cpu ∧ once.controller = each.controller ∧
      once.controller.master = (d.controller.run ops).master ∧
      once.controller.slave = (d.controller.run ops).slave ∧
      once.controller.intrRaise = false ∧ once.controller.intrClear = false ∧
      once.memory = each.memory ∧ once.dispatcher = each.dispatcher := by
  intro once each
  have hstart : Waits level (level d.cpu) d.controller d :=
    ⟨rfl, rfl, hraise, hclear, by simp [hraise, hclear]⟩
  have h : Waits level (level d.cpu) (d.controller.run ops) each := hstart.run hlevel hops
  obtain ⟨hmemory, hdispatcher⟩ := d.frame_accessEach ops
  refine ⟨?_, ?_, rfl, rfl, rfl, rfl, hmemory.symm, hdispatcher.symm⟩
  · rw [h.level]
    exact level_forwardIntr hlevel { d with controller := d.controller.run ops }
  · exact h.controller_eq.symm

/-- A request of the timer, then the master set up anew, then a request of the keyboard: the pin of
the processor is driven three times or only once, and high in the end. -/
theorem pin_high_after_reinitialisation :
    let d : Core PinLog := ⟨⟨[]⟩, .new 0 #[], .new, .default⟩
    let ops : List Controller.Operation := [.setIrq 0 true, .writePort Register.masterCommand 0x11,
      .writePort Register.masterData 0x08, .writePort Register.masterData 0x04,
      .writePort Register.masterData 0x01, .setIrq 1 true]
    let level : PinLog → Bool := fun cpu => cpu.levels.headD false
    (d.accessEach ops).cpu.levels = [true, false, true] ∧
      (d.accessAll ops).cpu.levels = [true, false] ∧
      level (d.accessAll ops).cpu = level (d.accessEach ops).cpu := by
  intro d ops level
  have hlevel : Processor.ShowsPin level := ⟨fun _ => rfl, fun _ => rfl⟩
  have hops : ∀ op ∈ ops, op.isAccess = true := by decide
  refine ⟨by decide +kernel, by decide +kernel, ?_⟩
  exact (forward_once_eq_each hlevel d rfl rfl ops hops).1

end Core
end Mainboard
