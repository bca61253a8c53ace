import Mainboard.Proofs.Execution.Recording
import Mainboard.Proofs.History

/-!
# What the processor reports during a slice

Which faults a slice meets and when its trap is armed only the processor knows. A processor that
keeps its reports is the same to the board, and from the reports of a slice it can be told how the
slice ended: a triple fault has been reported by a block or by the handler of an exception, and a
trace trap stands after the first success of a block since the trap was armed, or after a success
and an offer of interrupts in which it was armed.
-/
namespace Mainboard

/-! ## Reports -/

/-- What a processor has done or answered, as far as faults and the trace trap are concerned. -/
inductive Report
  /-- The trace trap was armed in a translation, by a block or by the handler of an exception. -/
  | armed
  /-- The trace trap was armed when interrupts were offered, which is after a success and right
  before the trap is looked at. -/
  | armedInOffer
  /-- A block ended. -/
  | ran (outcome : Except ProcessorExit UInt32)
  /-- The address of a block could not be translated. -/
  | untranslated (fault : Fault)
  /-- An exception was handed to the processor. -/
  | handled (fault : Fault) (outcome : Except ProcessorExit Unit)
  | reset
  deriving DecidableEq

namespace Report

def isTripleFault : Report → Bool
  | .ran (.error .tripleFault) => true
  | .handled _ (.error .tripleFault) => true
  | _ => false

def arms : Report → Bool
  | .armed => true
  | _ => false

/-- A success takes the trap, if it is armed, and a reset forgets it. What an offer arms is taken by
the success before it. -/
def disarms : Report → Bool
  | .ran (.ok _) => true
  | .reset => true
  | _ => false

def ofTranslation : Except Fault UInt32 → List Report
  | .ok _ => []
  | .error fault => [.untranslated fault]

end Report

/-- Whether the trap is armed after reports, armed or not before. -/
def trapAfter (armed : Bool) (reports : List Report) : Bool :=
  flagAfter Report.arms Report.disarms armed reports

section

variable {armed : Bool} {reports : List Report}

@[simp] theorem trapAfter_nil : trapAfter armed [] = armed := rfl

@[simp] theorem trapAfter_armed :
    trapAfter armed (.armed :: reports) = trapAfter true reports := rfl

@[simp] theorem trapAfter_success (count : UInt32) :
    trapAfter armed (.ran (.ok count) :: reports) = trapAfter false reports :=
  congrArg (trapAfter · reports) (Bool.and_false armed)

@[simp] theorem trapAfter_reset : trapAfter armed (.reset :: reports) = trapAfter false reports :=
  congrArg (trapAfter · reports) (Bool.and_false armed)

theorem trapAfter_cons_of_neutral {r : Report} (harms : r.arms = false)
    (hdisarms : r.disarms = false) :
    trapAfter armed (r :: reports) = trapAfter armed reports := by
  unfold trapAfter
  rw [flagAfter_cons, harms, hdisarms]
  simp

theorem trapAfter_append (later : List Report) :
    trapAfter armed (reports ++ later) = trapAfter (trapAfter armed reports) later :=
  flagAfter_append Report.arms Report.disarms armed reports later

theorem trapAfter_iff :
    trapAfter armed reports = true ↔ RaisedSince Report.arms Report.disarms armed reports :=
  flagAfter_iff

theorem trapAfter_replicate_armed (k : Nat) :
    trapAfter armed (List.replicate k .armed) = (armed || k != 0) := by
  induction k generalizing armed with
  | zero => simp
  | succ k ih =>
    rw [List.replicate_succ, trapAfter_armed, ih]
    simp

theorem trapAfter_replicate_toNat (up : Bool) :
    trapAfter armed (List.replicate up.toNat .armed) = (armed || up) := by
  rw [trapAfter_replicate_armed]
  cases up <;> rfl

@[simp] theorem trapAfter_replicate_armedInOffer (k : Nat) :
    trapAfter armed (List.replicate k .armedInOffer) = armed := by
  induction k with
  | zero => rfl
  | succ k ih => rw [List.replicate_succ, trapAfter_cons_of_neutral rfl rfl, ih]

/-- Where nothing takes the trap, it is armed once it has been. -/
theorem trapAfter_of_forall (h : ∀ r ∈ reports, r.disarms = false) :
    trapAfter armed reports = true ↔ armed = true ∨ .armed ∈ reports := by
  induction reports generalizing armed with
  | nil => simp
  | cons r reports ih =>
    have hlater : ∀ up, trapAfter up reports = true ↔ up = true ∨ .armed ∈ reports :=
      fun up => ih fun x hx => h x (List.mem_cons_of_mem r hx)
    cases r with
    | armed => simp [hlater]
    | ran outcome =>
      cases outcome with
      | ok count => cases h _ List.mem_cons_self
      | error reason =>
        rw [trapAfter_cons_of_neutral rfl rfl]
        simp [hlater]
    | reset => cases h _ List.mem_cons_self
    | _ =>
      rw [trapAfter_cons_of_neutral rfl rfl]
      simp [hlater]

end

/-- A processor's state with its reports, oldest first. -/
structure Reporting (σ : Type) where
  cpu : σ
  reports : List Report

variable {σ : Type}

def Reporting.start (cpu : σ) : Reporting σ := ⟨cpu, []⟩

def BlockProgram.report (log : List Report) : BlockProgram σ → BlockProgram (Reporting σ)
  | .finish cpu outcome => .finish ⟨cpu, log ++ [.ran outcome]⟩ outcome
  | .observe next => .observe fun memory => (next memory).report log
  | .transact t next => .transact t (next.report log)
  | .armTrap next => .armTrap (next.report (log ++ [.armed]))

theorem BlockProgram.map_report (log : List Report) (program : BlockProgram σ) :
    (program.report log).map Reporting.cpu = program := by
  induction program generalizing log with
  | finish cpu outcome => rfl
  | observe next ih => exact congrArg BlockProgram.observe (funext fun memory => ih memory log)
  | transact t next ih => exact congrArg (BlockProgram.transact t) (ih log)
  | armTrap next ih => exact congrArg BlockProgram.armTrap (ih _)

def Delivery.report (log : List Report) : Delivery σ → Delivery (Reporting σ)
  | .done cpu => .done ⟨cpu, log⟩
  | .acknowledge next => .acknowledge fun vector => (next vector).report log
  | .armTrap next => .armTrap (next.report (log ++ [.armedInOffer]))

theorem Delivery.map_report (log : List Report) (delivery : Delivery σ) :
    (delivery.report log).map Reporting.cpu = delivery := by
  induction delivery generalizing log with
  | done cpu => rfl
  | acknowledge next ih => exact congrArg Delivery.acknowledge (funext fun vector => ih vector log)
  | armTrap next ih => exact congrArg Delivery.armTrap (ih _)

section

variable [Processor σ]

instance : Processor (Reporting σ) where
  instructionPointer r := Processor.instructionPointer r.cpu
  isProtected r := Processor.isProtected r.cpu
  isVirtual8086 r := Processor.isVirtual8086 r.cpu
  isPaging r := Processor.isPaging r.cpu
  translateLinear r memory addr :=
    let (result, cpu) := Processor.translateLinear r.cpu memory addr
    let armings := .replicate (Processor.armsInTranslation r.cpu memory addr).toNat .armed
    (result, ⟨cpu, r.reports ++ (armings ++ Report.ofTranslation result)⟩)
  armsInTranslation r := Processor.armsInTranslation r.cpu
  executeBlock r mode addr := (Processor.executeBlock r.cpu mode addr).report r.reports
  processInterrupts r mode count :=
    (Processor.processInterrupts r.cpu mode count).report r.reports
  handleException r mode fault :=
    let (result, cpu) := Processor.handleException r.cpu mode fault
    let armings := .replicate (Processor.armsInHandler r.cpu mode fault).toNat .armed
    (result, ⟨cpu, r.reports ++ .handled fault result :: armings⟩)
  armsInHandler r := Processor.armsInHandler r.cpu
  raiseInterrupt r := ⟨Processor.raiseInterrupt r.cpu, r.reports⟩
  clearInterrupt r := ⟨Processor.clearInterrupt r.cpu, r.reports⟩
  reset r := ⟨Processor.reset r.cpu, r.reports ++ [.reset]⟩

theorem Reporting.morphism : Processor.Morphism (Reporting.cpu : Reporting σ → σ) where
  instructionPointer _ := rfl
  isProtected _ := rfl
  isVirtual8086 _ := rfl
  isPaging _ := rfl
  translateLinear _ _ _ := rfl
  armsInTranslation _ _ _ := rfl
  executeBlock r mode addr :=
    (BlockProgram.map_report r.reports (Processor.executeBlock r.cpu mode addr)).symm
  processInterrupts r mode count :=
    (Delivery.map_report r.reports (Processor.processInterrupts r.cpu mode count)).symm
  handleException _ _ _ := rfl
  armsInHandler _ _ _ := rfl
  raiseInterrupt _ := rfl
  clearInterrupt _ := rfl

end

/-! ## How a slice goes -/

def SliceExit.ofHandled (fault : Fault) : Except ProcessorExit Unit → SliceExit
  | .error .tripleFault => .tripleFault
  | .error .modeSwitch => .modeSwitch
  | _ => .fault fault

inductive Raised : ProcessorExit → List Report → Prop
  | ran (reason : ProcessorExit) : Raised reason [.ran (.error reason)]
  | untranslated (fault : Fault) : Raised (.fault fault) [.untranslated fault]
  | unfetched (e : FetchError) : Raised (.fetch e) []

/-- The reports of a block that fails, and how it ends the slice. -/
inductive Failing : List Report → SliceExit → Prop
  | unfetched (e : FetchError) : Failing [] (.fetch e)
  | untranslated (fault : Fault) (outcome : Except ProcessorExit Unit) (k : Nat) :
    Failing (.untranslated fault :: .handled fault outcome :: .replicate k .armed)
      (.ofHandled fault outcome)
  | fault (fault : Fault) (outcome : Except ProcessorExit Unit) (k : Nat) :
    Failing (.ran (.error (.fault fault)) :: .handled fault outcome :: .replicate k .armed)
      (.ofHandled fault outcome)
  | tripleFault : Failing [.ran (.error .tripleFault)] .tripleFault
  | modeSwitch : Failing [.ran (.error .modeSwitch)] .modeSwitch
  | fetch (e : FetchError) : Failing [.ran (.error (.fetch e))] (.fetch e)

/-- The reports of a slice that starts with the trap armed or not, and how it ends. A success goes
on without the trap and stops with it, also if the trap has only been armed in the offer that
follows; a block that fails stops in any case. -/
inductive Traced : Bool → List Report → SliceExit → Prop
  | completed {armed : Bool} : Traced armed [] .completed
  | arm {armed : Bool} {reports : List Report} {exit : SliceExit} :
    Traced true reports exit → Traced armed (.armed :: reports) exit
  | success (count : UInt32) {reports : List Report} {exit : SliceExit} :
    Traced false reports exit → Traced false (.ran (.ok count) :: reports) exit
  | trap {armed : Bool} (count : UInt32) (k : Nat) : (armed || k != 0) = true →
    Traced armed (.ran (.ok count) :: .replicate k .armedInOffer) .traceTrap
  | fail {armed : Bool} {reports : List Report} {exit : SliceExit} :
    Failing reports exit → Traced armed reports exit

variable {armed : Bool} {reports : List Report} {exit : SliceExit}

theorem Traced.arm_replicate {k : Nat} (h : Traced (armed || k != 0) reports exit) :
    Traced armed (List.replicate k .armed ++ reports) exit := by
  induction k generalizing armed with
  | zero => simpa using h
  | succ k ih =>
    refine .arm (ih ?_)
    simpa using h

/-! ### A block that fails -/

theorem Failing.tripleFault_iff (h : Failing reports exit) :
    exit = .tripleFault ↔ ∃ r ∈ reports, r.isTripleFault = true := by
  have hhandled : ∀ fault outcome, SliceExit.ofHandled fault outcome = .tripleFault ↔
      (Report.handled fault outcome).isTripleFault = true := by
    intro fault outcome
    rcases outcome with (_ | _ | _ | _) | _ <;> simp [SliceExit.ofHandled, Report.isTripleFault]
  cases h <;> simp [hhandled, Report.isTripleFault]

/-- A block that fails does not take the trap, and interrupts are not offered after it. -/
theorem Failing.of_mem (h : Failing reports exit) {r : Report} (hr : r ∈ reports) :
    r.disarms = false ∧ r ≠ .armedInOffer := by
  cases h with
  | unfetched e => cases hr
  | untranslated fault outcome k | fault fault outcome k =>
    rcases List.mem_cons.mp hr with rfl | hr
    · exact ⟨rfl, nofun⟩
    rcases List.mem_cons.mp hr with rfl | hr
    · exact ⟨rfl, nofun⟩
    · rw [List.eq_of_mem_replicate hr]
      exact ⟨rfl, nofun⟩
  | _ =>
    rw [List.mem_singleton.mp hr]
    exact ⟨rfl, nofun⟩

theorem Failing.ne_traceTrap (h : Failing reports exit) : exit ≠ .traceTrap := by
  have hhandled : ∀ fault outcome, SliceExit.ofHandled fault outcome ≠ .traceTrap := by
    intro fault outcome
    rcases outcome with (_ | _ | _ | _) | _ <;> simp [SliceExit.ofHandled]
  cases h <;> simp [hhandled]

/-- Only what was raised right before is handed to the processor. -/
theorem Failing.handled (h : Failing reports exit) {fault : Fault}
    {outcome : Except ProcessorExit Unit}
    (hmem : .handled fault outcome ∈ reports) :
    [.untranslated fault, .handled fault outcome] <:+: reports ∨
      [.ran (.error (.fault fault)), .handled fault outcome] <:+: reports := by
  cases h <;> simp at hmem
  case untranslated =>
    obtain ⟨rfl, rfl⟩ := hmem
    exact Or.inl (List.prefix_append [_, _] _).isInfix
  case fault =>
    obtain ⟨rfl, rfl⟩ := hmem
    exact Or.inr (List.prefix_append [_, _] _).isInfix

namespace Traced

theorem tripleFault_iff (h : Traced armed reports exit) :
    exit = .tripleFault ↔ ∃ r ∈ reports, r.isTripleFault = true := by
  induction h with
  | completed => simp
  | arm _ ih => simp [ih, Report.isTripleFault]
  | success count _ ih => simp [ih, Report.isTripleFault]
  | trap count k => simp [Report.isTripleFault]
  | fail hfail => exact hfail.tripleFault_iff

theorem handled (h : Traced armed reports exit) {fault : Fault}
    {outcome : Except ProcessorExit Unit}
    (hmem : .handled fault outcome ∈ reports) :
    [.untranslated fault, .handled fault outcome] <:+: reports ∨
      [.ran (.error (.fault fault)), .handled fault outcome] <:+: reports := by
  induction h with
  | completed => cases hmem
  | arm _ ih =>
    have hrest := ih ((List.mem_cons.mp hmem).resolve_left nofun)
    exact hrest.imp List.infix_cons List.infix_cons
  | success count _ ih =>
    have hrest := ih ((List.mem_cons.mp hmem).resolve_left nofun)
    exact hrest.imp List.infix_cons List.infix_cons
  | trap count k => simp at hmem
  | fail hfail => exact hfail.handled hmem

/-- A trace trap comes right after a success and the offer that follows it. -/
theorem last_of_traceTrap (h : Traced armed reports exit) (htrap : exit = .traceTrap) :
    ∃ before count k, reports = before ++ .ran (.ok count) :: .replicate k .armedInOffer := by
  induction h with
  | completed => cases htrap
  | arm _ ih =>
    obtain ⟨before, count, k, rfl⟩ := ih htrap
    exact ⟨.armed :: before, count, k, rfl⟩
  | success first _ ih =>
    obtain ⟨before, count, k, rfl⟩ := ih htrap
    exact ⟨.ran (.ok first) :: before, count, k, rfl⟩
  | trap count k => exact ⟨[], count, k, rfl⟩
  | fail hfail => exact absurd htrap hfail.ne_traceTrap

theorem head?_ne_armedInOffer (h : Traced armed reports exit) :
    reports.head? ≠ some .armedInOffer := by
  cases h with
  | fail hfail => exact fun hhead => (hfail.of_mem (List.mem_of_head? hhead)).2 rfl
  | _ => simp

/-- A success ends the slice if the trap is armed by then or in the offer that follows, and no other
success does. -/
theorem trap_iff (h : Traced armed reports exit) {before after : List Report} {count : UInt32}
    (heq : reports = before ++ .ran (.ok count) :: after) :
    trapAfter armed before = true ∨ after.head? = some .armedInOffer ↔
      exit = .traceTrap ∧ ∀ r ∈ after, r = .armedInOffer := by
  induction h generalizing before with
  | completed => simp at heq
  | arm _ ih =>
    cases before with
    | nil => cases heq
    | cons r before =>
      obtain ⟨rfl, htail⟩ := List.cons.inj heq
      exact ih htail
  | @success _ rest exit hrest ih =>
    cases before with
    | nil =>
      obtain ⟨-, rfl⟩ := List.cons.inj heq
      refine iff_of_false (not_or.mpr ⟨Bool.false_ne_true, hrest.head?_ne_armedInOffer⟩) ?_
      rintro ⟨htrap, hoffer⟩
      -- the success that a later trap comes after is not an offer
      obtain ⟨later, count', k, rfl⟩ := hrest.last_of_traceTrap htrap
      cases hoffer _ (List.mem_append_right later List.mem_cons_self)
    | cons r before =>
      obtain ⟨rfl, htail⟩ := List.cons.inj heq
      have hlater := ih htail
      exact hlater
  | trap first k harmed =>
    cases before with
    | nil =>
      obtain ⟨-, rfl⟩ := List.cons.inj heq
      refine iff_of_true ?_ ⟨rfl, fun r hr => List.eq_of_mem_replicate hr⟩
      refine (Bool.or_eq_true _ _ ▸ harmed).imp_right fun hk => ?_
      rw [List.head?_replicate, if_neg (by simpa using hk)]
    | cons r before =>
      have hmem : Report.ran (.ok count) ∈ List.replicate k .armedInOffer := by
        rw [(List.cons.inj heq).2]
        exact List.mem_append_right before List.mem_cons_self
      cases List.eq_of_mem_replicate hmem
  | fail hfail =>
    have hsuccess := hfail.of_mem (heq ▸ List.mem_append_right before List.mem_cons_self)
    cases hsuccess.1

theorem reset_notMem (h : Traced armed reports exit) : .reset ∉ reports := by
  induction h with
  | completed => exact List.not_mem_nil
  | arm _ ih => exact fun hmem => ih ((List.mem_cons.mp hmem).resolve_left nofun)
  | success _ _ ih => exact fun hmem => ih ((List.mem_cons.mp hmem).resolve_left nofun)
  | trap count k => simp
  | fail hfail => exact fun hmem => Bool.noConfusion (hfail.of_mem hmem).1

/-- Nothing takes the trap in a slice that a failing block ends: it would have been taken by a
success, which would have ended the slice. -/
theorem trapAfter_of_failed (h : Traced armed reports exit) (hfailed : exit.byFailedBlock = true) :
    trapAfter armed reports = true ↔ armed = true ∨ .armed ∈ reports := by
  induction h with
  | completed => cases hfailed
  | arm _ ih =>
    have hrest := ih hfailed
    simp only [true_or, iff_true] at hrest
    simpa using hrest
  | success _ _ ih => simpa using ih hfailed
  | trap => cases hfailed
  | fail hfail => exact trapAfter_of_forall fun r hr => (hfail.of_mem hr).1

end Traced

/-! ## Reports and flags of a core -/

def SliceExit.marksTrace (exit : SliceExit) : Bool := exit = .traceTrap ∨ exit = .tripleFault

/-- The reports of a processor, with the flags of the dispatcher that drives it. -/
structure Trail where
  reports : List Report
  trapArmed : Bool
  traceHit : Bool
  tripleFaulted : Bool

namespace Trail

def note (t : Trail) (reports : List Report) : Trail := { t with reports := t.reports ++ reports }

def hear (t : Trail) (reports : List Report) : Trail :=
  { t.note reports with trapArmed := trapAfter t.trapArmed reports }

def armInOffer (t : Trail) (k : Nat) : Trail :=
  { t.note (.replicate k .armedInOffer) with trapArmed := t.trapArmed || k != 0 }

def mark (t : Trail) (exit : SliceExit) : Trail :=
  { t with
    traceHit := t.traceHit || exit.marksTrace
    tripleFaulted := t.tripleFaulted || exit = .tripleFault }

def after (t : Trail) (reports : List Report) (exit : SliceExit) : Trail :=
  (t.hear reports).mark exit

@[simp] theorem hear_nil (t : Trail) : t.hear [] = t := by simp [hear, note]

theorem hear_hear (t : Trail) (reports later : List Report) :
    (t.hear reports).hear later = t.hear (reports ++ later) := by
  unfold hear note
  rw [trapAfter_append, List.append_assoc]

theorem after_hear (t : Trail) (reports later : List Report) (exit : SliceExit) :
    (t.after reports exit).hear later = t.after (reports ++ later) exit := by
  unfold after
  rw [← hear_hear]
  rfl

theorem hear_error (t : Trail) (reason : ProcessorExit) :
    t.hear [.ran (.error reason)] = t.note [.ran (.error reason)] := by
  unfold hear
  rw [trapAfter_cons_of_neutral rfl rfl]
  rfl

@[simp] theorem armInOffer_zero (t : Trail) : t.armInOffer 0 = t := by simp [armInOffer, note]

theorem armInOffer_succ (t : Trail) (k : Nat) :
    (t.armInOffer 1).armInOffer k = t.armInOffer (k + 1) := by
  simp [armInOffer, note, List.replicate_succ]

theorem trap_after (t : Trail) (armings : List Report) (count : UInt32) (k : Nat) :
    { ((t.hear armings).note [.ran (.ok count)]).armInOffer k with
        trapArmed := false, traceHit := true } =
      t.after (armings ++ .ran (.ok count) :: .replicate k .armedInOffer) .traceTrap := by
  unfold after hear
  rw [trapAfter_append]
  simp [note, armInOffer, mark, SliceExit.marksTrace]

theorem note_after (t : Trail) (count : UInt32) {reports : List Report} {exit : SliceExit}
    (h : t.trapArmed = false) : (t.note [.ran (.ok count)]).after reports exit =
      t.after (.ran (.ok count) :: reports) exit := by
  simp [after, hear, note, mark, h]

end Trail

namespace Core

def trail (c : Core (Reporting σ)) : Trail where
  reports := c.cpu.reports
  trapArmed := c.dispatcher.trapArmed
  traceHit := c.dispatcher.traceHit
  tripleFaulted := c.dispatcher.tripleFaulted

theorem trail_runProgram (c : Core (Reporting σ)) (log : List Report) (program : BlockProgram σ) :
    ∃ k, (c.runProgram (program.report log)).2.trail =
      ({ c.trail with reports := log }.hear (.replicate k .armed)).note
        [.ran (c.runProgram (program.report log)).1] := by
  induction program generalizing c log with
  | finish cpu outcome => exact ⟨0, by simp [BlockProgram.report, runProgram, trail, Trail.note]⟩
  | observe next ih => exact ih c.memory c log
  | transact t next ih => exact ih { c with memory := c.memory.step t } log
  | armTrap next ih =>
    obtain ⟨k, hk⟩ := ih { c with dispatcher := c.dispatcher.arm } (log ++ [.armed])
    have harm :
        { trail { c with dispatcher := c.dispatcher.arm } with reports := log ++ [.armed] } =
        { c.trail with reports := log }.hear [.armed] := rfl
    rw [harm, Trail.hear_hear] at hk
    exact ⟨k + 1, hk⟩

theorem trail_runDelivery (c : Core (Reporting σ)) (log : List Report) (delivery : Delivery σ) :
    ∃ k, (c.runDelivery (delivery.report log)).trail =
      { c.trail with reports := log }.armInOffer k := by
  induction delivery generalizing c log with
  | done cpu => exact ⟨0, (Trail.armInOffer_zero _).symm⟩
  | acknowledge next ih => exact ih _ { c with controller := c.controller.acknowledge.2 } log
  | armTrap next ih =>
    obtain ⟨k, hk⟩ := ih { c with dispatcher := c.dispatcher.arm } (log ++ [.armedInOffer])
    have harm : { trail { c with dispatcher := c.dispatcher.arm } with
        reports := log ++ [.armedInOffer] } = { c.trail with reports := log }.armInOffer 1 := by
      simp [trail, Trail.armInOffer, Trail.note, Dispatcher.arm]
    rw [harm, Trail.armInOffer_succ] at hk
    exact ⟨k + 1, hk⟩

/-- A translation or a handler that may arm the trap is heard through its reports. -/
theorem trail_armIf {reports : List Report} {armed : Bool}
    (h : ∀ up, trapAfter up reports = (up || armed)) (c : Core (Reporting σ)) (cpu : σ) :
    trail { c with
      cpu := ⟨cpu, c.cpu.reports ++ reports⟩, dispatcher := c.dispatcher.armIf armed } =
      c.trail.hear reports := by
  simp [trail, Trail.hear, Trail.note, Dispatcher.armIf, h]

theorem trail_takeTrap (c : Core (Reporting σ)) : c.takeTrap.1 = c.trail.trapArmed ∧
    c.takeTrap.2.trail =
      if c.trail.trapArmed then { c.trail with trapArmed := false, traceHit := true }
      else c.trail := by
  have harmed : c.trail.trapArmed = c.dispatcher.trapArmed := rfl
  unfold takeTrap
  rw [harmed]
  cases h : c.dispatcher.trapArmed <;> exact ⟨rfl, rfl⟩

variable [Processor σ]

theorem trail_forwardIntr (c : Core (Reporting σ)) : c.forwardIntr.trail = c.trail := by
  unfold forwardIntr
  dsimp only
  split_ifs <;> rfl

theorem trail_countRetired (c : Core (Reporting σ)) (mode : Mode) (count : UInt32) :
    ∃ k, (c.countRetired mode count).trail = c.trail.armInOffer k := by
  unfold countRetired
  dsimp only
  split_ifs
  · obtain ⟨k, hk⟩ := c.trail_runDelivery c.cpu.reports (Processor.processInterrupts c.cpu.cpu mode
      (saturatingAdd c.dispatcher.sinceDelivery count))
    exact ⟨k, (trail_forwardIntr _).trans hk⟩
  · exact ⟨0, c.trail.armInOffer_zero.symm⟩

theorem translate_cases (c : Core (Reporting σ)) (space : Space) (addr : UInt32) :
    ∃ k,
      (∃ fault d, c.translate space addr = (.error (.fault fault), d) ∧
        d.trail = c.trail.hear (.replicate k .armed ++ [.untranslated fault])) ∨
      ∃ physical d, c.translate space addr = (.ok physical, d) ∧
        d.trail = c.trail.hear (.replicate k .armed) := by
  unfold translate
  dsimp only [Processor.translateLinear, Processor.armsInTranslation]
  split_ifs
  · generalize Processor.armsInTranslation c.cpu.cpu c.memory addr = armed
    refine ⟨armed.toNat, ?_⟩
    obtain ⟨result, cpu⟩ := Processor.translateLinear c.cpu.cpu c.memory addr
    cases result with
    | error fault =>
      refine Or.inl ⟨fault, _, rfl, trail_armIf (fun up => ?_) c cpu⟩
      rw [trapAfter_append, trapAfter_replicate_toNat, Report.ofTranslation,
        trapAfter_cons_of_neutral rfl rfl, trapAfter_nil]
    | ok physical =>
      refine Or.inr ⟨physical, _, rfl, (trail_armIf (fun up => ?_) c cpu).trans ?_⟩
      · rw [Report.ofTranslation, List.append_nil, trapAfter_replicate_toNat]
      · rw [Report.ofTranslation, List.append_nil]
  · exact ⟨0, Or.inr ⟨addr, c, rfl, c.trail.hear_nil.symm⟩⟩

/-- A block succeeds, or fails in one of three ways. Before that it may have armed the trap. -/
theorem executeInMode_reports (c : Core (Reporting σ)) (space : Space) (mode : Mode) :
    ∃ k,
      (∃ count d, c.executeInMode space mode = (.ok count, d) ∧
        d.trail = (c.trail.hear (.replicate k .armed)).note [.ran (.ok count)]) ∨
      ∃ reason raised d, c.executeInMode space mode = (.error reason, d) ∧ Raised reason raised ∧
        d.trail = c.trail.hear (.replicate k .armed ++ raised) := by
  unfold executeInMode
  obtain ⟨k, ⟨fault, d, htranslate, htrail⟩ | ⟨physical, d, htranslate, htrail⟩⟩ :=
    c.translate_cases space (Processor.instructionPointer c.cpu)
  · rw [htranslate]
    exact ⟨k, Or.inr ⟨_, _, d, rfl, .untranslated fault, htrail⟩⟩
  · rw [htranslate]
    dsimp only
    cases d.memory.fetch physical with
    | error e =>
      refine ⟨k, Or.inr ⟨_, _, d, rfl, .unfetched e, ?_⟩⟩
      rw [htrail, List.append_nil]
    | ok _ =>
      obtain ⟨j, hrun⟩ :=
        d.trail_runProgram d.cpu.reports (Processor.executeBlock d.cpu.cpu mode physical)
      change (d.runProgram (Processor.executeBlock d.cpu mode physical)).2.trail =
        (d.trail.hear (.replicate j .armed)).note
          [.ran (d.runProgram (Processor.executeBlock d.cpu mode physical)).1] at hrun
      rw [htrail, Trail.hear_hear, List.replicate_append_replicate] at hrun
      refine ⟨k + j, ?_⟩
      dsimp only
      generalize d.runProgram (Processor.executeBlock d.cpu mode physical) = run at hrun ⊢
      obtain ⟨result, left⟩ := run
      cases result with
      | ok count => exact Or.inl ⟨count, left, rfl, hrun⟩
      | error reason =>
        refine Or.inr ⟨reason, _, left, rfl, .ran reason, hrun.trans ?_⟩
        rw [← Trail.hear_hear, Trail.hear_error]

theorem deliver_reports (c : Core (Reporting σ)) (mode : Mode) (fault : Fault) :
    ∃ outcome k d, c.deliver mode fault = (.ofHandled fault outcome, d) ∧
      d.trail = (c.trail.hear (.handled fault outcome :: .replicate k .armed)).mark
        (.ofHandled fault outcome) := by
  unfold deliver
  dsimp only [Processor.handleException, Processor.armsInHandler]
  generalize Processor.armsInHandler c.cpu.cpu mode fault = armed
  obtain ⟨outcome, cpu⟩ := Processor.handleException c.cpu.cpu mode fault
  refine ⟨outcome, armed.toNat, ?_⟩
  have hheard : ∀ up, trapAfter up (.handled fault outcome :: .replicate armed.toNat .armed) =
      (up || armed) := by
    intro up
    rw [trapAfter_cons_of_neutral rfl rfl, trapAfter_replicate_toNat]
  have htrail := trail_armIf hheard c cpu
  rw [← htrail]
  rcases outcome with (_ | _ | _ | _) | _ <;> refine ⟨_, rfl, ?_⟩ <;>
    simp [trail, SliceExit.ofHandled, Trail.mark, SliceExit.marksTrace]

theorem leave_reports (c : Core (Reporting σ)) (mode : Mode) {reason : ProcessorExit}
    {raised : List Report} (h : Raised reason raised) :
    ∃ later exit d, c.leave mode reason = (exit, d) ∧ d.trail = c.trail.after later exit ∧
      Failing (raised ++ later) exit := by
  cases reason with
  | fault fault =>
    obtain ⟨outcome, k, d, hdeliver, htrail⟩ := c.deliver_reports mode fault
    refine ⟨.handled fault outcome :: .replicate k .armed, _, d, hdeliver, htrail, ?_⟩
    cases h with
    | ran => exact .fault fault outcome k
    | untranslated => exact .untranslated fault outcome k
  | tripleFault =>
    cases h
    refine ⟨[], .tripleFault, _, rfl, ?_, .tripleFault⟩
    simp [trail, Trail.after, Trail.mark, SliceExit.marksTrace]
  | modeSwitch =>
    cases h
    refine ⟨[], .modeSwitch, c, rfl, ?_, .modeSwitch⟩
    simp [Trail.after, Trail.mark, SliceExit.marksTrace]
  | fetch e =>
    refine ⟨[], .fetch e, c, rfl, by simp [Trail.after, Trail.mark, SliceExit.marksTrace], ?_⟩
    cases h with
    | ran => exact .fetch e
    | unfetched => exact .unfetched e

/-- After a success the trap is taken, and the slice ends if it is armed by then. -/
theorem takeTrap_reports {t : Trail} {k : Nat} {count : UInt32} (c : Core (Reporting σ))
    (mode : Mode) (h : c.trail = (t.hear (.replicate k .armed)).note [.ran (.ok count)]) :
    ((c.countRetired mode count).takeTrap.1 = true ∧
      ∃ reports, Traced t.trapArmed reports .traceTrap ∧
        (c.countRetired mode count).takeTrap.2.trail = t.after reports .traceTrap) ∨
    ((c.countRetired mode count).takeTrap.1 = false ∧ t.trapArmed = false ∧
      (c.countRetired mode count).takeTrap.2.trail = t.note [.ran (.ok count)]) := by
  obtain ⟨j, hoffer⟩ := c.trail_countRetired mode count
  obtain ⟨hstopped, hleft⟩ := (c.countRetired mode count).trail_takeTrap
  have harmed : (c.countRetired mode count).trail.trapArmed =
      (t.trapArmed || k != 0 || j != 0) := by
    rw [hoffer, h]
    exact congrArg (· || j != 0) (trapAfter_replicate_armed k)
  rw [hstopped, hleft, harmed, hoffer, h]
  cases hup : t.trapArmed || k != 0 || j != 0 with
  | true => exact Or.inl ⟨rfl, _, .arm_replicate (.trap count j hup), t.trap_after _ count j⟩
  | false =>
    simp only [Bool.or_eq_false_iff, bne_eq_false_iff_eq] at hup
    obtain ⟨⟨hunarmed, rfl⟩, rfl⟩ := hup
    exact Or.inr ⟨rfl, hunarmed, by simp⟩

/-- A block that succeeds without the trap goes on, and any other block ends the slice. -/
theorem runBlock_reports (c : Core (Reporting σ)) (mode : Mode) :
    (∃ count d, c.runBlock mode = (count, none, d) ∧ c.trail.trapArmed = false ∧
      d.trail = c.trail.note [.ran (.ok count)]) ∨
    ∃ count exit d reports, c.runBlock mode = (count, some exit, d) ∧
      Traced c.trail.trapArmed reports exit ∧ d.trail = c.trail.after reports exit := by
  unfold runBlock
  obtain ⟨k, ⟨count, d, hexecute, htrail⟩ | ⟨reason, raised, d, hexecute, hraised, htrail⟩⟩ :=
    c.executeInMode_reports (.ofMode mode) mode
  · rw [hexecute]
    dsimp only
    obtain ⟨hstopped, reports, htraced, hleft⟩ | ⟨hstopped, hunarmed, hleft⟩ :=
      d.takeTrap_reports mode htrail
    · rw [hstopped]
      exact Or.inr ⟨count, _, _, reports, rfl, htraced, hleft⟩
    · rw [hstopped]
      exact Or.inl ⟨count, _, rfl, hunarmed, hleft⟩
  · right
    rw [hexecute]
    dsimp only
    obtain ⟨later, exit, left, hleave, hleft, hfailing⟩ := d.leave_reports mode hraised
    rw [hleave]
    refine ⟨0, exit, left, .replicate k .armed ++ (raised ++ later), rfl,
      .arm_replicate (.fail hfailing), hleft.trans ?_⟩
    unfold Trail.after
    rw [htrail, Trail.hear_hear, List.append_assoc]

theorem runBlocks_reports (c : Core (Reporting σ)) (mode : Mode) (executed : UInt32) (n : Nat) :
    ∃ reports, Traced c.trail.trapArmed reports (c.runBlocks mode executed n).1.exit ∧
      (c.runBlocks mode executed n).2.trail =
        c.trail.after reports (c.runBlocks mode executed n).1.exit := by
  induction n generalizing c executed with
  | zero =>
    refine ⟨[], .completed, ?_⟩
    simp [runBlocks, Trail.after, Trail.mark, SliceExit.marksTrace]
  | succ n ih =>
    unfold runBlocks
    rcases c.runBlock_reports mode with ⟨count, d, hblock, hunarmed, htrail⟩ |
      ⟨count, exit, d, reports, hblock, htraced, htrail⟩
    · rw [hblock]
      dsimp only
      obtain ⟨reports, htraced, hlater⟩ := ih d (saturatingAdd executed count)
      rw [htrail] at htraced hlater
      refine ⟨.ran (.ok count) :: reports, ?_, hlater.trans (c.trail.note_after count hunarmed)⟩
      rw [hunarmed]
      have hstart : (c.trail.note [.ran (.ok count)]).trapArmed = false := hunarmed
      rw [hstart] at htraced
      exact .success count htraced
    · rw [hblock]
      exact ⟨reports, htraced, htrail⟩

theorem runSlice_reports (c : Core (Reporting σ)) :
    ∃ reports, Traced c.trail.trapArmed reports c.runSlice.1.exit ∧
      c.runSlice.2.trail = c.trail.after reports c.runSlice.1.exit :=
  runBlocks_reports { c with memory := c.memory.setPagingActive (Processor.isPaging c.cpu) } _ _ _

end Core
end Mainboard
