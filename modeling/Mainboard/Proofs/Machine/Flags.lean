import Mainboard.Proofs.Execution.Reports
import Mainboard.Proofs.Machine.Setup

/-!
# Faults and the trace trap over whole runs

The two sticky flags of a machine tell what its slices have ended with since the flags were taken.
The trace trap tells whether it has been armed since a block last succeeded and since the last
reset. Both are read off a chronicle of what was done to the machine, which has the exit of each
slice and the reports of the processor during it.
-/
namespace Mainboard
namespace Machine

variable {σ τ δ : Type}

/-! ## Machines whose processors look alike -/

def map (f : σ → τ) (m : Machine σ δ) : Machine τ δ where
  config := m.config
  core := m.core.map f
  ports := m.ports
  bios := m.bios

def reporting (m : Machine σ δ) : Machine (Reporting σ) δ := m.map Reporting.start

section

variable [Processor σ] [Processor τ] {f : σ → τ}

theorem forwardIntr_map (h : Processor.Morphism f) (m : Machine σ δ) :
    (m.map f).forwardIntr = m.forwardIntr.map f := by
  have hcore : (m.map f).core.forwardIntr = m.core.forwardIntr.map f :=
    Core.forwardIntr_map h m.core
  unfold forwardIntr
  rw [hcore]
  rfl

theorem configure_map (h : Processor.Morphism f) (m : Machine σ δ) :
    left (m.map f).configure = (left m.configure).map f := by
  have hinstall : installMemory (m.map f).config (m.map f).bios (m.map f).memory =
      installMemory m.config m.bios m.memory := rfl
  unfold configure updateMemory
  rw [hinstall]
  cases installMemory m.config m.bios m.memory with
  | error e memory => rfl
  | ok u memory =>
    exact forwardIntr_map h ((m.setMemory (memory.setGateA20 m.config.a20AtReset)).setController
      (m.controller.initLegacy m.config.masterVectorBase m.config.slaveVectorBase))

variable [PortDevice δ]

theorem reset_map (h : Processor.Morphism f)
    (hreset : ∀ cpu, Processor.reset (f cpu) = f (Processor.reset cpu)) (m : Machine σ δ) :
    left (m.map f).reset = (left m.reset).map f := by
  have hparts : (m.map f).resetParts = m.resetParts.map f := by
    unfold resetParts map Core.map
    dsimp only
    rw [hreset]
    rfl
  unfold reset
  rw [hparts, configure_map h]

/-- A slice commutes with a morphism that commutes with the reset as well. -/
theorem executeSlice_map (h : Processor.Morphism f)
    (hreset : ∀ cpu, Processor.reset (f cpu) = f (Processor.reset cpu)) (m : Machine σ δ) :
    left (m.map f).executeSlice = (left m.executeSlice).map f := by
  have hslice : (m.map f).core.runSlice = m.core.runSlice.map id (Core.map f) :=
    Core.runSlice_map h m.core
  rw [left_executeSlice, left_executeSlice, hslice]
  dsimp only [Prod.map, id_eq]
  split_ifs
  · exact reset_map h hreset { m with core := m.core.runSlice.2 }
  · rfl

end

/-! ## What slices and resets leave -/

section

variable [Processor σ]

theorem dispatcher_configure (m : Machine σ δ) :
    (left m.configure).core.dispatcher = m.core.dispatcher := by
  unfold configure updateMemory
  cases installMemory m.config m.bios m.memory <;> rfl

theorem trail_configure (m : Machine (Reporting σ) δ) :
    (left m.configure).core.trail = m.core.trail := by
  unfold configure updateMemory
  cases installMemory m.config m.bios m.memory with
  | error e memory => rfl
  | ok u memory => exact Core.trail_forwardIntr _

variable [PortDevice δ]

theorem trail_reset (m : Machine (Reporting σ) δ) :
    (left m.reset).core.trail = m.core.trail.hear [.reset] := by
  have htrap : trapAfter m.core.trail.trapArmed [.reset] = false := by simp
  unfold Trail.hear
  rw [htrap]
  exact trail_configure m.resetParts

theorem trail_executeSlice (m : Machine (Reporting σ) δ) :
    ∃ reports, Traced m.core.trail.trapArmed reports m.core.runSlice.1.exit ∧
      (left m.executeSlice).core.trail = m.core.trail.after
        (reports ++ if m.core.runSlice.1.exit = .tripleFault then [.reset] else [])
          m.core.runSlice.1.exit := by
  obtain ⟨reports, htraced, htrail⟩ := m.core.runSlice_reports
  refine ⟨reports, htraced, ?_⟩
  rw [left_executeSlice]
  split_ifs with hexit
  · rw [trail_reset, ← Trail.after_hear, ← htrail]
  · rw [List.append_nil]
    exact htrail

end

/-! ## The chronicle of a run -/

inductive Entry
  /-- A slice ended like this, after these reports. -/
  | slice (exit : SliceExit) (reports : List Report)
  | reset
  | armed
  | tookTraceHit
  | tookTripleFaulted
  | other
  deriving DecidableEq

namespace Entry

@[simp] def tripleFaults : Entry → Bool
  | .slice exit _ => exit = .tripleFault
  | _ => false

@[simp] def takesTripleFaulted : Entry → Bool
  | .tookTripleFaulted => true
  | _ => false

@[simp] def hitsTrace : Entry → Bool
  | .slice exit _ => exit.marksTrace
  | _ => false

@[simp] def takesTraceHit : Entry → Bool
  | .tookTraceHit => true
  | _ => false

@[simp] def reports : Entry → List Report
  | .slice _ reports => reports
  | .reset => [.reset]
  | .armed => [.armed]
  | _ => []

end Entry

/-- The operation puts other values in the place of the flags. -/
def Operation.overwritesFlags : Operation σ δ → Bool
  | .load _ => true
  | .restore _ => true
  | .setTrap armed => !armed
  | _ => false

/-- The flags after an operation follow from the flags before and the entry of the operation. -/
structure Follows (m m' : Machine σ δ) (e : Entry) : Prop where
  tripleFaulted : m'.core.dispatcher.tripleFaulted =
    (e.tripleFaults || m.core.dispatcher.tripleFaulted && !e.takesTripleFaulted)
  traceHit : m'.core.dispatcher.traceHit =
    (e.hitsTrace || m.core.dispatcher.traceHit && !e.takesTraceHit)
  trapArmed : m'.core.dispatcher.trapArmed =
    trapAfter m.core.dispatcher.trapArmed e.reports

theorem follows_of_eq {m m' : Machine σ δ} (h : m'.core.dispatcher = m.core.dispatcher) :
    m.Follows m' .other := by
  constructor <;> rw [h] <;> simp

variable [Processor σ]

theorem runSlice_reporting (m : Machine σ δ) : m.reporting.core.runSlice.1 = m.core.runSlice.1 :=
  (congrArg Prod.fst (Core.runSlice_map Reporting.morphism m.reporting.core)).symm

variable [PortDevice δ]

/-- The exit of the next slice, with the reports of the processor during it and during the reset
that may follow it. -/
def sliceEntry (m : Machine σ δ) : Entry :=
  .slice m.core.runSlice.1.exit (left m.reporting.executeSlice).core.cpu.reports

def entry (m : Machine σ δ) : Operation σ δ → Entry
  | .executeSlice => m.sliceEntry
  | .execute => m.sliceEntry
  | .reset => .reset
  | .setTrap _ => .armed
  | .takeTraceHit => .tookTraceHit
  | .takeTripleFaulted => .tookTripleFaulted
  | _ => .other

def chronicle (m : Machine σ δ) : List (Operation σ δ) → List Entry
  | [] => []
  | op :: ops => m.entry op :: (m.step op).chronicle ops

/-! ### One operation -/

theorem executeSlice_reporting (m : Machine σ δ) :
    left m.executeSlice = (left m.reporting.executeSlice).map Reporting.cpu :=
  executeSlice_map Reporting.morphism (fun _ => rfl) m.reporting

theorem dispatcher_executeSlice (m : Machine σ δ) : (left m.executeSlice).core.dispatcher =
    (left m.reporting.executeSlice).core.dispatcher :=
  congrArg (fun m => m.core.dispatcher) m.executeSlice_reporting

theorem exists_traced (m : Machine σ δ) :
    ∃ reports, Traced m.core.dispatcher.trapArmed reports m.core.runSlice.1.exit ∧
      (left m.reporting.executeSlice).core.trail = m.reporting.core.trail.after
        (reports ++ if m.core.runSlice.1.exit = .tripleFault then [.reset] else [])
          m.core.runSlice.1.exit := by
  have h := trail_executeSlice m.reporting
  rw [runSlice_reporting] at h
  exact h

theorem follows_executeSlice (m : Machine σ δ) : m.Follows (left m.executeSlice) m.sliceEntry := by
  obtain ⟨traced, -, htrail⟩ := m.exists_traced
  have hreports : (left m.reporting.executeSlice).core.cpu.reports = _ :=
    congrArg Trail.reports htrail
  have htriple : (left m.reporting.executeSlice).core.dispatcher.tripleFaulted =
      (m.core.dispatcher.tripleFaulted || m.core.runSlice.1.exit = .tripleFault) :=
    congrArg Trail.tripleFaulted htrail
  have hhit : (left m.reporting.executeSlice).core.dispatcher.traceHit =
      (m.core.dispatcher.traceHit || m.core.runSlice.1.exit.marksTrace) :=
    congrArg Trail.traceHit htrail
  unfold sliceEntry
  rw [hreports]
  constructor <;> rw [dispatcher_executeSlice]
  case tripleFaulted => simp [htriple, Bool.or_comm]
  case traceHit => simp [hhit, Bool.or_comm]
  case trapArmed => exact congrArg Trail.trapArmed htrail

theorem dispatcher_setSystemBios (m : Machine σ δ) (image : Bytes) :
    (m.step (.setSystemBios image)).core.dispatcher = m.core.dispatcher := by
  change (left (m.setSystemBios image)).core.dispatcher = _
  unfold setSystemBios updateMemory
  dsimp only
  cases m.memory.loadSystemBios image <;> rfl

theorem follows_step (m : Machine σ δ) {op : Operation σ δ} (h : op.overwritesFlags = false) :
    m.Follows (m.step op) (m.entry op) := by
  cases op with
  | executeSlice => exact m.follows_executeSlice
  | execute =>
    change m.Follows (left m.execute) m.sliceEntry
    rw [left_execute]
    exact m.follows_executeSlice
  | reset =>
    have hdispatcher : (m.step .reset).core.dispatcher = m.core.dispatcher.reset :=
      dispatcher_configure m.resetParts
    constructor <;> rw [hdispatcher] <;> simp [entry, Dispatcher.reset]
  | setTrap armed =>
    obtain rfl : armed = true := by simpa [Operation.overwritesFlags] using h
    constructor <;> simp [step, setDispatcher, entry]
  | takeTraceHit =>
    constructor <;> simp [step, setDispatcher, Dispatcher.takeTraceHit, entry]
  | takeTripleFaulted =>
    constructor <;> simp [step, setDispatcher, Dispatcher.takeTripleFaulted, entry]
  | load input => cases h
  | restore input => cases h
  | setSystemBios image => exact follows_of_eq (m.dispatcher_setSystemBios image)
  | _ => exact follows_of_eq rfl

/-! ### Runs -/

theorem flags_run (m : Machine σ δ) {ops : List (Operation σ δ)}
    (hops : ∀ op ∈ ops, op.overwritesFlags = false) :
    (m.run ops).core.dispatcher.tripleFaulted =
        flagAfter Entry.tripleFaults Entry.takesTripleFaulted m.core.dispatcher.tripleFaulted
          (m.chronicle ops) ∧
      (m.run ops).core.dispatcher.traceHit =
        flagAfter Entry.hitsTrace Entry.takesTraceHit m.core.dispatcher.traceHit
          (m.chronicle ops) ∧
      (m.run ops).core.dispatcher.trapArmed =
        trapAfter m.core.dispatcher.trapArmed ((m.chronicle ops).flatMap Entry.reports) := by
  induction ops generalizing m with
  | nil => exact ⟨rfl, rfl, rfl⟩
  | cons op ops ih =>
    have hstep := m.follows_step (hops op List.mem_cons_self)
    obtain ⟨htriple, hhit, harmed⟩ :=
      ih (m.step op) fun op' hop' => hops op' (List.mem_cons_of_mem op hop')
    unfold chronicle
    rw [run_cons, List.flatMap_cons, trapAfter_append, flagAfter_cons, flagAfter_cons,
      ← hstep.tripleFaulted, ← hstep.traceHit, ← hstep.trapArmed]
    exact ⟨htriple, hhit, harmed⟩

/-- How the exit of a slice and the trace trap, armed or not before and after the slice, follow from
the reports of the processor. -/
structure Explains (armed armed' : Bool) (exit : SliceExit) (reports : List Report) : Prop where
  tripleFault_iff : exit = .tripleFault ↔ ∃ r ∈ reports, r.isTripleFault = true
  /-- Only an exception that a block or a translation has just raised is handed to the processor. -/
  handled : ∀ fault outcome, .handled fault outcome ∈ reports →
    [.untranslated fault, .handled fault outcome] <:+: reports ∨
      [.ran (.error (.fault fault)), .handled fault outcome] <:+: reports
  reset_iff : .reset ∈ reports ↔ exit = .tripleFault
  /-- The slice stops right after a success if the trap is armed by then, or in the offer that
  follows, and with no trace trap otherwise. -/
  trap_iff : ∀ before count after, reports = before ++ .ran (.ok count) :: after →
    (RaisedSince Report.arms Report.disarms armed before ∨ after.head? = some .armedInOffer ↔
      exit = .traceTrap ∧ ∀ r ∈ after, r = .armedInOffer)
  trap_last : exit = .traceTrap →
    ∃ before count k, reports = before ++ .ran (.ok count) :: .replicate k .armedInOffer
  consumed : exit = .traceTrap → armed' = false
  kept : exit.byFailedBlock = true → exit ≠ .tripleFault →
    (armed' = true ↔ armed = true ∨ .armed ∈ reports)

variable {armed armed' : Bool} {exit : SliceExit} {traced : List Report}

theorem explains_of_traced (h : Traced armed traced exit) (hexit : exit ≠ .tripleFault) :
    Explains armed (trapAfter armed traced) exit traced where
  tripleFault_iff := h.tripleFault_iff
  handled _ _ hmem := h.handled hmem
  reset_iff := iff_of_false h.reset_notMem hexit
  trap_iff _ _ _ heq := by
    rw [← trapAfter_iff]
    exact h.trap_iff heq
  trap_last := h.last_of_traceTrap
  consumed htrap := by
    obtain ⟨before, count, k, rfl⟩ := h.last_of_traceTrap htrap
    rw [trapAfter_append, trapAfter_success, trapAfter_replicate_armedInOffer]
  kept hfailed _ := h.trapAfter_of_failed hfailed

theorem explains_of_tripleFault (h : Traced armed traced .tripleFault) :
    Explains armed armed' .tripleFault (traced ++ [.reset]) where
  tripleFault_iff := by
    obtain ⟨r, hr, hfault⟩ := h.tripleFault_iff.mp rfl
    exact iff_of_true rfl ⟨r, List.mem_append_left _ hr, hfault⟩
  handled fault outcome hmem := by
    have htraced : .handled fault outcome ∈ traced :=
      (List.mem_append.mp hmem).resolve_right fun hlast => nomatch List.mem_singleton.mp hlast
    have hprefix : traced <:+: traced ++ [.reset] := (List.prefix_append traced _).isInfix
    exact (h.handled htraced).imp (·.trans hprefix) (·.trans hprefix)
  reset_iff := iff_of_true (List.mem_append_right _ List.mem_cons_self) rfl
  trap_iff before count after heq := by
    -- the reset comes last, so every success is one of the slice
    rcases List.eq_nil_or_concat' after with rfl | ⟨later, last, rfl⟩
    · cases (List.append_inj' heq rfl).2
    · rw [← List.cons_append, ← List.append_assoc] at heq
      obtain ⟨htraced, hlast⟩ := List.append_inj' heq rfl
      cases hlast
      have hstop := h.trap_iff htraced
      refine iff_of_false ?_ fun hstopped => nomatch hstopped.1
      rintro (harmed | hoffer)
      · cases (hstop.mp (Or.inl (trapAfter_iff.mpr harmed))).1
      · cases later with
        | nil => cases hoffer
        | cons r later => cases (hstop.mp (Or.inr hoffer)).1
  trap_last := nofun
  consumed := nofun
  kept _ hne := absurd rfl hne

theorem explains_executeSlice (m : Machine σ δ) :
    Explains m.core.dispatcher.trapArmed (left m.executeSlice).core.dispatcher.trapArmed
      m.core.runSlice.1.exit (left m.reporting.executeSlice).core.cpu.reports := by
  obtain ⟨traced, htraced, htrail⟩ := m.exists_traced
  have hreports : (left m.reporting.executeSlice).core.cpu.reports = _ :=
    congrArg Trail.reports htrail
  have harmed : (left m.reporting.executeSlice).core.dispatcher.trapArmed = _ :=
    congrArg Trail.trapArmed htrail
  rw [hreports, dispatcher_executeSlice, harmed]
  clear hreports harmed htrail
  generalize m.core.runSlice.1.exit = exit at htraced ⊢
  split_ifs with hexit
  · subst hexit
    exact explains_of_tripleFault htraced
  · rw [List.append_nil]
    exact explains_of_traced htraced hexit

/-- A slice that ends in a triple fault is followed by a reset, which succeeds, and no other slice
is. -/
theorem reset_iff_of_bootable {m : Machine σ δ} (h : m.Bootable) :
    let ran := { m with core := m.core.runSlice.2 }
    (m.core.runSlice.1.exit = .tripleFault → ran.reset = .ok () (left m.executeSlice)) ∧
      (m.core.runSlice.1.exit ≠ .tripleFault → left m.executeSlice = ran) := by
  intro ran
  rw [left_executeSlice]
  refine ⟨fun hexit => ?_, fun hexit => if_neg hexit⟩
  rw [if_pos hexit, reset_of_bootable (m := ran) h]
  rfl

/-- A machine that has had any history is used in any way that does not overwrite its flags. What
the flags show then is what has raised them since it was last dropped: the sticky flags by slices
that ended in a triple fault, or in that or a trace trap, dropped when they were taken; the trace
trap by being armed, from outside or by the processor, dropped by the first success of a block and
by a reset. The next slice succeeds; what the dispatcher has run is left as it is, or reset as a
whole if it ended in a triple fault. A processor that keeps its reports does the same in the slice,
and the reports explain its exit. On a new machine no flag is up. -/
theorem flags_follow_chronicle {config : Config} {cpu : σ} {regions : Array Region}
    {m₀ : Machine σ δ}
    (hnew : new config cpu regions = .ok m₀) (history ops : List (Operation σ δ))
    (hops : ∀ op ∈ ops, op.overwritesFlags = false) :
    let m := m₀.run history
    let entries := m.chronicle ops
    let last := m.run ops
    (last.core.dispatcher.takeTripleFaulted.1 = true ↔
      RaisedSince Entry.tripleFaults Entry.takesTripleFaulted m.core.dispatcher.tripleFaulted
        entries) ∧
    (last.core.dispatcher.takeTraceHit.1 = true ↔
      RaisedSince Entry.hitsTrace Entry.takesTraceHit m.core.dispatcher.traceHit entries) ∧
    (last.core.dispatcher.trapArmed = true ↔
      RaisedSince Report.arms Report.disarms m.core.dispatcher.trapArmed
        (entries.flatMap Entry.reports)) ∧
    (∃ slice core reported, last.core.runSlice = (slice, core) ∧
      last.reporting.executeSlice = .ok slice reported ∧
      last.executeSlice = .ok slice (reported.map Reporting.cpu) ∧
      (slice.exit = .tripleFault →
        reset { last with core := core } = .ok () (reported.map Reporting.cpu)) ∧
      (slice.exit ≠ .tripleFault → reported.map Reporting.cpu = { last with core := core }) ∧
      last.entry .executeSlice = .slice slice.exit reported.core.cpu.reports ∧
      Explains last.core.dispatcher.trapArmed reported.core.dispatcher.trapArmed slice.exit
        reported.core.cpu.reports) ∧
    m₀.core.dispatcher = .new config.maxBlocks config.cadence := by
  intro m entries last
  obtain ⟨htriple, hhit, harmed⟩ := m.flags_run hops
  have hboot : last.Bootable := by
    have hrun : last = m₀.run (history ++ ops) := List.foldl_append.symm
    rw [hrun]
    exact bootable_run hnew _
  have hslice := executeSlice_of_bootable hboot
  have hreported := executeSlice_of_bootable (m := last.reporting) hboot
  obtain ⟨hreset, hkept⟩ := reset_iff_of_bootable hboot
  rw [executeSlice_reporting] at hslice hreset hkept
  rw [runSlice_reporting] at hreported
  refine ⟨?_, ?_, ?_, ⟨_, _, _, rfl, hreported, hslice, hreset, hkept, rfl, ?_⟩, ?_⟩
  · rw [← flagAfter_iff, ← htriple]
    rfl
  · rw [← flagAfter_iff, ← hhit]
    rfl
  · rw [← trapAfter_iff, ← harmed]
  · have hexplains := last.explains_executeSlice
    rw [executeSlice_reporting] at hexplains
    exact hexplains
  · rw [← (new_eq_ok_iff.mp hnew).2]
    exact dispatcher_configure _

end Machine

/-- A processor whose blocks end as a script says, and which gives up on every exception. -/
structure Scripted where
  outcomes : List (Except ProcessorExit UInt32)

instance : Processor Scripted where
  instructionPointer _ := 0
  isProtected _ := false
  isVirtual8086 _ := false
  executeBlock cpu _ _ :=
    match cpu.outcomes with
    | [] => .finish cpu (.ok 0)
    | outcome :: rest => .finish ⟨rest⟩ outcome
  processInterrupts cpu _ _ := .done cpu
  handleException cpu _ _ := (.error .tripleFault, cpu)
  raiseInterrupt := id
  clearInterrupt := id
  reset := id

namespace Machine

/-- A trap that is armed outlasts a slice that ends with a switch of the mode and stops the next one
at once. The slice after that ends with an exception that is not handled; the mark of the first stop
has been taken by then, and both marks are there again. -/
theorem trap_and_triple_fault_chronicled :
    let config := { Config.default with ramSize := 0x1000 }
    let cpu : Scripted := ⟨[.error .modeSwitch, .ok 3, .error (.fault .undefined)]⟩
    let start : Machine Scripted Empty := left (assemble config cpu #[]).configure
    let ops := [.setTrap true, .executeSlice, .executeSlice, .takeTraceHit, .executeSlice]
    let entries := [.armed, .slice .modeSwitch [.ran (.error .modeSwitch)],
      .slice .traceTrap [.ran (.ok 3)], .tookTraceHit, .slice .tripleFault
        [.ran (.error (.fault .undefined)), .handled .undefined (.error .tripleFault), .reset]]
    start.chronicle ops = entries ∧ (start.run ops).core.dispatcher.takeTripleFaulted.1 = true ∧
      (start.run ops).core.dispatcher.takeTraceHit.1 = true := by
  intro config cpu start ops entries
  have hnew : new config cpu #[] = .ok start := new_eq_ok_iff.mpr ⟨by decide, rfl⟩
  have hchronicle : start.chronicle ops = entries := by decide +kernel
  obtain ⟨htriple, hhit, -⟩ := flags_follow_chronicle hnew [] ops (by decide)
  rw [run_nil, hchronicle] at htriple hhit
  have hraised : ∀ (raises drops : Entry → Bool) (initially : Bool), raises (.slice .tripleFault
      [.ran (.error (.fault .undefined)), .handled .undefined (.error .tripleFault), .reset]) =
        true →
      RaisedSince raises drops initially entries :=
    fun raises drops initially hlast => Or.inl ⟨entries.take 4, _, [], rfl, hlast, nofun⟩
  exact ⟨hchronicle, htriple.mpr (hraised _ _ _ rfl), hhit.mpr (hraised _ _ _ rfl)⟩

end Machine
end Mainboard
