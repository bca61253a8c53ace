import Mainboard.Proofs.Execution.Recording
import Mathlib.Data.List.ReduceOption

/-!
# The cadence of interrupts over slices

The counts of the blocks that succeed form one stream, over all slices of a dispatcher. Interrupts
are offered wherever the stream, summed up since the last offer, reaches the cadence, and what is
left at the end of a slice is carried into the next one. The reason why a slice ended does not
matter for the stream: a block that fails counts for nothing.
-/
namespace Mainboard

/-! ## Cutting a stream of counts -/

/-- The log of blocks with these counts, or none where a block failed, and of the offers between
them, if interrupts are offered as soon as the sum since the last offer reaches the pace. -/
def paced (pace since : UInt32) : List (Option UInt32) → List Event
  | [] => []
  | none :: tried => .failed :: paced pace since tried
  | some count :: tried =>
    let sum := saturatingAdd since count
    if pace ≤ sum then .retired count :: .offered sum :: paced pace 0 tried
    else .retired count :: paced pace sum tried

def carried (pace since : UInt32) : List (Option UInt32) → UInt32
  | [] => since
  | none :: tried => carried pace since tried
  | some count :: tried =>
    let sum := saturatingAdd since count
    if pace ≤ sum then carried pace 0 tried else carried pace sum tried

example : paced 3 1 [some 1, none, some 1, some 5, some 2] =
    [.retired 1, .failed, .retired 1, .offered 3, .retired 5, .offered 5, .retired 2] := by decide

def blocksTried (log : List Event) : List (Option UInt32) := log.filterMap Event.block?

@[simp] theorem blocksTried_append (log log' : List Event) :
    blocksTried (log ++ log') = blocksTried log ++ blocksTried log' :=
  List.filterMap_append

@[simp] theorem blocksTried_paced (pace since : UInt32) (tried : List (Option UInt32)) :
    blocksTried (paced pace since tried) = tried := by
  induction tried generalizing since with
  | nil => rfl
  | cons outcome tried ih =>
    cases outcome with
    | none => exact congrArg (none :: ·) (ih since)
    | some count =>
      unfold paced
      dsimp only
      split_ifs
      · exact congrArg (some count :: ·) (ih 0)
      · exact congrArg (some count :: ·) (ih _)

theorem paced_append (pace since : UInt32) (tried later : List (Option UInt32)) :
    paced pace since (tried ++ later) =
      paced pace since tried ++ paced pace (carried pace since tried) later := by
  induction tried generalizing since with
  | nil => rfl
  | cons outcome tried ih =>
    cases outcome with
    | none => simp only [List.cons_append, paced, carried, ih]
    | some count =>
      simp only [List.cons_append, paced, carried]
      split_ifs
      · rw [ih, List.cons_append, List.cons_append]
      · rw [ih, List.cons_append]

theorem carried_append (pace since : UInt32) (tried later : List (Option UInt32)) :
    carried pace since (tried ++ later) = carried pace (carried pace since tried) later := by
  induction tried generalizing since with
  | nil => rfl
  | cons outcome tried ih =>
    cases outcome with
    | none => exact ih since
    | some count =>
      simp only [List.cons_append, carried]
      split_ifs
      · exact ih 0
      · exact ih _

theorem carried_lt {pace since : UInt32} (hpace : 0 < pace) (hsince : since < pace)
    (tried : List (Option UInt32)) : carried pace since tried < pace := by
  induction tried generalizing since with
  | nil => exact hsince
  | cons outcome tried ih =>
    cases outcome with
    | none => exact ih hsince
    | some count =>
      unfold carried
      dsimp only
      split_ifs with hreached
      · exact ih hpace
      · exact ih (UInt32.not_le.mp hreached)

/-- Saturating sums one after the other are the sum, or the largest word if it does not fit. -/
theorem toNat_foldl_saturatingAdd (executed : UInt32) (counts : List UInt32) :
    (counts.foldl saturatingAdd executed).toNat =
      min (executed.toNat + (counts.map UInt32.toNat).sum) (UInt32.size - 1) := by
  induction counts generalizing executed with
  | nil =>
    have hlt := executed.toNat_lt_size
    simp only [List.foldl_nil, List.map_nil, List.sum_nil]
    omega
  | cons count counts ih =>
    rw [List.foldl_cons, ih, toNat_saturatingAdd, List.map_cons, List.sum_cons]
    omega

theorem saturatingAdd_zero (executed : UInt32) : saturatingAdd executed 0 = executed := by
  have hlt := executed.toNat_lt_size
  apply UInt32.toNat_inj.mp
  rw [toNat_saturatingAdd, UInt32.toNat_zero]
  omega

namespace Tally

theorem foldl_attempt (t : Tally) (tried : List (Option UInt32)) :
    tried.foldl attempt t = { t with
      since := carried t.cadence t.since tried
      log := t.log ++ paced t.cadence t.since tried } := by
  induction tried generalizing t with
  | nil => simp [carried, paced]
  | cons outcome tried ih =>
    rw [List.foldl_cons, ih]
    cases outcome with
    | none => simp [attempt, note, carried, paced]
    | some count =>
      by_cases hreached : t.cadence ≤ saturatingAdd t.since count
      · simp [attempt, offer, note, carried, paced, hreached]
      · simp [attempt, offer, note, carried, paced, hreached]

end Tally

/-! ## One slice -/

variable {σ : Type} [Processor σ]

/-- What a slice of at most `budget` blocks leaves, if the processor was asked to run these blocks.
A block that fails ends the slice, so there is at most one, and it comes last. It counts as an
attempt also if it could not be fetched. -/
structure Slice.Accounts (slice : Slice) (budget : Nat) (executed : UInt32) (before after : Tally)
    (tried : List (Option UInt32)) : Prop where
  after_eq : after = tried.foldl Tally.attempt before
  tried_eq : tried = tried.reduceOption.map some ∨
    slice.exit.byFailedBlock = true ∧ tried = tried.reduceOption.map some ++ [none]
  executed_eq : slice.executed = tried.reduceOption.foldl saturatingAdd executed
  attempts_le : tried.reduceOption.length + (if slice.exit.byFailedBlock then 1 else 0) ≤ budget
  completed : slice.exit = .completed → tried.reduceOption.length = budget

theorem Slice.Accounts.tally_eq {slice : Slice} {budget : Nat} {executed : UInt32}
    {before after : Tally}
    {tried : List (Option UInt32)} (h : slice.Accounts budget executed before after tried) :
    after = { before with
      since := carried before.cadence before.since tried
      log := before.log ++ paced before.cadence before.since tried } := by
  rw [h.after_eq, Tally.foldl_attempt]

theorem Slice.Accounts.cons {slice : Slice} {budget : Nat} {executed count : UInt32}
    {before after : Tally} {tried : List (Option UInt32)}
    (h : slice.Accounts budget (saturatingAdd executed count) (before.attempt (some count))
      after tried) :
    slice.Accounts (budget + 1) executed before after (some count :: tried) where
  after_eq := h.after_eq
  tried_eq := by
    rw [List.reduceOption_cons_of_some, List.map_cons, List.cons_append, List.cons_inj_right,
      List.cons_inj_right]
    exact h.tried_eq
  executed_eq := by
    rw [List.reduceOption_cons_of_some, List.foldl_cons]
    exact h.executed_eq
  attempts_le := by
    rw [List.reduceOption_cons_of_some, List.length_cons, Nat.add_right_comm]
    exact Nat.succ_le_succ h.attempts_le
  completed := by
    intro hcompleted
    rw [List.reduceOption_cons_of_some, List.length_cons, h.completed hcompleted]

theorem Core.runBlocks_accounts (c : Core (Recorded σ)) (mode : Mode)
    (executed : UInt32) (n : Nat) :
    ∃ tried, (c.runBlocks mode executed n).1.Accounts n executed c.tally
      (c.runBlocks mode executed n).2.tally tried := by
  induction n generalizing c executed with
  | zero => exact ⟨[], rfl, Or.inl rfl, rfl, le_rfl, fun _ => rfl⟩
  | succ n ih =>
    unfold runBlocks
    rcases c.runBlock_cases mode with ⟨count, exit, d, hblock, hexit, htally⟩ |
      ⟨exit, d, hblock, hfailed, htally⟩
    · rw [hblock]
      rcases hexit with rfl | rfl
      · -- the slice goes on
        obtain ⟨tried, h⟩ := ih d (saturatingAdd executed count)
        rw [htally] at h
        exact ⟨some count :: tried, h.cons⟩
      · -- a trace trap ends it
        refine ⟨[some count], htally, Or.inl rfl, rfl, ?_, fun hcompleted => ?_⟩
        · simp [SliceExit.byFailedBlock]
        · cases hcompleted
    · rw [hblock]
      have hnone : exit ≠ .completed := by
        rintro rfl
        cases hfailed
      rcases htally with hunnoted | hnoted
      · refine ⟨[], hunnoted, Or.inl rfl, saturatingAdd_zero executed, ?_, fun h => absurd h hnone⟩
        simp [hfailed]
      · refine ⟨[none], hnoted, Or.inr ⟨hfailed, rfl⟩, saturatingAdd_zero executed, ?_,
          fun h => absurd h hnone⟩
        simp [hfailed]

/-- A slice that starts with an empty log writes its blocks into it. -/
theorem Core.runSlice_accounts {c : Core (Recorded σ)} (hlog : c.cpu.log = []) :
    c.runSlice.1.Accounts c.dispatcher.maxBlocks.toNat 0 c.tally c.runSlice.2.tally
      (blocksTried c.runSlice.2.cpu.log) := by
  let start := { c with memory := c.memory.setPagingActive (Processor.isPaging c.cpu) }
  obtain ⟨tried, h⟩ :=
    start.runBlocks_accounts (Processor.mode c.cpu) 0 c.dispatcher.maxBlocks.toNat
  change c.runSlice.1.Accounts _ 0 c.tally c.runSlice.2.tally tried at h
  have htried : blocksTried c.runSlice.2.cpu.log = tried := by
    have hafter := congrArg Tally.log h.tally_eq
    change c.runSlice.2.cpu.log = c.cpu.log ++ _ at hafter
    rw [hafter, hlog, List.nil_append, blocksTried_paced]
  rw [htried]
  exact h

/-! ## Slices of one dispatcher -/

/-- What the caller of a slice hands over, and the flags that others have set or taken meanwhile. -/
structure SliceCall (σ : Type) where
  cpu : σ
  memory : Memory
  controller : Controller
  trapArmed : Bool
  traceHit : Bool
  tripleFaulted : Bool

namespace SliceCall

def map {τ : Type} (f : σ → τ) (call : SliceCall σ) : SliceCall τ where
  cpu := f call.cpu
  memory := call.memory
  controller := call.controller
  trapArmed := call.trapArmed
  traceHit := call.traceHit
  tripleFaulted := call.tripleFaulted

def core (call : SliceCall σ) (d : Dispatcher) : Core σ where
  cpu := call.cpu
  memory := call.memory
  controller := call.controller
  dispatcher := { d with
    trapArmed := call.trapArmed, traceHit := call.traceHit, tripleFaulted := call.tripleFaulted }

end SliceCall

namespace Dispatcher

/-- The slices that a dispatcher runs on calls in order, with the core after each, and the
dispatcher after all. -/
def slices (d : Dispatcher) : List (SliceCall σ) → List (Slice × Core σ) × Dispatcher
  | [] => ([], d)
  | call :: calls =>
    let run := (call.core d).runSlice
    let rest := run.2.dispatcher.slices calls
    (run :: rest.1, rest.2)

theorem slices_map {τ : Type} [Processor τ] {f : σ → τ} (h : Processor.Morphism f) (d : Dispatcher)
    (calls : List (SliceCall σ)) :
    d.slices (calls.map (SliceCall.map f)) =
      ((d.slices calls).1.map (Prod.map id (Core.map f)), (d.slices calls).2) := by
  induction calls generalizing d with
  | nil => rfl
  | cons call calls ih =>
    have hslice : ((call.map f).core d).runSlice = (call.core d).runSlice.map id (Core.map f) :=
      Core.runSlice_map h (call.core d)
    have hnext : ((call.core d).runSlice.map id (Core.map f)).2.dispatcher =
        (call.core d).runSlice.2.dispatcher := rfl
    simp only [List.map_cons, slices, hslice]
    rw [hnext, ih]

/-- Over slices that start with an empty log, the logs together are cut at the cadence, from the
count that the dispatcher has at the start to the one it has at the end. -/
theorem slices_paced (d : Dispatcher) (calls : List (SliceCall σ)) :
    let runs := d.slices (calls.map (SliceCall.map Recorded.start))
    let log := runs.1.flatMap fun run => run.2.cpu.log
    log = paced d.cadence d.sinceDelivery (blocksTried log) ∧
      runs.2.sinceDelivery = carried d.cadence d.sinceDelivery (blocksTried log) := by
  induction calls generalizing d with
  | nil => exact ⟨rfl, rfl⟩
  | cons call calls ih =>
    intro runs log
    let c := (call.map Recorded.start).core d
    let next := c.runSlice.2.dispatcher
    have htally := (Core.runSlice_accounts (c := c) rfl).tally_eq
    have hlog : c.runSlice.2.cpu.log =
        paced d.cadence d.sinceDelivery (blocksTried c.runSlice.2.cpu.log) :=
      congrArg Tally.log htally
    have hcadence : next.cadence = d.cadence := congrArg Tally.cadence htally
    have hsince : next.sinceDelivery =
        carried d.cadence d.sinceDelivery (blocksTried c.runSlice.2.cpu.log) :=
      congrArg Tally.since htally
    obtain ⟨hrest, hlast⟩ := ih next
    rw [hcadence, hsince] at hrest hlast
    have hcons : log = c.runSlice.2.cpu.log ++
        (next.slices (calls.map (SliceCall.map Recorded.start))).1.flatMap
          fun run => run.2.cpu.log :=
      List.flatMap_cons
    rw [hcons, blocksTried_append]
    constructor
    · rw [paced_append, ← hrest, ← hlog]
    · rw [carried_append]
      exact hlast

/-- Every slice keeps to the budget of the dispatcher and reports the sum of what it retired. -/
theorem slices_accounts (d : Dispatcher) (calls : List (SliceCall σ)) :
    ∀ run ∈ (d.slices (calls.map (SliceCall.map Recorded.start))).1, ∃ before,
      run.1.Accounts d.maxBlocks.toNat 0 before run.2.tally (blocksTried run.2.cpu.log) := by
  induction calls generalizing d with
  | nil => exact fun run hrun => absurd hrun List.not_mem_nil
  | cons call calls ih =>
    let c := (call.map Recorded.start).core d
    have haccounts := Core.runSlice_accounts (c := c) rfl
    have hbudget : c.runSlice.2.dispatcher.maxBlocks = d.maxBlocks :=
      congrArg Tally.maxBlocks haccounts.tally_eq
    intro run hrun
    rcases List.mem_cons.mp hrun with rfl | hlater
    · exact ⟨_, haccounts⟩
    · rw [← hbudget]
      exact ih _ run hlater

end Dispatcher

theorem toNat_max_one (a : UInt32) : (max a 1).toNat = max a.toNat 1 := by
  have hmax : max a 1 = if a ≤ 1 then 1 else a := rfl
  rw [hmax]
  split_ifs with hle
  · exact (max_eq_right (UInt32.le_iff_toNat_le.mp hle)).symm
  · exact (max_eq_left (UInt32.lt_iff_toNat_lt.mp (UInt32.not_le.mp hle)).le).symm

/-- Over all calls of one dispatcher, with any processor, memory and controller in each: keeping a
log changes nothing. Within a slice all blocks but the last succeed. A slice tries at most as many
blocks as its budget has, completes only if so many succeeded, and reports the saturating sum of
their counts. Interrupts are offered right after a block exactly if the sum since the last offer has
reached the cadence, across slices and whatever ended them, and what is carried on stays below the
cadence. -/
theorem slices_keep_budget_and_cadence (maxBlocks cadence : UInt32) (calls : List (SliceCall σ)) :
    let d := Dispatcher.new maxBlocks cadence
    let runs := d.slices (calls.map (SliceCall.map Recorded.start))
    let log := runs.1.flatMap fun run => run.2.cpu.log
    d.slices calls = (runs.1.map (Prod.map id (Core.map Recorded.cpu)), runs.2) ∧
    (∀ run ∈ runs.1,
      let tried := blocksTried run.2.cpu.log
      let counts := tried.reduceOption
      (tried = counts.map some ∨
        run.1.exit.byFailedBlock = true ∧ tried = counts.map some ++ [none]) ∧
      counts.length + (if run.1.exit.byFailedBlock then 1 else 0) ≤ max maxBlocks.toNat 1 ∧
      (run.1.exit = .completed → counts.length = max maxBlocks.toNat 1) ∧
      run.1.executed.toNat = min (counts.map UInt32.toNat).sum (UInt32.size - 1)) ∧
    log = paced (max cadence 1) 0 (blocksTried log) ∧
    runs.2.sinceDelivery = carried (max cadence 1) 0 (blocksTried log) ∧
    runs.2.sinceDelivery < max cadence 1 := by
  intro d runs log
  have hbudget : d.maxBlocks.toNat = max maxBlocks.toNat 1 := toNat_max_one maxBlocks
  have hpace : 0 < max cadence 1 := by
    rw [UInt32.lt_iff_toNat_lt, toNat_max_one]
    exact lt_max_of_lt_right Nat.one_pos
  obtain ⟨hlog, hlast⟩ := d.slices_paced calls
  refine ⟨?_, ?_, hlog, hlast, ?_⟩
  · have hforget :=
      Dispatcher.slices_map Recorded.morphism d (calls.map (SliceCall.map Recorded.start))
    have hcalls :
        (calls.map (SliceCall.map Recorded.start)).map (SliceCall.map Recorded.cpu) = calls := by
      rw [List.map_map]
      exact List.map_id calls
    rwa [hcalls] at hforget
  · intro run hrun tried counts
    obtain ⟨before, h⟩ := d.slices_accounts calls run hrun
    rw [← hbudget]
    refine ⟨h.tried_eq, h.attempts_le, h.completed, ?_⟩
    rw [h.executed_eq, toNat_foldl_saturatingAdd, UInt32.toNat_zero, Nat.zero_add]
  · rw [hlast]
    exact carried_lt hpace hpace _

end Mainboard
