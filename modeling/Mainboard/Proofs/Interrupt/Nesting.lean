import Mainboard.Proofs.Interrupt.Cascade

/-!
# Nesting of interrupts

A chip keeps no stack, only the set of its lines in service. While no mode leaves lines out of the
order or ends interrupts by itself, a line is acknowledged only if it comes before all lines in
service. So the rotated order of these lines is the order of their acknowledges, the last one first,
and an end of interrupt that names no line ends the line that was acknowledged last.
-/
namespace Mainboard

theorem Command.ofByte_endHighest : ofByte 0x20 = .endHighest false := by decide

namespace Chip

/-- The chip is initialised, and all lines in service block what comes behind them until they are
ended by a command. -/
structure Plain (c : Chip) : Prop where
  ready : c.initState = .ready
  specialMask : c.specialMask = false
  specialFullyNested : c.specialFullyNested = false
  autoEnd : c.autoEnd = false

/-- The lines in service are those of a stack, whose order is the rotated order from a base. -/
structure Nested (c : Chip) (base : Line) (stack : List Line) : Prop extends c.Plain where
  rotation : c.rotation = base
  mem_stack : ∀ l, c.inService.contains l = true ↔ l ∈ stack
  ordered : stack.Pairwise fun k l => k - base < l - base

variable {c : Chip} {base l : Line} {stack : List Line}

theorem Plain.nested (h : c.Plain) (hempty : c.inService = .empty) : c.Nested c.rotation [] where
  toPlain := h
  rotation := rfl
  mem_stack := by simp [hempty]
  ordered := List.Pairwise.nil

@[simp] theorem inService_setLine (c : Chip) (l : Line) (level : Bool) :
    (c.setLine l level).inService = c.inService := by
  obtain ⟨_, _, h⟩ := c.setLine_eq l level
  rw [h]

@[simp] theorem inService_pulse (c : Chip) (l : Line) : (c.pulse l).inService = c.inService := by
  simp [pulse]

@[simp] theorem rotation_setLine (c : Chip) (l : Line) (level : Bool) :
    (c.setLine l level).rotation = c.rotation := by
  obtain ⟨_, _, h⟩ := c.setLine_eq l level
  rw [h]

@[simp] theorem rotation_pulse (c : Chip) (l : Line) : (c.pulse l).rotation = c.rotation := by
  simp [pulse]

theorem Plain.acknowledge_eq (h : c.Plain) (l : Line) : ∃ requests, c.acknowledge l =
    { c with inService := c.inService.insert l, requests := requests } := by
  unfold acknowledge
  dsimp only
  rw [if_neg (Bool.eq_false_iff.mp h.autoEnd)]
  split_ifs
  · exact ⟨c.requests, rfl⟩
  · exact ⟨c.requests.erase l, rfl⟩

namespace Nested

theorem nodup (h : c.Nested base stack) : stack.Nodup :=
  h.ordered.imp fun hlt heq => absurd (heq ▸ hlt) (lt_irrefl _)

theorem inputs (h : c.Nested base stack) (requests levels mask : LineSet) :
    { c with requests := requests, levels := levels, mask := mask }.Nested base stack :=
  ⟨⟨h.ready, h.specialMask, h.specialFullyNested, h.autoEnd⟩, h.rotation, h.mem_stack, h.ordered⟩

theorem setLine (h : c.Nested base stack) (l : Line) (level : Bool) :
    (c.setLine l level).Nested base stack := by
  obtain ⟨requests, levels, heq⟩ := c.setLine_eq l level
  rw [heq]
  exact h.inputs requests levels c.mask

/-- What is pending comes before everything in service. -/
theorem lt_of_pending (h : c.Nested base stack) (hl : c.pending? = some l) {k : Line}
    (hk : k ∈ stack) : l - base < k - base := by
  obtain ⟨-, -, hbefore⟩ := pending?_eq_some_iff.mp hl
  rw [h.rotation] at hbefore
  apply hbefore
  rw [contains_blocking, (h.mem_stack k).mpr hk, h.specialMask, h.specialFullyNested]
  rfl

theorem acknowledge (h : c.Nested base stack) (hl : c.pending? = some l) :
    (c.acknowledge l).Nested base (l :: stack) := by
  obtain ⟨requests, heq⟩ := h.acknowledge_eq l
  rw [heq]
  refine ⟨⟨h.ready, h.specialMask, h.specialFullyNested, h.autoEnd⟩, h.rotation, ?_, ?_⟩
  · intro k
    rw [LineSet.contains_insert, Bool.or_eq_true, decide_eq_true_eq, h.mem_stack, List.mem_cons]
    exact or_comm
  · exact List.pairwise_cons.mpr ⟨fun k hk => h.lt_of_pending hl hk, h.ordered⟩

theorem inService_eq_empty (h : c.Nested base stack) (hstack : stack = []) :
    c.inService = .empty := by
  rw [LineSet.eq_empty_iff]
  intro l
  rw [Bool.eq_false_iff, ne_eq, h.mem_stack, hstack]
  exact List.not_mem_nil

/-- The line in service with the highest priority is the top of the stack. -/
theorem served?_eq (h : c.Nested base stack) : c.served? = stack.head? := by
  unfold served?
  rw [h.rotation]
  cases stack with
  | nil =>
    rw [LineSet.distance?_eq_none_iff.mpr (h.inService_eq_empty rfl)]
    rfl
  | cons l rest =>
    have hfirst : c.inService.distance? base = some (l - base) := by
      rw [LineSet.distance?_eq_some_iff, LineSet.sub_add_base]
      refine ⟨(h.mem_stack l).mpr List.mem_cons_self, fun k hk => ?_⟩
      rcases List.mem_cons.mp ((h.mem_stack k).mp hk) with rfl | hrest
      · exact le_rfl
      · exact (List.rel_of_pairwise_cons h.ordered hrest).le
    rw [hfirst, Option.map_some, LineSet.sub_add_base]
    rfl

theorem endLine (h : c.Nested base (l :: stack)) : (c.endLine l false).Nested base stack := by
  have hnodup := List.nodup_cons.mp h.nodup
  refine ⟨⟨h.ready, h.specialMask, h.specialFullyNested, h.autoEnd⟩, h.rotation, ?_, h.ordered.tail⟩
  intro k
  change (c.inService.erase l).contains k = true ↔ k ∈ stack
  rw [LineSet.contains_erase, Bool.and_eq_true, h.mem_stack, List.mem_cons, Bool.not_eq_true',
    decide_eq_false_iff_not]
  constructor
  · rintro ⟨rfl | hk, hne⟩
    · exact absurd rfl hne
    · exact hk
  · intro hk
    exact ⟨Or.inr hk, fun heq => hnodup.1 (heq ▸ hk)⟩

end Nested
end Chip

namespace Controller

/-! ## What operations do to the stacks -/

/-- The line of a chip that the next acknowledge takes into service. A line of the slave is taken
together with the cascade line. -/
def taken? (c : Controller) : Role → Option Line
  | .master => c.master.pending?
  | .slave => if c.master.pending? = some cascadeLine then c.slave.pending? else none

/-- Driving lines, acknowledges, masks, and ends of interrupt that name no line. -/
def Operation.isNesting : Operation → Bool
  | .setIrq _ _ => true
  | .acknowledge => true
  | .takeRaise => true
  | .takeClear => true
  | .writePort port value =>
    match Register.ofPort? port with
    | some (.data _) => true
    | some (.command _) => value == 0x20
    | _ => false
  | _ => false

/-- The lines of a chip that are acknowledged and not yet ended, the last one first, after an
operation. An end takes away the one that was acknowledged last. -/
def stackAfter (c : Controller) (role : Role) (stack : List Line) : Operation → List Line
  | .acknowledge => (c.taken? role).toList ++ stack
  | .writePort port _ =>
    if Register.ofPort? port = some (.command role) then stack.tail else stack
  | _ => stack

/-- The lines of a chip that are acknowledged and not yet ended after operations in order. -/
def unended (role : Role) : Controller → List Line → List Operation → List Line
  | _, stack, [] => stack
  | c, stack, op :: ops => unended role (c.step op) (c.stackAfter role stack op) ops

/-- The lines in service of both chips are stacked. -/
def Nested (c : Controller) (base : Role → Line) (stack : Role → List Line) : Prop :=
  ∀ role, (c.chip role).Nested (base role) (stack role)

variable {c : Controller} {base : Role → Line} {stack : Role → List Line}

theorem Nested.setChip (h : c.Nested base stack) {role : Role} {chip : Chip} {lines : List Line}
    (hchip : chip.Nested (base role) lines) :
    (c.setChip role chip).Nested base fun r => if r = role then lines else stack r := by
  intro r
  rw [chip_setChip]
  dsimp only
  split_ifs with hr
  · rw [hr]
    exact hchip
  · exact h r

theorem Nested.setChip_same (h : c.Nested base stack) {role : Role} {chip : Chip}
    (hchip : chip.Nested (base role) (stack role)) : (c.setChip role chip).Nested base stack :=
  forall_chip_setChip (P := fun r chip => chip.Nested (base r) (stack r)) h hchip

theorem Nested.update (h : c.Nested base stack) : c.update.Nested base stack :=
  forall_chip_update (P := fun r chip => chip.Nested (base r) (stack r)) h
    (((h .master).setLine cascadeLine true).setLine cascadeLine false)

theorem Nested.latches (h : c.Nested base stack) (intrRaise intrClear : Bool) :
    { c with intrRaise := intrRaise, intrClear := intrClear }.Nested base stack :=
  forall_chip_latches (P := fun r chip => chip.Nested (base r) (stack r)) h intrRaise intrClear

@[simp] theorem inService_update (c : Controller) (role : Role) :
    (c.update.chip role).inService = (c.chip role).inService :=
  forall_chip_update (P := fun r chip => chip.inService = (c.chip r).inService) (fun _ => rfl)
    (Chip.inService_pulse c.master cascadeLine) role

theorem acknowledge_eq_update (c : Controller) : ∃ d : Controller, c.acknowledge.2 = d.update ∧
    ∀ role, d.chip role = ((c.taken? role).elim (c.chip role) (c.chip role).acknowledge) := by
  cases hm : c.master.pending? with
  | none =>
    refine ⟨c, acknowledge_of_none hm, fun role => ?_⟩
    cases role <;> simp [taken?, hm]
  | some l =>
    by_cases hl : l = cascadeLine
    · subst hl
      cases hs : c.slave.pending? with
      | none =>
        refine ⟨_, acknowledge_of_spurious hm hs, fun role => ?_⟩
        cases role <;> simp [taken?, hm, hs, chip]
      | some s =>
        refine ⟨_, acknowledge_of_slave hm hs, fun role => ?_⟩
        cases role <;> simp [taken?, hm, hs, chip]
    · refine ⟨_, acknowledge_of_master hm hl, fun role => ?_⟩
      cases role <;> simp [taken?, hm, hl, chip]

theorem pending?_of_taken? {role : Role} {l : Line} (h : c.taken? role = some l) :
    (c.chip role).pending? = some l := by
  cases role with
  | master => exact h
  | slave =>
    unfold taken? at h
    split_ifs at h
    exact h

theorem Nested.acknowledge (h : c.Nested base stack) :
    c.acknowledge.2.Nested base fun role => (c.taken? role).toList ++ stack role := by
  obtain ⟨d, hstep, hchip⟩ := c.acknowledge_eq_update
  rw [hstep]
  apply Nested.update
  intro role
  rw [hchip]
  dsimp only
  cases hl : c.taken? role with
  | none => exact h role
  | some l => exact (h role).acknowledge (pending?_of_taken? hl)

/-- An end of interrupt that names no line takes the top off the stack of its chip. -/
theorem Nested.endHighest (h : c.Nested base stack) (role : Role) :
    (c.execute role (.endHighest false)).Nested base
      fun r => if r = role then (stack role).tail else stack r := by
  have hserved := (h role).served?_eq
  unfold execute
  dsimp only
  rw [hserved]
  cases hstack : stack role with
  | nil =>
    have hsame : (fun r => if r = role then [].tail else stack r) = stack := by
      funext r
      split_ifs with hr
      · rw [hr, hstack]
        rfl
      · rfl
    rw [hsame]
    exact h
  | cons l rest =>
    have htop := h role
    rw [hstack] at htop
    exact (h.setChip htop.endLine).update

theorem Nested.setIrq (h : c.Nested base stack) (line : Nat) (level : Bool) :
    (c.setIrq line level).Nested base stack := by
  unfold Controller.setIrq
  split_ifs
  · exact (h.setChip_same ((h .master).setLine _ level)).update
  · exact (h.setChip_same ((h .slave).setLine _ level)).update
  · exact h

theorem Nested.writeMask (h : c.Nested base stack) (role : Role) (value : UInt8) :
    (c.writeData role value).Nested base stack := by
  unfold writeData
  dsimp only
  rw [if_pos (h role).ready]
  apply Nested.update
  apply h.setChip_same
  exact (h role).inputs _ _ _

theorem Nested.writePort (h : c.Nested base stack) {port : UInt16} {value : UInt8}
    (hop : (Operation.writePort port value).isNesting = true) :
    (c.writePort port value).Nested base
      fun role => c.stackAfter role (stack role) (.writePort port value) := by
  intro r
  unfold Operation.isNesting at hop
  unfold Controller.writePort stackAfter
  cases hport : Register.ofPort? port with
  | none => simp [hport] at hop
  | some register =>
    cases register with
    | data role => simpa [hport] using h.writeMask role value r
    | trigger role => simp [hport] at hop
    | command role =>
      have hvalue : value = 0x20 := by simpa [hport] using hop
      have hend := h.endHighest role r
      dsimp only
      rw [hvalue, Command.ofByte_endHighest, hport]
      by_cases hrole : r = role
      · subst hrole
        simpa using hend
      · simpa [hrole, Ne.symm hrole] using hend

theorem Nested.step (h : c.Nested base stack) {op : Operation} (hop : op.isNesting = true) :
    (c.step op).Nested base fun role => c.stackAfter role (stack role) op := by
  cases op with
  | setIrq line level => exact h.setIrq line level
  | acknowledge => exact h.acknowledge
  | writePort port value => exact h.writePort hop
  | takeRaise => exact h.latches false c.intrClear
  | takeClear => exact h.latches c.intrRaise false
  | _ => cases hop

theorem Nested.run (h : c.Nested base stack) {ops : List Operation}
    (hops : ∀ op ∈ ops, op.isNesting = true) :
    (c.run ops).Nested base fun role => unended role c (stack role) ops := by
  induction ops generalizing c stack with
  | nil => exact h
  | cons op ops ih =>
    have hstep := h.step (hops op List.mem_cons_self)
    exact ih hstep fun o ho => hops o (List.mem_cons_of_mem _ ho)

theorem Nested.inService_acknowledge (h : c.Nested base stack) {role : Role} {l : Line}
    (hl : c.taken? role = some l) :
    (c.acknowledge.2.chip role).inService = (c.chip role).inService.insert l := by
  obtain ⟨d, hstep, hchip⟩ := c.acknowledge_eq_update
  obtain ⟨requests, heq⟩ := (h role).acknowledge_eq l
  rw [hstep, inService_update, hchip, hl, Option.elim_some, heq]

theorem Nested.inService_endHighest (h : c.Nested base stack) (role : Role) :
    ((c.execute role (.endHighest false)).chip role).inService =
      match stack role with
      | [] => .empty
      | l :: _ => (c.chip role).inService.erase l := by
  have hserved := (h role).served?_eq
  unfold execute
  dsimp only
  rw [hserved]
  cases hstack : stack role with
  | nil => exact (h role).inService_eq_empty hstack
  | cons l rest =>
    dsimp only [List.head?_cons]
    rw [inService_update, chip_setChip, if_pos rfl]
    rfl

/-- Over every run from chips with nothing in service that drives lines, acknowledges, writes masks
and ends interrupts without naming them, the lines in service are those acknowledged and not yet
ended; an acknowledge takes a line that comes before all of them, and an end takes the line that was
acknowledged last out of service and no other. The rotation stays what it was. -/
theorem interrupts_nest {c : Controller} (hplain : ∀ role, (c.chip role).Plain)
    (hempty : ∀ role, (c.chip role).inService = .empty) {ops : List Operation}
    (hops : ∀ op ∈ ops, op.isNesting = true) (role : Role) :
    let d := c.run ops
    let stack := unended role c [] ops
    let base := (c.chip role).rotation
    (d.chip role).rotation = base ∧ stack.Nodup ∧
      (∀ l, (d.chip role).inService.contains l = true ↔ l ∈ stack) ∧
      (∀ l, d.taken? role = some l →
        (d.acknowledge.2.chip role).inService = (d.chip role).inService.insert l ∧
        ∀ k, (d.chip role).inService.contains k = true → l - base < k - base) ∧
      ∀ port, Register.ofPort? port = some (.command role) →
        ((d.writePort port 0x20).chip role).inService =
          match stack with
          | [] => .empty
          | l :: _ => (d.chip role).inService.erase l := by
  intro d stack base
  have hstart : c.Nested (fun r => (c.chip r).rotation) fun _ => [] :=
    fun r => (hplain r).nested (hempty r)
  have hrun := hstart.run hops
  have hd : (d.chip role).Nested base stack := hrun role
  refine ⟨hd.rotation, hd.nodup, hd.mem_stack, ?_, ?_⟩
  · intro l hl
    refine ⟨hrun.inService_acknowledge hl, fun k hk => ?_⟩
    exact hd.lt_of_pending (pending?_of_taken? hl) ((hd.mem_stack k).mp hk)
  · intro port hport
    unfold Controller.writePort
    rw [hport]
    dsimp only
    rw [Command.ofByte_endHighest]
    exact hrun.inService_endHighest role

/-- A serial line is interrupted by the clock on the slave, which is interrupted by the keyboard. -/
def keyboardAboveClock : List Operation :=
  [.setIrq 4 true, .acknowledge, .setIrq 8 true, .acknowledge, .setIrq 1 true, .acknowledge]

/-- The keyboard interrupt, which was acknowledged last, is ended first. -/
theorem keyboard_ends_first :
    let c := new.initLegacy 0x08 0x70
    let d := c.run keyboardAboveClock
    unended .master c [] keyboardAboveClock = [1, cascadeLine, 4] ∧
      ((d.writePort Register.masterCommand 0x20).chip .master).inService =
        (d.chip .master).inService.erase 1 := by
  intro c d
  have hstack : unended .master c [] keyboardAboveClock = [1, cascadeLine, 4] := by decide +kernel
  have hplain : ∀ role, (c.chip role).Plain := by
    intro role
    cases role <;> exact ⟨rfl, rfl, rfl, rfl⟩
  have hempty : ∀ role, (c.chip role).inService = .empty := by
    intro role
    cases role <;> rfl
  have hops : ∀ op ∈ keyboardAboveClock, op.isNesting = true := by decide
  obtain ⟨-, -, -, -, hend⟩ := interrupts_nest hplain hempty hops .master
  have hended := hend Register.masterCommand rfl
  rw [hstack] at hended
  exact ⟨hstack, hended⟩

end Controller
end Mainboard
