import Mainboard.Proofs.Interrupt.Raise

/-!
# The relay of the slave's requests

The master hears of the slave only through pulses on an edge-triggered line. A pulse is heard while
that line is low, and every operation that can make a line of the slave pending, or take the cascade
request off the master, ends with one. So the cascade request stands on the master for as long as
the slave has a line pending.
-/
namespace Mainboard

namespace Chip

/-- The chip sits in its place of the pair. A master hears every pulse on its cascade line, and is
not about to be polled, which would take the cascade request off it. -/
structure Wired (c : Chip) (role : Role) : Prop where
  role_eq : c.role = role
  edge : role = .master → c.levelTriggered.contains cascadeLine = false
  low : role = .master → c.levels.contains cascadeLine = false
  unpolled : role = .master → c.poll = false

variable {c chip : Chip} {role : Role}

theorem Wired.congr (h : c.Wired role) (hrole : chip.role = c.role)
    (htrigger : chip.levelTriggered = c.levelTriggered) (hlevels : chip.levels = c.levels)
    (hpoll : chip.poll = c.poll) : chip.Wired role where
  role_eq := hrole.trans h.role_eq
  edge hmaster := htrigger ▸ h.edge hmaster
  low hmaster := hlevels ▸ h.low hmaster
  unpolled hmaster := hpoll.trans (h.unpolled hmaster)

theorem wired_slave (h : c.role = .slave) : c.Wired .slave :=
  ⟨h, nofun, nofun, nofun⟩

theorem Wired.setLine (h : c.Wired role) {l : Line} (level : Bool)
    (hl : role = .master → l ≠ cascadeLine) : (c.setLine l level).Wired role where
  role_eq := by
    obtain ⟨_, _, heq⟩ := c.setLine_eq l level
    rw [heq]
    exact h.role_eq
  edge hmaster := by
    rw [levelTriggered_setLine]
    exact h.edge hmaster
  low hmaster := by
    rw [contains_levels_setLine, if_neg (hl hmaster).symm]
    exact h.low hmaster
  unpolled hmaster := by
    obtain ⟨_, _, heq⟩ := c.setLine_eq l level
    rw [heq]
    exact h.unpolled hmaster

theorem Wired.acknowledge (h : c.Wired role) (l : Line) : (c.acknowledge l).Wired role := by
  unfold Chip.acknowledge
  dsimp only
  split_ifs <;> exact h.congr rfl rfl rfl rfl

theorem Wired.endLine (h : c.Wired role) (l : Line) (rotate : Bool) :
    (c.endLine l rotate).Wired role := by
  unfold Chip.endLine
  dsimp only
  split_ifs <;> exact h.congr rfl rfl rfl rfl

theorem Wired.drop (h : c.Wired role) (l : Line) : (c.drop l).Wired role := by
  unfold Chip.drop
  exact h.congr rfl rfl rfl rfl

theorem Wired.initWord (h : c.Wired role) (value : UInt8) : (c.initWord value).Wired role := by
  unfold Chip.initWord
  split
  · exact h
  all_goals exact h.congr rfl rfl rfl rfl

theorem Wired.setTrigger (h : c.Wired role) (value : UInt8) : (c.setTrigger value).Wired role where
  role_eq := h.role_eq
  edge := by
    rintro rfl
    have hmask : Role.master.triggerMask.contains cascadeLine = false := by decide
    unfold Chip.setTrigger
    rw [h.role_eq]
    unfold LineSet.contains at hmask ⊢
    rw [BitVec.getLsbD_and, hmask, Bool.and_false]
  low := h.low
  unpolled := h.unpolled

theorem pending?_initWord_slave (h : c.Wired .slave) (value : UInt8) :
    (c.initWord value).pending? = c.pending? := by
  have hblocking : (c.initWord value).blocking = c.blocking := by
    unfold Chip.initWord
    split <;> simp [blocking, h.role_eq]
  have hinputs : (c.initWord value).requests = c.requests ∧ (c.initWord value).mask = c.mask ∧
      (c.initWord value).rotation = c.rotation := by
    unfold Chip.initWord
    split <;> exact ⟨rfl, rfl, rfl⟩
  obtain ⟨hrequests, hmask, hrotation⟩ := hinputs
  unfold pending?
  rw [hblocking, hrequests, hmask, hrotation]

end Chip

/-- The command neither takes the cascade request off the master nor uncovers a request of the slave
without a pulse: it does not initialise or poll the master, or set the special mask of the slave. -/
def Command.sparesRelay (role : Role) : Command → Bool
  | .initialise _ => role == .slave
  | .configure poll _ specialMask =>
    match role with
    | .master => !poll
    | .slave => specialMask != some true
  | _ => true

namespace Controller

/-- The operation leaves the cascade line to the slave and keeps the master's request for it. -/
def Operation.sparesRelay : Operation → Bool
  | .setIrq line _ => line != Role.master.line cascadeLine
  | .acknowledge => true
  | .readPort _ => true
  | .writePort port value =>
    match Register.ofPort? port with
    | some (.command role) => (Command.ofByte value).sparesRelay role
    | _ => true
  | .takeRaise => true
  | .takeClear => true
  | _ => false

def Wired (c : Controller) : Prop := ∀ role, (c.chip role).Wired role

/-- A line pending on the slave stands behind a request on the master's cascade line. -/
structure Relayed (c : Controller) : Prop where
  wired : c.Wired
  requested : c.slave.pending?.isSome = true → c.master.requests.contains cascadeLine = true

variable {c : Controller} {role : Role} {chip : Chip}

theorem Wired.setChip (h : c.Wired) (hchip : chip.Wired role) : (c.setChip role chip).Wired :=
  forall_chip_setChip (P := fun r chip => chip.Wired r) h hchip

/-- After a pulse the slave's request is on the master. -/
theorem Wired.update (h : c.Wired) : c.update.Relayed := by
  have hmaster : c.master.Wired .master := h .master
  have hpulse := Chip.pulse_of_low (hmaster.edge rfl) (hmaster.low rfl)
  constructor
  · apply forall_chip_update (P := fun r chip => chip.Wired r) h
    rw [hpulse]
    exact hmaster.congr rfl rfl rfl rfl
  · intro hpending
    rw [slave_update] at hpending
    have hinsert : (c.master.pulse cascadeLine).requests = c.master.requests.insert cascadeLine :=
      congrArg Chip.requests hpulse
    rw [master_update, if_pos hpending, hinsert]
    simp

/-- A change to one chip needs no pulse if it makes no line of the slave pending and leaves the
request on the cascade line alone. -/
theorem Relayed.setChip (h : c.Relayed) (hchip : chip.Wired role)
    (hslave : role = .slave → chip.pending?.isSome = true → c.slave.pending?.isSome = true)
    (hmaster : role = .master → chip.requests = c.master.requests) :
    (c.setChip role chip).Relayed := by
  refine ⟨h.wired.setChip hchip, ?_⟩
  cases role with
  | master =>
    intro hpending
    change chip.requests.contains cascadeLine = true
    rw [hmaster rfl]
    exact h.requested hpending
  | slave => exact fun hpending => h.requested (hslave rfl hpending)

theorem Relayed.setChip_of_eq (h : c.Relayed) (hchip : chip.Wired role)
    (hpending : chip.pending? = (c.chip role).pending?)
    (hrequests : chip.requests = (c.chip role).requests) : (c.setChip role chip).Relayed := by
  apply h.setChip hchip
  · rintro rfl hsome
    exact (congrArg Option.isSome hpending).symm.trans hsome
  · rintro rfl
    exact hrequests

theorem Relayed.latches (h : c.Relayed) (intrRaise intrClear : Bool) :
    { c with intrRaise := intrRaise, intrClear := intrClear }.Relayed where
  wired := forall_chip_latches (P := fun r chip => chip.Wired r) h.wired intrRaise intrClear
  requested := h.requested

/-! ## The operations -/

theorem Relayed.setIrq (h : c.Relayed) {line : Nat} (hline : line ≠ Role.master.line cascadeLine)
    (level : Bool) : (c.setIrq line level).Relayed := by
  unfold Controller.setIrq
  split_ifs with hlow
  · apply Wired.update
    apply h.wired.setChip
    apply (h.wired .master).setLine
    intro _ hl
    have hval : line % 8 = 2 := congrArg Fin.val hl
    rw [Nat.mod_eq_of_lt hlow] at hval
    exact hline hval
  · apply Wired.update
    apply h.wired.setChip
    exact (h.wired .slave).setLine level nofun
  · exact h

theorem Relayed.acknowledge (h : c.Relayed) : c.acknowledge.2.Relayed := by
  have hboth : ∀ {master slave : Chip}, master.Wired .master → slave.Wired .slave →
      { c with master := master, slave := slave }.Wired := by
    intro master slave hm hs r
    cases r
    · exact hm
    · exact hs
  have hm := h.wired .master
  have hs := h.wired .slave
  cases hirq : c.master.pending? with
  | none =>
    rw [acknowledge_of_none hirq]
    exact h.wired.update
  | some l =>
    by_cases hl : l = cascadeLine
    · subst hl
      cases hslave : c.slave.pending? with
      | none =>
        rw [acknowledge_of_spurious hirq hslave]
        exact (hboth (hm.acknowledge _) hs).update
      | some s =>
        rw [acknowledge_of_slave hirq hslave]
        exact (hboth (hm.acknowledge _) (hs.acknowledge s)).update
    · rw [acknowledge_of_master hirq hl]
      exact (hboth (hm.acknowledge l) hs).update

theorem Relayed.execute (h : c.Relayed) {command : Command}
    (hcommand : command.sparesRelay role = true) : (c.execute role command).Relayed := by
  have hrole := h.wired role
  unfold Controller.execute
  cases command with
  | initialise fourWords =>
    cases role with
    | master => cases hcommand
    | slave =>
      apply Relayed.latches
      apply h.setChip
      · exact Chip.wired_slave hrole.role_eq
      · intro _ hsome
        rw [Chip.pending?_initialise] at hsome
        cases hsome
      · nofun
  | configure poll shown specialMask =>
    cases role with
    | master =>
      have hpoll : poll = false := by simpa [Command.sparesRelay] using hcommand
      subst hpoll
      apply h.setChip
      · exact hrole.congr rfl rfl rfl rfl
      · nofun
      · exact fun _ => rfl
    | slave =>
      have hmask : specialMask ≠ some true := by simpa [Command.sparesRelay] using hcommand
      apply h.setChip
      · exact Chip.wired_slave hrole.role_eq
      · exact fun _ hsome => pending?_configure_isSome hmask hsome
      · nofun
  | rotateOnAutoEnd enabled =>
    apply h.setChip_of_eq
    · exact hrole.congr rfl rfl rfl rfl
    · rfl
    · rfl
  | endHighest rotate =>
    dsimp only
    split
    · exact (h.wired.setChip (hrole.endLine _ _)).update
    · exact h
  | endLine l rotate => exact (h.wired.setChip (hrole.endLine _ _)).update
  | setLowest l =>
    apply Wired.update
    apply h.wired.setChip
    exact hrole.congr rfl rfl rfl rfl
  | nothing => exact h

theorem Relayed.writeData (h : c.Relayed) (role : Role) (value : UInt8) :
    (c.writeData role value).Relayed := by
  have hrole := h.wired role
  unfold Controller.writeData
  dsimp only
  split_ifs
  · apply Wired.update
    apply h.wired.setChip
    exact hrole.congr rfl rfl rfl rfl
  · apply h.setChip (hrole.initWord value)
    · rintro rfl hsome
      rwa [Chip.pending?_initWord_slave hrole] at hsome
    · rintro rfl
      unfold Chip.initWord
      split <;> rfl

theorem Relayed.writePort (h : c.Relayed) {port : UInt16} {value : UInt8}
    (hop : (Operation.writePort port value).sparesRelay = true) :
    (c.writePort port value).Relayed := by
  unfold Controller.writePort
  cases hport : Register.ofPort? port with
  | none => exact h
  | some register =>
    cases register with
    | command role =>
      unfold Operation.sparesRelay at hop
      dsimp only at hop
      rw [hport] at hop
      exact h.execute hop
    | data role => exact h.writeData role value
    | trigger role =>
      apply h.setChip_of_eq
      · exact (h.wired role).setTrigger value
      · rfl
      · rfl

/-- A poll of the slave takes the cascade request off the master, and puts it back if another line
of the slave is pending. -/
theorem Relayed.pollRead_slave (h : c.Relayed) : (c.pollRead .slave).2.Relayed := by
  cases hl : (c.chip .slave).pending? with
  | none =>
    rw [pollRead_of_none hl]
    exact h.wired.update
  | some l =>
    rw [Controller.pollRead_slave hl]
    apply Wired.update
    intro r
    cases r with
    | master => exact (h.wired .master).drop cascadeLine
    | slave => exact (h.wired .slave).drop l

theorem Relayed.readChip (h : c.Relayed) (role : Role) (register : Chip → UInt8) :
    (c.readChip role register).2.Relayed := by
  unfold Controller.readChip
  split_ifs with hpoll
  · cases role with
    | master =>
      rw [(h.wired .master).unpolled rfl] at hpoll
      cases hpoll
    | slave =>
      have hread := h.pollRead_slave
      dsimp only
      apply hread.setChip_of_eq
      · exact Chip.wired_slave (hread.wired .slave).role_eq
      · rfl
      · rfl
  · exact h

theorem Relayed.readPort (h : c.Relayed) (port : UInt16) : (c.readPort port).2.Relayed := by
  unfold Controller.readPort
  split
  · exact h.readChip _ _
  · exact h.readChip _ _
  · exact h
  · exact h

theorem Relayed.step (h : c.Relayed) {op : Operation} (hop : op.sparesRelay = true) :
    (c.step op).Relayed := by
  cases op with
  | setIrq line level => exact h.setIrq (bne_iff_ne.mp hop) level
  | acknowledge => exact h.acknowledge
  | readPort port => exact h.readPort port
  | writePort port value => exact h.writePort hop
  | takeRaise => exact h.latches false c.intrClear
  | takeClear => exact h.latches c.intrRaise false
  | _ => cases hop

theorem Relayed.run (h : c.Relayed) {ops : List Operation}
    (hops : ∀ op ∈ ops, op.sparesRelay = true) :
    (c.run ops).Relayed := by
  induction ops generalizing c with
  | nil => exact h
  | cons op ops ih =>
    have hstep := h.step (hops op List.mem_cons_self)
    exact ih hstep fun o ho => hops o (List.mem_cons_of_mem _ ho)

/-- The pair is relayed once it is set up, since nothing is requested then. -/
theorem relayed_initLegacy (masterBase slaveBase : UInt8) :
    (new.initLegacy masterBase slaveBase).Relayed := by
  have hmaster : (new.initLegacy masterBase slaveBase).chip .master =
      { Chip.new .master with vectorBase := masterBase &&& 0xF8, fourWords := true } := rfl
  constructor
  · intro r
    cases r with
    | slave => exact Chip.wired_slave rfl
    | master =>
      rw [hmaster]
      exact ⟨rfl, fun _ => LineSet.contains_empty _, fun _ => LineSet.contains_empty _,
        fun _ => rfl⟩
  · have hwaiting : (new.initLegacy masterBase slaveBase).slave.waiting = .empty := by
      change LineSet.empty.without .empty = .empty
      decide
    rw [Chip.pending?_of_nothing_waiting hwaiting]
    nofun

/-- Behind a request on the cascade line stands the pending line of the slave. -/
theorem acknowledge_cascade {l : Line} (hirq : c.irq? = some cascadeLine)
    (hl : c.slave.pending? = some l) :
    c.acknowledge.1 = c.slave.vector l ∧ c.acknowledge.2.slave = c.slave.acknowledge l := by
  have hmaster : c.master.pending? = some cascadeLine := hirq
  constructor
  · unfold acknowledge acknowledgeSlave
    rw [hmaster]
    dsimp only
    rw [if_pos rfl, hl]
  · rw [acknowledge_of_slave hmaster hl, slave_update]

/-- After any operations on a pair set up as on a PC that neither touch the cascade line, initialise
or poll the master nor set the special mask of the slave, a line pending on the slave is requested
on the master, and when the master answers for it the vector is the slave's. -/
theorem slave_never_stranded (masterBase slaveBase : UInt8) {ops : List Operation}
    (hops : ∀ op ∈ ops, op.sparesRelay = true) {l : Line} :
    let c := (new.initLegacy masterBase slaveBase).run ops
    c.slave.pending? = some l →
      c.master.requests.contains cascadeLine = true ∧
      (c.irq? = some cascadeLine →
        c.acknowledge.1 = c.slave.vector l ∧ c.acknowledge.2.slave = c.slave.acknowledge l) := by
  intro c hl
  have hrelayed := (relayed_initLegacy masterBase slaveBase).run hops
  exact ⟨hrelayed.requested (Option.isSome_of_eq_some hl), fun hirq => acknowledge_cascade hirq hl⟩

/-- Two requests of the slave, of which a poll takes the first. -/
def polledSlave : List Operation :=
  [.setIrq 8 true, .setIrq 12 true, .writePort Register.slaveCommand 0x0C,
    .readPort Register.slaveCommand]

/-- The line that the poll left is requested on the master, and is acknowledged next. -/
theorem line_left_by_poll_is_acknowledged :
    let c := (new.initLegacy 0x08 0x70).run polledSlave
    c.slave.pending? = some 4 ∧ c.master.requests.contains cascadeLine = true ∧
      c.acknowledge.1 = 0x74 := by
  intro c
  have hpending : c.slave.pending? = some 4 := by decide +kernel
  have hirq : c.irq? = some cascadeLine := by decide +kernel
  have hops : ∀ op ∈ polledSlave, op.sparesRelay = true := by decide
  obtain ⟨hrequested, hacknowledge⟩ := slave_never_stranded 0x08 0x70 hops hpending
  refine ⟨hpending, hrequested, ?_⟩
  rw [(hacknowledge hirq).1]
  decide +kernel

end Controller
end Mainboard
