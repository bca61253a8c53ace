import Mainboard.Proofs.Interrupt.Cascade

/-!
# Requests and the INTR latch

An operation that makes a line pending raises INTR, with two exceptions: an operation word that sets
the special mask of the master, and the last initialisation word of the master when it selects the
special fully nested mode. Both uncover requests that were held back by a line in service, and leave
the latch as it was.
-/
namespace Mainboard
namespace Controller

/-- The operations by which devices, the processor and its port instructions reach the pair. -/
def Operation.isAccess : Operation → Bool
  | .setIrq _ _ => true
  | .acknowledge => true
  | .readPort _ => true
  | .writePort _ _ => true
  | _ => false

/-- The operation can uncover requests on the master without an update of INTR. -/
def Operation.Silent (c : Controller) : Operation → Prop
  | .writePort port value =>
    (Register.ofPort? port = some (.command .master) ∧
        ∃ poll shown, Command.ofByte value = .configure poll shown (some true)) ∨
      (Register.ofPort? port = some (.data .master) ∧
        c.master.initState = .mode ∧ Command.bit value 4 = true)
  | _ => False

/-- If the second pair has a line pending and the first has none, the second has raised INTR. -/
def Announces (c d : Controller) : Prop :=
  c.irq? = none → d.irq?.isSome = true → d.intrRaise = true

variable {c d : Controller}

theorem announces_update (c d : Controller) : c.Announces d.update :=
  fun _ h => intrRaise_update_of_pending h

theorem announces_of_isSome (h : d.irq?.isSome = true → c.irq?.isSome = true) :
    c.Announces d := by
  intro hnone hsome
  rw [hnone] at h
  exact absurd (h hsome) Bool.false_ne_true

theorem announces_self (c : Controller) : c.Announces c := announces_of_isSome id

theorem announces_setChip_slave (c : Controller) (chip : Chip) :
    c.Announces (c.setChip .slave chip) :=
  announces_of_isSome id

theorem announces_setChip {role : Role} {chip : Chip} (h : chip.pending? = (c.chip role).pending?) :
    c.Announces (c.setChip role chip) := by
  cases role with
  | master =>
    apply announces_of_isSome
    intro hsome
    exact (congrArg Option.isSome h).symm.trans hsome
  | slave => exact c.announces_setChip_slave chip

theorem announces_setIrq (c : Controller) (line : Nat) (level : Bool) :
    c.Announces (c.setIrq line level) := by
  unfold setIrq
  split_ifs
  · exact announces_update _ _
  · exact announces_update _ _
  · exact announces_self c

/-! ## Reading a port -/

theorem announces_pollRead (c : Controller) (role : Role) : c.Announces (c.pollRead role).2 := by
  cases hl : (c.chip role).pending? with
  | none =>
    rw [pollRead_of_none hl]
    exact announces_update c c
  | some l =>
    cases role with
    | slave =>
      rw [pollRead_slave hl]
      exact announces_update _ _
    | master =>
      -- a poll of the cascade line does not update INTR, but then something was pending before
      apply announces_of_isSome
      intro _
      exact Option.isSome_of_eq_some hl

theorem announces_readChip (c : Controller) (role : Role) (register : Chip → UInt8) :
    c.Announces (c.readChip role register).2 := by
  unfold readChip
  split_ifs
  · have hpoll := c.announces_pollRead role
    cases role <;> exact hpoll
  · exact announces_self c

theorem announces_readPort (c : Controller) (port : UInt16) : c.Announces (c.readPort port).2 := by
  unfold readPort
  split
  · exact c.announces_readChip _ _
  · exact c.announces_readChip _ _
  · exact announces_self c
  · exact announces_self c

/-! ## Writing a port -/

theorem pending?_configure_isSome {chip : Chip} {poll : Bool} {shown specialMask : Option Bool}
    (hmask : specialMask ≠ some true)
    (h : (chip.configure poll shown specialMask).pending?.isSome = true) :
    chip.pending?.isSome = true := by
  refine Chip.pending?_isSome_of_blocking h rfl rfl fun k hk => ?_
  rw [Chip.contains_blocking] at hk ⊢
  cases specialMask with
  | none => exact hk
  | some enabled =>
    cases enabled with
    | true => exact absurd rfl hmask
    | false =>
      simp only [Chip.configure, Option.getD_some, Bool.false_and, Bool.not_false, Bool.and_true]
      simp only [Bool.and_eq_true] at hk ⊢
      exact ⟨hk.1.1, hk.2⟩

theorem announces_execute (c : Controller) (role : Role) {command : Command}
    (hsilent : role = .master → ∀ poll shown, command ≠ .configure poll shown (some true)) :
    c.Announces (c.execute role command) := by
  cases command with
  | initialise fourWords =>
    apply announces_of_isSome
    cases role with
    | master =>
      intro hsome
      change (c.master.initialise fourWords).pending?.isSome = true at hsome
      rw [Chip.pending?_initialise] at hsome
      cases hsome
    | slave => exact id
  | configure poll shown specialMask =>
    cases role with
    | master =>
      apply announces_of_isSome
      exact pending?_configure_isSome fun h => hsilent rfl poll shown (h ▸ rfl)
    | slave => exact c.announces_setChip_slave _
  | rotateOnAutoEnd enabled => exact announces_setChip rfl
  | endHighest rotate =>
    unfold execute
    dsimp only
    split
    · exact announces_update _ _
    · exact announces_self c
  | endLine l rotate => exact announces_update _ _
  | setLowest l => exact announces_update _ _
  | nothing => exact announces_self c

/-- A word of the initialisation other than one that selects the special fully nested mode. -/
theorem pending?_initWord_isSome {chip : Chip} {value : UInt8}
    (hnested : ¬(chip.initState = .mode ∧ Command.bit value 4 = true))
    (h : (chip.initWord value).pending?.isSome = true) : chip.pending?.isSome = true := by
  unfold Chip.initWord at h
  split at h
  · exact h
  · exact h
  · exact h
  · rename_i hmode
    have hbit : Command.bit value 4 = false := by
      cases hbit : Command.bit value 4 with
      | true => exact absurd ⟨hmode, hbit⟩ hnested
      | false => rfl
    refine Chip.pending?_isSome_of_blocking h rfl rfl fun k hk => ?_
    rw [Chip.contains_blocking] at hk ⊢
    simp only [hbit, Bool.false_and, Bool.not_false, Bool.and_true]
    simp only [Bool.and_eq_true] at hk ⊢
    exact hk.1

theorem announces_writeData (c : Controller) (role : Role) {value : UInt8}
    (hsilent : role = .master → ¬(c.master.initState = .mode ∧ Command.bit value 4 = true)) :
    c.Announces (c.writeData role value) := by
  unfold writeData
  dsimp only
  split_ifs
  · exact announces_update _ _
  · cases role with
    | master => exact announces_of_isSome (pending?_initWord_isSome (hsilent rfl))
    | slave => exact c.announces_setChip_slave _

theorem announces_writePort {port : UInt16} {value : UInt8}
    (hsilent : ¬(Operation.writePort port value).Silent c) :
    c.Announces (c.writePort port value) := by
  unfold Operation.Silent at hsilent
  push Not at hsilent
  obtain ⟨hcommand, hdata⟩ := hsilent
  unfold writePort
  cases hport : Register.ofPort? port with
  | none => exact announces_self c
  | some register =>
    cases register with
    | command role =>
      apply announces_execute
      rintro rfl
      exact hcommand hport
    | data role =>
      apply announces_writeData
      rintro rfl ⟨hmode, hbit⟩
      exact hdata hport hmode hbit
    | trigger role => exact announces_setChip rfl

/-! ## All accesses -/

theorem announces_step {op : Operation} (hop : op.isAccess = true) (hsilent : ¬op.Silent c) :
    c.Announces (c.step op) := by
  cases op with
  | setIrq line level => exact c.announces_setIrq line level
  | acknowledge => exact announces_update _ _
  | readPort port => exact c.announces_readPort port
  | writePort port value => exact announces_writePort hsilent
  | _ => cases hop

@[simp] theorem intrRaise_setChip (c : Controller) (role : Role) (chip : Chip) :
    (c.setChip role chip).intrRaise = c.intrRaise := by
  cases role <;> rfl

theorem intrRaise_of_silent {op : Operation} (h : op.Silent c) :
    (c.step op).intrRaise = c.intrRaise := by
  cases op with
  | writePort port value =>
    rcases h with ⟨hport, poll, shown, hvalue⟩ | ⟨hport, hmode, -⟩
    · simp [step, writePort, hport, hvalue, execute]
    · have hready : ¬(c.chip .master).initState = .ready := by
        intro hready
        exact absurd (hmode.symm.trans hready) (by decide)
      simp [step, writePort, hport, writeData, hready]
  | _ => cases h

/-- When an access makes a line pending, INTR is raised afterwards exactly if it was raised before
or the access is not one that uncovers requests silently. -/
theorem raised_iff_of_newly_pending {op : Operation} (hop : op.isAccess = true)
    (hbefore : c.irq? = none)
    (hafter : (c.step op).irq?.isSome = true) :
    (c.step op).intrRaise = true ↔ c.intrRaise = true ∨ ¬op.Silent c := by
  by_cases hsilent : op.Silent c
  · simp [intrRaise_of_silent hsilent, hsilent]
  · have hraised := announces_step hop hsilent hbefore hafter
    simp [hraised, hsilent]

/-- Operations after which the timer interrupt is in service and masked, a request of the keyboard
is held back behind it, and INTR has been taken. -/
def keyboardBehindTimer : List Operation :=
  [.initLegacy 0x08 0x70, .setIrq 0 true, .acknowledge, .takeRaise,
    .writePort Register.masterData 0x01, .setIrq 1 true]

/-- Ending the timer interrupt makes the keyboard pending and raises INTR. -/
theorem raised_at_end_of_timer :
    let c := new.run keyboardBehindTimer
    let d := c.step (.writePort Register.masterCommand 0x20)
    c.irq? = none ∧ d.irq? = some 1 ∧ d.intrRaise = true := by
  intro c d
  have hbefore : c.irq? = none := by decide +kernel
  have hafter : d.irq? = some 1 := by decide +kernel
  refine ⟨hbefore, hafter, ?_⟩
  apply (raised_iff_of_newly_pending rfl hbefore (Option.isSome_of_eq_some hafter)).mpr
  right
  rintro (⟨-, poll, shown, hvalue⟩ | ⟨hport, -⟩)
  · have hcommand : Command.ofByte 0x20 = .endHighest false := by decide
    rw [hcommand] at hvalue
    cases hvalue
  · revert hport
    decide

/-- Setting the special mask makes the keyboard pending as well, but INTR stays low. -/
theorem special_mask_keeps_intr_low : ¬ ∀ (ops : List Operation) (op : Operation),
    op.isAccess = true → (new.run ops).irq? = none → ((new.run ops).step op).irq?.isSome = true →
      ((new.run ops).step op).intrRaise = true := by
  intro h
  have hraised := h keyboardBehindTimer (.writePort Register.masterCommand 0x68) rfl
    (by decide +kernel) (by decide +kernel)
  revert hraised
  decide +kernel

end Controller
end Mainboard
