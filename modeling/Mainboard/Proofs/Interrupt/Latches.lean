import Mainboard.Proofs.Interrupt.Raise

/-!
# What an access adds to the latches

An access to the pair looks at the chips only. So it does the same whether requests for the INTR pin
have been latched before or not, and what it requests itself comes on top of them: a raise joins an
earlier clear, while a clear, which only the start of an initialisation asks for, takes an earlier
raise back.
-/
namespace Mainboard
namespace Controller

/-- The pair `c` is `d` with these requests latched before those of `d`. -/
structure Overlaid (raise clear : Bool) (c d : Controller) : Prop where
  master : c.master = d.master
  slave : c.slave = d.slave
  intrRaise : c.intrRaise = (d.intrRaise || (raise && !d.intrClear))
  intrClear : c.intrClear = (d.intrClear || clear)

variable {raise clear : Bool} {c d : Controller}

/-- Requests that a pair has latched already lie over the same pair with empty latches. -/
theorem overlaid_of_empty (hmaster : c.master = d.master) (hslave : c.slave = d.slave)
    (hraise : d.intrRaise = false) (hclear : d.intrClear = false) :
    c.Overlaid c.intrRaise c.intrClear d where
  master := hmaster
  slave := hslave
  intrRaise := by simp [hraise, hclear]
  intrClear := by simp [hclear]

@[simp] theorem intrClear_update (c : Controller) : c.update.intrClear = c.intrClear := by
  unfold update
  dsimp only
  split_ifs <;> rfl

namespace Overlaid

theorem chip (h : c.Overlaid raise clear d) (role : Role) : c.chip role = d.chip role := by
  cases role with
  | master => exact h.master
  | slave => exact h.slave

theorem setChip (h : c.Overlaid raise clear d) (role : Role) (chip : Chip) :
    (c.setChip role chip).Overlaid raise clear (d.setChip role chip) := by
  cases role with
  | master => exact ⟨rfl, h.slave, h.intrRaise, h.intrClear⟩
  | slave => exact ⟨h.master, rfl, h.intrRaise, h.intrClear⟩

theorem update (h : c.Overlaid raise clear d) : c.update.Overlaid raise clear d.update := by
  have hmaster : c.update.master = d.update.master := by
    rw [master_update, master_update, h.master, h.slave]
  refine ⟨hmaster, ?_, ?_, ?_⟩
  · rw [slave_update, slave_update, h.slave]
  · have hirq : c.update.irq? = d.update.irq? := congrArg Chip.pending? hmaster
    rw [intrRaise_update, intrRaise_update, intrClear_update, hirq, h.intrRaise, Bool.or_right_comm]
  · rw [intrClear_update, intrClear_update, h.intrClear]

theorem setIrq (h : c.Overlaid raise clear d) (line : Nat) (level : Bool) :
    (c.setIrq line level).Overlaid raise clear (d.setIrq line level) := by
  unfold Controller.setIrq
  rw [h.master, h.slave]
  split_ifs
  · exact (h.setChip .master _).update
  · exact (h.setChip .slave _).update
  · exact h

theorem acknowledge (h : c.Overlaid raise clear d) :
    c.acknowledge.2.Overlaid raise clear d.acknowledge.2 := by
  have hmaster := fun l => h.setChip .master (d.master.acknowledge l)
  cases hl : d.master.pending? with
  | none =>
    rw [acknowledge_of_none hl, acknowledge_of_none (h.master ▸ hl)]
    exact h.update
  | some l =>
    have hlc : c.master.pending? = some l := h.master ▸ hl
    by_cases hcascade : l = cascadeLine
    · subst hcascade
      cases hk : d.slave.pending? with
      | none =>
        rw [acknowledge_of_spurious hl hk, acknowledge_of_spurious hlc (h.slave ▸ hk), h.master]
        exact (hmaster cascadeLine).update
      | some k =>
        rw [acknowledge_of_slave hl hk, acknowledge_of_slave hlc (h.slave ▸ hk), h.master, h.slave]
        exact ((hmaster cascadeLine).setChip .slave (d.slave.acknowledge k)).update
    · rw [acknowledge_of_master hl hcascade, acknowledge_of_master hlc hcascade, h.master]
      exact (hmaster l).update

theorem pollRead (h : c.Overlaid raise clear d) (role : Role) :
    (c.pollRead role).2.Overlaid raise clear (d.pollRead role).2 := by
  cases hl : (d.chip role).pending? with
  | none =>
    rw [pollRead_of_none hl, pollRead_of_none (h.chip role ▸ hl)]
    exact h.update
  | some l =>
    have hlc : (c.chip role).pending? = some l := h.chip role ▸ hl
    cases role with
    | slave =>
      rw [pollRead_slave hl, pollRead_slave hlc, h.master, h.slave]
      exact ((h.setChip .master (d.master.drop cascadeLine)).setChip .slave (d.slave.drop l)).update
    | master =>
      have hdrop := h.setChip .master (d.master.drop l)
      rw [pollRead_master hl, pollRead_master hlc, h.master]
      split_ifs
      · exact hdrop
      · exact hdrop.update

theorem readChip (h : c.Overlaid raise clear d) (role : Role) (register : Chip → UInt8) :
    (c.readChip role register).2.Overlaid raise clear (d.readChip role register).2 := by
  have hpoll := h.pollRead role
  unfold Controller.readChip
  rw [h.chip role]
  split_ifs
  · dsimp only
    rw [hpoll.chip role]
    exact hpoll.setChip role _
  · exact h

theorem readPort (h : c.Overlaid raise clear d) (port : UInt16) :
    (c.readPort port).2.Overlaid raise clear (d.readPort port).2 := by
  unfold Controller.readPort
  split
  · exact h.readChip _ _
  · exact h.readChip _ _
  · exact h
  · exact h

theorem initialise (h : c.Overlaid raise clear d) (role : Role) (fourWords : Bool) :
    (c.execute role (.initialise fourWords)).Overlaid raise clear
      (d.execute role (.initialise fourWords)) := by
  have hchip := h.setChip role ((d.chip role).initialise fourWords)
  unfold Controller.execute
  rw [h.chip role]
  exact ⟨hchip.master, hchip.slave, by simp, by simp⟩

theorem execute (h : c.Overlaid raise clear d) (role : Role) (command : Command) :
    (c.execute role command).Overlaid raise clear (d.execute role command) := by
  cases command with
  | initialise fourWords => exact h.initialise role fourWords
  | endHighest rotate =>
    unfold Controller.execute
    rw [h.chip role]
    dsimp only
    split
    · exact (h.setChip role _).update
    · exact h
  | nothing => exact h
  | configure poll shown specialMask =>
    unfold Controller.execute
    rw [h.chip role]
    exact h.setChip role _
  | rotateOnAutoEnd enabled =>
    unfold Controller.execute
    rw [h.chip role]
    exact h.setChip role _
  | endLine l rotate =>
    unfold Controller.execute
    rw [h.chip role]
    exact (h.setChip role _).update
  | setLowest l =>
    unfold Controller.execute
    rw [h.chip role]
    exact (h.setChip role _).update

theorem writeData (h : c.Overlaid raise clear d) (role : Role) (value : UInt8) :
    (c.writeData role value).Overlaid raise clear (d.writeData role value) := by
  unfold Controller.writeData
  rw [h.chip role]
  dsimp only
  split_ifs
  · exact (h.setChip role _).update
  · exact h.setChip role _

theorem writePort (h : c.Overlaid raise clear d) (port : UInt16) (value : UInt8) :
    (c.writePort port value).Overlaid raise clear (d.writePort port value) := by
  unfold Controller.writePort
  split
  · exact h.execute _ _
  · exact h.writeData _ _
  · rw [h.chip]
    exact h.setChip _ _
  · exact h

/-- An access does the same to the chips with requests latched before, and adds its own to them. -/
theorem step (h : c.Overlaid raise clear d) {op : Operation} (hop : op.isAccess = true) :
    (c.step op).Overlaid raise clear (d.step op) := by
  cases op with
  | setIrq line level => exact h.setIrq line level
  | acknowledge => exact h.acknowledge
  | readPort port => exact h.readPort port
  | writePort port value => exact h.writePort port value
  | _ => cases hop

end Overlaid
end Controller
end Mainboard
