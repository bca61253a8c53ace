import Mainboard.Interrupt.Operation
import Mainboard.Proofs.Interrupt.Priority

/-!
# The cascade line

After most operations the slave's output is pulsed onto line two of the master, and INTR is raised
if the master has a pending line. A pulse changes nothing but the request and the level of line two.
-/
namespace Mainboard

namespace Chip

theorem setLine_eq (c : Chip) (l : Line) (level : Bool) : ∃ requests levels,
    c.setLine l level = { c with requests := requests, levels := levels } := by
  unfold setLine
  split_ifs <;> exact ⟨_, _, rfl⟩

@[simp] theorem levelTriggered_setLine (c : Chip) (l : Line) (level : Bool) :
    (c.setLine l level).levelTriggered = c.levelTriggered := by
  obtain ⟨_, _, h⟩ := c.setLine_eq l level
  rw [h]

theorem contains_requests_setLine_self {c : Chip} {l : Line}
    (h : c.levelTriggered.contains l = false) (level : Bool) :
    (c.setLine l level).requests.contains l =
      (c.requests.contains l || (level && !c.levels.contains l)) := by
  unfold setLine
  rw [if_neg (by simp [h])]
  cases level <;> cases c.levels.contains l <;> simp

def pulse (c : Chip) (l : Line) : Chip := (c.setLine l true).setLine l false

theorem contains_requests_pulse_of_ne (c : Chip) {l k : Line} (h : k ≠ l) :
    (c.pulse l).requests.contains k = c.requests.contains k := by
  unfold pulse
  rw [contains_requests_setLine_of_ne _ _ h, contains_requests_setLine_of_ne _ _ h]

theorem contains_levels_pulse_of_ne (c : Chip) {l k : Line} (h : k ≠ l) :
    (c.pulse l).levels.contains k = c.levels.contains k := by
  unfold pulse
  rw [contains_levels_setLine, contains_levels_setLine, if_neg h, if_neg h]

@[simp] theorem levelTriggered_pulse (c : Chip) (l : Line) :
    (c.pulse l).levelTriggered = c.levelTriggered := by
  simp [pulse]

/-- A pulse on an edge-triggered line that is low latches a request and leaves the line low. -/
theorem pulse_of_low {c : Chip} {l : Line} (hedge : c.levelTriggered.contains l = false)
    (hlow : c.levels.contains l = false) :
    c.pulse l = { c with requests := c.requests.insert l } := by
  have hlevels : (c.levels.insert l).erase l = c.levels := by
    apply LineSet.ext
    intro k
    by_cases hk : k = l
    · simp [hk, hlow]
    · simp [hk]
  simp [pulse, setLine, hedge, hlow, hlevels]

end Chip

namespace Controller

@[simp] theorem slave_update (c : Controller) : c.update.slave = c.slave := by
  unfold update
  dsimp only
  split_ifs <;> rfl

theorem master_update (c : Controller) :
    c.update.master =
      if c.slave.pending?.isSome then c.master.pulse cascadeLine else c.master := by
  unfold update
  dsimp only
  split_ifs <;> rfl

/-- What holds of both chips holds after one of them has been replaced, if it holds of the new one.
-/
theorem forall_chip_setChip {P : Role → Chip → Prop} {c : Controller} (h : ∀ r, P r (c.chip r))
    {role : Role} {chip : Chip} (hchip : P role chip) (r : Role) :
    P r ((c.setChip role chip).chip r) := by
  rw [chip_setChip]
  split_ifs with hr
  · rw [hr]
    exact hchip
  · exact h r

theorem forall_chip_latches {P : Role → Chip → Prop} {c : Controller} (h : ∀ r, P r (c.chip r))
    (intrRaise intrClear : Bool) (r : Role) :
    P r ({ c with intrRaise := intrRaise, intrClear := intrClear }.chip r) := by
  cases r with
  | master => exact h .master
  | slave => exact h .slave

/-- What holds of both chips holds after an update, if it also holds of the pulsed master. -/
theorem forall_chip_update {P : Role → Chip → Prop} {c : Controller} (h : ∀ r, P r (c.chip r))
    (hpulse : P .master (c.master.pulse cascadeLine)) (r : Role) : P r (c.update.chip r) := by
  cases r with
  | slave =>
    change P .slave c.update.slave
    rw [slave_update]
    exact h .slave
  | master =>
    change P .master c.update.master
    rw [master_update]
    split_ifs
    · exact hpulse
    · exact h .master

/-- An update raises INTR if it leaves a line pending, and leaves the raise alone otherwise. -/
theorem intrRaise_update (c : Controller) :
    c.update.intrRaise = (c.intrRaise || c.update.irq?.isSome) := by
  unfold update irq?
  dsimp only
  split_ifs <;> simp_all

theorem intrRaise_update_of_pending {c : Controller} (h : c.update.irq?.isSome = true) :
    c.update.intrRaise = true := by
  rw [intrRaise_update, h, Bool.or_true]

/-! ## Acknowledges -/

theorem acknowledge_of_none {c : Controller} (h : c.master.pending? = none) :
    c.acknowledge.2 = c.update := by
  unfold acknowledge
  rw [h]

theorem acknowledge_of_master {c : Controller} {l : Line} (h : c.master.pending? = some l)
    (hl : l ≠ cascadeLine) :
    c.acknowledge.2 = { c with master := c.master.acknowledge l }.update := by
  unfold acknowledge
  rw [h]
  dsimp only
  rw [if_neg hl]

theorem acknowledge_of_slave {c : Controller} {l : Line} (h : c.master.pending? = some cascadeLine)
    (hl : c.slave.pending? = some l) :
    c.acknowledge.2 = { c with
      master := c.master.acknowledge cascadeLine, slave := c.slave.acknowledge l }.update := by
  unfold acknowledge acknowledgeSlave
  rw [h]
  dsimp only
  rw [if_pos rfl, hl]

/-- Behind a cascade request that the slave has withdrawn the acknowledge is spurious. -/
theorem acknowledge_of_spurious {c : Controller} (h : c.master.pending? = some cascadeLine)
    (hl : c.slave.pending? = none) :
    c.acknowledge.2 = { c with master := c.master.acknowledge cascadeLine }.update := by
  unfold acknowledge acknowledgeSlave
  rw [h]
  dsimp only
  rw [if_pos rfl, hl]

/-! ## Polls -/

theorem pollRead_of_none {c : Controller} {role : Role} (h : (c.chip role).pending? = none) :
    (c.pollRead role).2 = c.update := by
  unfold pollRead
  rw [h]

theorem pollRead_slave {c : Controller} {l : Line} (h : c.slave.pending? = some l) :
    (c.pollRead .slave).2 =
      { c with master := c.master.drop cascadeLine, slave := c.slave.drop l }.update := by
  have hchip : (c.chip .slave).pending? = some l := h
  unfold pollRead
  rw [hchip]
  rfl

/-- A poll that takes the cascade request off the master does not update the pair. -/
theorem pollRead_master {c : Controller} {l : Line} (h : c.master.pending? = some l) :
    (c.pollRead .master).2 =
      if l = cascadeLine then { c with master := c.master.drop l }
      else { c with master := c.master.drop l }.update := by
  have hchip : (c.chip .master).pending? = some l := h
  unfold pollRead
  rw [hchip]
  by_cases hl : l = cascadeLine
  · rw [if_pos hl, hl]
    rfl
  · rw [if_neg hl]
    simp [hl, setChip, chip]

end Controller
end Mainboard
