import Mainboard.Proofs.Interrupt.Cascade

/-!
# No edge is lost and none is delivered twice

While a line is edge triggered and its chip is neither initialised anew nor polled, its request is
set by a rise that finds it clear and cleared by the acknowledge that takes the line, and by nothing
else. So over a run the requests that were latched are those that were delivered and the one that
may be left. This leaves out the cascade line, which is pulsed by the pair itself.
-/
namespace Mainboard

namespace Chip

@[simp] theorem levels_acknowledge (c : Chip) (l : Line) : (c.acknowledge l).levels = c.levels := by
  unfold acknowledge
  dsimp only
  split_ifs <;> rfl

@[simp] theorem levelTriggered_acknowledge (c : Chip) (l : Line) :
    (c.acknowledge l).levelTriggered = c.levelTriggered := by
  unfold acknowledge
  dsimp only
  split_ifs <;> rfl

theorem requests_acknowledge (c : Chip) (l : Line) : (c.acknowledge l).requests =
    if c.levelTriggered.contains l then c.requests else c.requests.erase l := by
  unfold acknowledge
  dsimp only
  split_ifs <;> rfl

theorem contains_requests_acknowledge_of_ne (c : Chip) {l k : Line} (h : k ≠ l) :
    (c.acknowledge l).requests.contains k = c.requests.contains k := by
  rw [requests_acknowledge]
  split_ifs
  · rfl
  · simp [h]

end Chip

namespace Controller

/-! ## Lines of the pair -/

def level (c : Controller) (line : Nat) : Bool :=
  (c.chip (.ofLine line)).levels.contains (Fin.ofNat 8 line)

def isLevelTriggered (c : Controller) (line : Nat) : Bool :=
  (c.chip (.ofLine line)).levelTriggered.contains (Fin.ofNat 8 line)

theorem ofNat_ne_cascadeLine {line : Nat} (hrole : Role.ofLine line = .master) (h : line ≠ 2) :
    (Fin.ofNat 8 line : Line) ≠ cascadeLine := by
  intro heq
  have hmod : line % 8 = 2 := congrArg Fin.val heq
  unfold Role.ofLine at hrole
  split_ifs at hrole
  omega

theorem setIrq_eq (c : Controller) {line : Nat} (h : line < 16) (level : Bool) :
    c.setIrq line level = (c.setChip (.ofLine line)
      ((c.chip (.ofLine line)).setLine (Fin.ofNat 8 line) level)).update := by
  unfold setIrq Role.ofLine
  split_ifs <;> rfl

/-! ## What leaves the inputs of a line alone -/

/-- Request, level and trigger mode of the line are the same. -/
structure SameInputs (line : Nat) (c d : Controller) : Prop where
  requested : d.requested line = c.requested line
  level : d.level line = c.level line
  isLevelTriggered : d.isLevelTriggered line = c.isLevelTriggered line

variable {line : Nat} {c d e : Controller}

theorem sameInputs_self (line : Nat) (c : Controller) : SameInputs line c c := ⟨rfl, rfl, rfl⟩

theorem SameInputs.trans (h : SameInputs line c d) (h' : SameInputs line d e) :
    SameInputs line c e :=
  ⟨h'.requested.trans h.requested, h'.level.trans h.level,
    h'.isLevelTriggered.trans h.isLevelTriggered⟩

theorem sameInputs_setChip {role : Role} {chip : Chip}
    (hrequests : role = .ofLine line →
      chip.requests.contains (Fin.ofNat 8 line) = c.requested line)
    (hlevels : role = .ofLine line → chip.levels.contains (Fin.ofNat 8 line) = c.level line)
    (htriggers : role = .ofLine line →
      chip.levelTriggered.contains (Fin.ofNat 8 line) = c.isLevelTriggered line) :
    SameInputs line c (c.setChip role chip) := by
  by_cases hrole : Role.ofLine line = role
  · constructor
    · rw [requested, chip_setChip, if_pos hrole, hrequests hrole.symm]
    · rw [level, chip_setChip, if_pos hrole, hlevels hrole.symm]
    · rw [isLevelTriggered, chip_setChip, if_pos hrole, htriggers hrole.symm]
  · constructor
    · rw [requested, chip_setChip, if_neg hrole, requested]
    · rw [level, chip_setChip, if_neg hrole, level]
    · rw [isLevelTriggered, chip_setChip, if_neg hrole, isLevelTriggered]

theorem sameInputs_of_registers {role : Role} {chip : Chip}
    (hrequests : chip.requests = (c.chip role).requests)
    (hlevels : chip.levels = (c.chip role).levels)
    (htriggers : chip.levelTriggered = (c.chip role).levelTriggered) :
    SameInputs line c (c.setChip role chip) := by
  apply sameInputs_setChip
  · rintro rfl
    rw [hrequests, requested]
  · rintro rfl
    rw [hlevels, level]
  · rintro rfl
    rw [htriggers, isLevelTriggered]

theorem sameInputs_update (hne : line ≠ 2) (c : Controller) : SameInputs line c c.update := by
  have hchip : ∀ role, c.update.chip role = c.chip role ∨
      role = .master ∧ c.update.chip role = c.master.pulse cascadeLine := by
    intro role
    cases role with
    | slave => exact Or.inl c.slave_update
    | master =>
      rcases ite_eq_or_eq (c.slave.pending?.isSome = true) (c.master.pulse cascadeLine) c.master
        with h | h
      · exact Or.inr ⟨rfl, c.master_update.trans h⟩
      · exact Or.inl (c.master_update.trans h)
  rcases hchip (.ofLine line) with h | ⟨hrole, h⟩
  · constructor
    · rw [requested, h, requested]
    · rw [level, h, level]
    · rw [isLevelTriggered, h, isLevelTriggered]
  · have hcascade := ofNat_ne_cascadeLine hrole hne
    constructor
    · rw [requested, h, Chip.contains_requests_pulse_of_ne _ hcascade, requested, hrole]
      rfl
    · rw [level, h, Chip.contains_levels_pulse_of_ne _ hcascade, level, hrole]
      rfl
    · rw [isLevelTriggered, h, Chip.levelTriggered_pulse, isLevelTriggered, hrole]
      rfl

theorem sameInputs_setChip_update {role : Role} {chip : Chip} (hne : line ≠ 2)
    (h : SameInputs line c (c.setChip role chip)) :
    SameInputs line c (c.setChip role chip).update :=
  h.trans (sameInputs_update hne _)

theorem sameInputs_execute (hne : line ≠ 2) (c : Controller) (role : Role) {command : Command}
    (hcommand : ∀ fourWords, command ≠ .initialise fourWords) :
    SameInputs line c (c.execute role command) := by
  have hend : ∀ l rotate,
      SameInputs line c (c.setChip role ((c.chip role).endLine l rotate)).update := by
    intro l rotate
    apply sameInputs_setChip_update hne
    cases rotate <;> exact sameInputs_of_registers rfl rfl rfl
  cases command with
  | initialise fourWords => exact absurd rfl (hcommand fourWords)
  | configure poll shown specialMask => exact sameInputs_of_registers rfl rfl rfl
  | rotateOnAutoEnd enabled => exact sameInputs_of_registers rfl rfl rfl
  | endHighest rotate =>
    unfold execute
    dsimp only
    split
    · exact hend _ rotate
    · exact sameInputs_self line c
  | endLine l rotate => exact hend l rotate
  | setLowest l => exact sameInputs_setChip_update hne (sameInputs_of_registers rfl rfl rfl)
  | nothing => exact sameInputs_self line c

theorem sameInputs_writeData (hne : line ≠ 2) (c : Controller) (role : Role) (value : UInt8) :
    SameInputs line c (c.writeData role value) := by
  unfold writeData
  dsimp only
  split_ifs
  · exact sameInputs_setChip_update hne (sameInputs_of_registers rfl rfl rfl)
  · unfold Chip.initWord
    split <;> exact sameInputs_of_registers rfl rfl rfl

/-! ## Steps -/

/-- Operations that neither start an initialisation, nor change trigger modes, nor read a port,
which could be a poll, nor replace the pair. -/
def Operation.isService : Operation → Bool
  | .setIrq _ _ => true
  | .acknowledge => true
  | .takeRaise => true
  | .takeClear => true
  | .writePort port value =>
    match Register.ofPort? port with
    | some (.command _) =>
      match Command.ofByte value with
      | .initialise _ => false
      | _ => true
    | some (.trigger _) => false
    | _ => true
  | _ => false

theorem sameInputs_writePort (hne : line ≠ 2) (c : Controller) {port : UInt16} {value : UInt8}
    (hop : (Operation.writePort port value).isService = true) :
    SameInputs line c (c.writePort port value) := by
  unfold Operation.isService at hop
  unfold writePort
  cases hport : Register.ofPort? port with
  | none => exact sameInputs_self line c
  | some register =>
    cases register with
    | command role =>
      apply sameInputs_execute hne
      intro fourWords hvalue
      simp [hport, hvalue] at hop
    | data role => exact sameInputs_writeData hne c role value
    | trigger role => simp [hport] at hop

def Operation.drives? (line : Nat) : Operation → Option Bool
  | .setIrq k level => if k = line then some level else none
  | _ => none

/-- One for a rise of the line: it is driven high and was driven low last. -/
def risesAt (line : Nat) (c : Controller) (op : Operation) : Nat :=
  if op = .setIrq line true ∧ c.level line = false then 1 else 0

/-- One for a rise that finds the request of the line clear. -/
def latchesAt (line : Nat) (c : Controller) (op : Operation) : Nat :=
  if op = .setIrq line true ∧ c.level line = false ∧ c.requested line = false then 1 else 0

/-- One for an acknowledge that takes the line into service. -/
def deliversAt (line : Nat) (c : Controller) (op : Operation) : Nat :=
  if op = .acknowledge ∧ c.acknowledged? = some line then 1 else 0

theorem latchesAt_le_risesAt (line : Nat) (c : Controller) (op : Operation) :
    latchesAt line c op ≤ risesAt line c op := by
  unfold latchesAt risesAt
  split_ifs with hlatch hrise
  · exact le_rfl
  · exact absurd ⟨hlatch.1, hlatch.2.1⟩ hrise
  · exact Nat.zero_le 1
  · exact le_rfl

/-- The step of the balance: what an operation does to an edge-triggered line. -/
structure Balanced (line : Nat) (c : Controller) (op : Operation) : Prop where
  requests : (c.requested line).toNat + latchesAt line c op =
    deliversAt line c op + ((c.step op).requested line).toNat
  level : (c.step op).level line = (op.drives? line).getD (c.level line)
  edge : (c.step op).isLevelTriggered line = false

theorem SameInputs.balanced {op : Operation} (h : SameInputs line c (c.step op))
    (hedge : c.isLevelTriggered line = false) (hdrives : op.drives? line = none)
    (hdelivers : deliversAt line c op = 0) : Balanced line c op := by
  have hlatches : latchesAt line c op = 0 := by
    unfold latchesAt
    split_ifs with hrise
    · rw [hrise.1] at hdrives
      simp [Operation.drives?] at hdrives
    · rfl
  constructor
  · rw [hlatches, hdelivers, h.requested, Nat.add_zero, Nat.zero_add]
  · rw [hdrives, h.level]
    rfl
  · exact h.isLevelTriggered.trans hedge

theorem balanced_setIrq (hlt : line < 16) (hne : line ≠ 2)
    (hedge : c.isLevelTriggered line = false) (k : Nat) (high : Bool) :
    Balanced line c (.setIrq k high) := by
  by_cases hk : k = line
  · subst hk
    have hup := sameInputs_update hne (c.setChip (.ofLine k)
      ((c.chip (.ofLine k)).setLine (Fin.ofNat 8 k) high))
    have hstep := c.setIrq_eq hlt high
    constructor
    · have hrequest := Chip.contains_requests_setLine_self hedge high
      have hafter : (c.step (.setIrq k high)).requested k =
          (c.requested k || (high && !c.level k)) := by
        change (c.setIrq k high).requested k = _
        rw [hstep, hup.requested, requested, chip_setChip, if_pos rfl, hrequest, requested, level]
      rw [hafter]
      unfold latchesAt deliversAt
      cases high <;> cases c.level k <;> cases c.requested k <;> simp
    · change (c.setIrq k high).level k = _
      rw [hstep, hup.level, level, chip_setChip, if_pos rfl, Chip.contains_levels_setLine,
        if_pos rfl]
      simp [Operation.drives?]
    · change (c.setIrq k high).isLevelTriggered k = _
      rw [hstep, hup.isLevelTriggered, isLevelTriggered, chip_setChip, if_pos rfl,
        Chip.levelTriggered_setLine]
      exact hedge
  · have hsame : SameInputs line c (c.setIrq k high) := by
      by_cases hk16 : k < 16
      · rw [setIrq_eq c hk16]
        apply sameInputs_setChip_update hne
        have hother : Role.ofLine k = .ofLine line → (Fin.ofNat 8 line : Line) ≠ Fin.ofNat 8 k := by
          intro hrole hfin
          have hnumber := (Role.line_eq_iff hk16).mpr ⟨rfl, rfl⟩
          exact hk (hnumber.symm.trans ((Role.line_eq_iff hlt).mpr ⟨hrole, hfin.symm⟩))
        apply sameInputs_setChip
        · intro hrole
          rw [Chip.contains_requests_setLine_of_ne _ _ (hother hrole), hrole, requested]
        · intro hrole
          rw [Chip.contains_levels_setLine, if_neg (hother hrole), hrole, level]
        · intro hrole
          rw [Chip.levelTriggered_setLine, hrole, isLevelTriggered]
      · have hnone : c.setIrq k high = c := by
          unfold setIrq
          rw [if_neg (by omega), if_neg hk16]
        rw [hnone]
        exact sameInputs_self line c
    exact hsame.balanced hedge (by simp [Operation.drives?, hk]) (by simp [deliversAt])

theorem sameInputs_setChip_acknowledge (hlt : line < 16) (c : Controller) (role : Role) {l : Line}
    (h : role.line l ≠ line) :
    SameInputs line c (c.setChip role ((c.chip role).acknowledge l)) := by
  have hother : role = .ofLine line → (Fin.ofNat 8 line : Line) ≠ l :=
    fun hrole hfin => h ((Role.line_eq_iff hlt).mpr ⟨hrole, hfin.symm⟩)
  apply sameInputs_setChip
  · intro hrole
    rw [Chip.contains_requests_acknowledge_of_ne _ (hother hrole), hrole, requested]
  · intro hrole
    rw [Chip.levels_acknowledge, hrole, level]
  · intro hrole
    rw [Chip.levelTriggered_acknowledge, hrole, isLevelTriggered]

/-- The acknowledge takes the line, after a change that does not concern it. -/
theorem balanced_of_taken (hlt : line < 16) (hne : line ≠ 2)
    (hedge : c.isLevelTriggered line = false)
    (hsame : SameInputs line c d) {role : Role} {l : Line} (hline : role.line l = line)
    (hpending : (c.chip role).pending? = some l) (htaken : c.acknowledged? = some (role.line l))
    (hstep : c.acknowledge.2 = (d.setChip role ((d.chip role).acknowledge l)).update) :
    Balanced line c .acknowledge := by
  rw [hline] at htaken
  obtain ⟨rfl, rfl⟩ := (Role.line_eq_iff hlt).mp hline
  have hup := sameInputs_update hne
    (d.setChip (.ofLine line) ((d.chip (.ofLine line)).acknowledge (Fin.ofNat 8 line)))
  have hedge' : (d.chip (.ofLine line)).levelTriggered.contains (Fin.ofNat 8 line) = false :=
    hsame.isLevelTriggered.trans hedge
  have hbefore : c.requested line = true := Chip.requested_of_pending? hpending
  constructor
  · have hafter : (c.step .acknowledge).requested line = false := by
      change c.acknowledge.2.requested line = false
      rw [hstep, hup.requested, requested, chip_setChip, if_pos rfl, Chip.requests_acknowledge,
        if_neg (Bool.eq_false_iff.mp hedge')]
      simp
    rw [hbefore, hafter]
    simp [latchesAt, deliversAt, htaken]
  · change c.acknowledge.2.level line = c.level line
    rw [hstep, hup.level, level, chip_setChip, if_pos rfl, Chip.levels_acknowledge]
    exact hsame.level
  · change c.acknowledge.2.isLevelTriggered line = false
    rw [hstep, hup.isLevelTriggered, isLevelTriggered, chip_setChip, if_pos rfl,
      Chip.levelTriggered_acknowledge]
    exact hedge'

theorem balanced_of_untaken (hedge : c.isLevelTriggered line = false)
    (hsame : SameInputs line c c.acknowledge.2) (huntaken : c.acknowledged? ≠ some line) :
    Balanced line c .acknowledge :=
  hsame.balanced hedge rfl (if_neg fun h => huntaken h.2)

theorem balanced_acknowledge (hlt : line < 16) (hne : line ≠ 2)
    (hedge : c.isLevelTriggered line = false) : Balanced line c .acknowledge := by
  have hcascade : SameInputs line c (c.setChip .master (c.master.acknowledge cascadeLine)) :=
    sameInputs_setChip_acknowledge hlt c .master hne.symm
  cases hl : c.master.pending? with
  | none =>
    apply balanced_of_untaken hedge
    · rw [acknowledge_of_none hl]
      exact sameInputs_update hne c
    · simp [acknowledged?, hl]
  | some l =>
    by_cases hlc : l = cascadeLine
    · subst hlc
      cases hs : c.slave.pending? with
      | none =>
        apply balanced_of_untaken hedge
        · rw [acknowledge_of_spurious hl hs]
          exact hcascade.trans (sameInputs_update hne _)
        · simp [acknowledged?, hl, hs]
      | some s =>
        have htaken : c.acknowledged? = some (Role.slave.line s) := by simp [acknowledged?, hl, hs]
        have hstep := acknowledge_of_slave hl hs
        by_cases hline : Role.slave.line s = line
        · exact balanced_of_taken hlt hne hedge hcascade hline hs htaken hstep
        · apply balanced_of_untaken hedge
          · rw [hstep]
            have hslave := sameInputs_setChip_acknowledge hlt
              (c.setChip .master (c.master.acknowledge cascadeLine)) .slave hline
            exact (hcascade.trans hslave).trans (sameInputs_update hne _)
          · rw [htaken]
            exact fun h => hline (Option.some.inj h)
    · have htaken : c.acknowledged? = some (Role.master.line l) := by simp [acknowledged?, hl, hlc]
      have hstep := acknowledge_of_master hl hlc
      by_cases hline : Role.master.line l = line
      · exact balanced_of_taken hlt hne hedge (sameInputs_self line c) hline hl htaken hstep
      · apply balanced_of_untaken hedge
        · rw [hstep]
          have hmaster := sameInputs_setChip_acknowledge hlt c .master hline
          exact hmaster.trans (sameInputs_update hne _)
        · rw [htaken]
          exact fun h => hline (Option.some.inj h)

theorem balanced_step (hlt : line < 16) (hne : line ≠ 2) (hedge : c.isLevelTriggered line = false)
    {op : Operation} (hop : op.isService = true) : Balanced line c op := by
  cases op with
  | setIrq k high => exact balanced_setIrq hlt hne hedge k high
  | acknowledge => exact balanced_acknowledge hlt hne hedge
  | writePort port value =>
    exact (sameInputs_writePort hne c hop).balanced hedge rfl (by simp [deliversAt])
  | takeRaise =>
    have hsame : SameInputs line c (c.step .takeRaise) := ⟨rfl, rfl, rfl⟩
    exact hsame.balanced hedge rfl (by simp [deliversAt])
  | takeClear =>
    have hsame : SameInputs line c (c.step .takeClear) := ⟨rfl, rfl, rfl⟩
    exact hsame.balanced hedge rfl (by simp [deliversAt])
  | _ => cases hop

/-! ## Runs -/

/-- What the operations of a run count for, each in the state that it meets. -/
def tally (count : Controller → Operation → Nat) : Controller → List Operation → Nat
  | _, [] => 0
  | c, op :: ops => count c op + tally count (c.step op) ops

theorem tally_mono {count count' : Controller → Operation → Nat}
    (h : ∀ c op, count c op ≤ count' c op) (c : Controller) (ops : List Operation) :
    tally count c ops ≤ tally count' c ops := by
  induction ops generalizing c with
  | nil => exact le_rfl
  | cons op ops ih => exact Nat.add_le_add (h c op) (ih _)

def lastLevel (line : Nat) (start : Bool) (ops : List Operation) : Bool :=
  ((ops.filterMap (·.drives? line)).getLast?).getD start

theorem lastLevel_cons (line : Nat) (start : Bool) (op : Operation) (ops : List Operation) :
    lastLevel line start (op :: ops) =
      lastLevel line ((op.drives? line).getD start) ops := by
  unfold lastLevel
  cases hop : op.drives? line with
  | none => rw [List.filterMap_cons_none hop, Option.getD_none]
  | some level =>
    rw [List.filterMap_cons_some hop, List.getLast?_cons, Option.getD_some, Option.getD_some]

/-- Over every run that neither initialises, polls nor changes trigger modes, an edge-triggered line
other than the cascade line is delivered as often as it was requested at the start or latched a
rise, less the request that is left. So it is never delivered more often than it rose, a request at
the start counted as well; and a rise is what follows a low level driven last. -/
theorem edges_conserved {line : Nat} (hlt : line < 16) (hne : line ≠ 2) {c : Controller}
    (hedge : c.isLevelTriggered line = false) {ops : List Operation}
    (hops : ∀ op ∈ ops, op.isService = true) :
    (c.requested line).toNat + tally (latchesAt line) c ops =
        tally (deliversAt line) c ops + ((c.run ops).requested line).toNat ∧
      tally (deliversAt line) c ops ≤ (c.requested line).toNat + tally (risesAt line) c ops ∧
      (c.run ops).level line = lastLevel line (c.level line) ops := by
  have hbalance : (c.requested line).toNat + tally (latchesAt line) c ops =
        tally (deliversAt line) c ops + ((c.run ops).requested line).toNat ∧
      (c.run ops).level line = lastLevel line (c.level line) ops := by
    induction ops generalizing c with
    | nil =>
      constructor
      · exact Nat.add_comm _ _
      · rfl
    | cons op ops ih =>
      have hstep := balanced_step hlt hne hedge (hops op List.mem_cons_self)
      obtain ⟨hcount, hlevel⟩ := ih hstep.edge fun o ho => hops o (List.mem_cons_of_mem _ ho)
      have hrequests := hstep.requests
      constructor
      · simp only [tally, run_cons]
        omega
      · rw [run_cons, hlevel, hstep.level, lastLevel_cons]
  have hmono := tally_mono (latchesAt_le_risesAt line) c ops
  refine ⟨hbalance.1, ?_, hbalance.2⟩
  omega

/-- Line twelve rises three times. The second rise finds its request still latched, and the third
one comes after the request was acknowledged and ended on both chips. -/
def mouseThrice : List Operation :=
  [.setIrq 12 true, .setIrq 12 false, .setIrq 12 true, .acknowledge,
    .writePort Register.slaveCommand 0x20, .writePort Register.masterCommand 0x20,
    .setIrq 12 false, .setIrq 12 true]

theorem mouse_delivered_once :
    let c := new.initLegacy 0x08 0x70
    (tally (risesAt 12) c mouseThrice = 3 ∧ tally (latchesAt 12) c mouseThrice = 2 ∧
        tally (deliversAt 12) c mouseThrice = 1 ∧ (c.run mouseThrice).requested 12 = true) ∧
      (c.requested 12).toNat + tally (latchesAt 12) c mouseThrice =
        tally (deliversAt 12) c mouseThrice + ((c.run mouseThrice).requested 12).toNat ∧
      tally (deliversAt 12) c mouseThrice ≤
        (c.requested 12).toNat + tally (risesAt 12) c mouseThrice ∧
      (c.run mouseThrice).level 12 = lastLevel 12 (c.level 12) mouseThrice := by
  refine ⟨by decide +kernel, ?_⟩
  exact edges_conserved (by decide) (by decide) (by decide +kernel) (by decide +kernel)

end Controller
end Mainboard
