import Mainboard.Proofs.Interrupt.Cascade
import Mainboard.Proofs.Interrupt.ServiceOrder

/-!
# Draining the pair

While something is pending, acknowledge it and end it on the chips that were asked. From a pair at
rest this takes every request that is not masked once, in the order of the priorities, where the
lines of the slave stand in the place of the cascade line. A round takes away one request and leaves
a pair at rest: if the slave has more requests the end of its interrupt pulses the cascade line
again.
-/
namespace Mainboard

namespace Controller

/-! ## The loop -/

/-- A round: acknowledge, then end the interrupt in service on the slave if the line was one of the
slave's, and on the master. -/
def serve (c : Controller) : Controller :=
  let d := c.acknowledge.2
  let d :=
    if c.acknowledged?.map Role.ofLine = some .slave then d.writePort Register.slaveCommand 0x20
    else d
  d.writePort Register.masterCommand 0x20

/-- Rounds while something is pending: the lines that were acknowledged, and the pair that is left.
There is no answer if something is still pending after the given number of rounds. -/
def drain : Nat → Controller → Option (List Nat × Controller)
  | 0, c => if c.pendingVector?.isSome then none else some ([], c)
  | rounds + 1, c =>
    if c.pendingVector?.isSome then
      (drain rounds c.serve).map fun (lines, d) => (c.acknowledged?.toList ++ lines, d)
    else some ([], c)

theorem isSome_pendingVector? (c : Controller) :
    c.pendingVector?.isSome = c.master.pending?.isSome := by
  unfold pendingVector?
  cases c.master.pending? with
  | none => rfl
  | some l =>
    dsimp only
    split_ifs <;> rfl

theorem drain_of_idle {c : Controller} (h : c.master.pending? = none) (rounds : Nat) :
    drain rounds c = some ([], c) := by
  have hidle : ¬c.pendingVector?.isSome = true := by simp [isSome_pendingVector?, h]
  cases rounds <;> simp [drain, hidle]

theorem drain_succ {c : Controller} {line : Nat} (h : c.master.pending?.isSome = true)
    (hline : c.acknowledged? = some line) (rounds : Nat) : drain (rounds + 1) c =
      (drain rounds c.serve).map fun (lines, d) => (line :: lines, d) := by
  have hpending : c.pendingVector?.isSome = true := by simp [isSome_pendingVector?, h]
  simp [drain, hpending, hline]

/-- An end of interrupt that names no line ends the one in service with the highest priority. -/
theorem writePort_end {c : Controller} {port : UInt16} {value : UInt8} {role : Role} {rotate : Bool}
    {l : Line} (hport : Register.ofPort? port = some (.command role))
    (hcommand : Command.ofByte value = .endHighest rotate) (h : (c.chip role).served? = some l) :
    c.writePort port value = (c.setChip role ((c.chip role).endLine l rotate)).update := by
  unfold writePort
  rw [hport, hcommand]
  unfold execute
  dsimp only
  rw [h]

theorem writePort_endHighest {c : Controller} {port : UInt16} {role : Role} {l : Line}
    (hport : Register.ofPort? port = some (.command role)) (h : (c.chip role).served? = some l) :
    c.writePort port 0x20 = (c.setChip role ((c.chip role).endLine l false)).update :=
  writePort_end hport (by decide) h

/-- If the master has the request of the cascade line whenever the slave offers one, an update
leaves it alone. -/
theorem master_update_of_relayed {c : Controller} (hedge : c.master.levelTriggered = .empty)
    (hlow : c.master.levels.contains cascadeLine = false)
    (hrelayed : c.slave.pending?.isSome = true → c.master.requests.contains cascadeLine = true) :
    c.update.master = c.master := by
  rw [master_update]
  split_ifs with hslave
  · rw [Chip.pulse_of_low (by simp [hedge]) hlow, LineSet.insert_of_contains (hrelayed hslave)]
  · rfl

theorem end_master {c : Controller} {chip : Chip} {l : Line} (hc : c.master = chip.serving l)
    (hquiet : chip.Quiet) (hlow : chip.levels.contains cascadeLine = false)
    (hrelayed : c.slave.pending?.isSome = true → chip.requests.contains cascadeLine = true) :
    (c.writePort Register.masterCommand 0x20).master = chip ∧
      (c.writePort Register.masterCommand 0x20).slave = c.slave := by
  have hserved : (c.chip .master).served? = some l := by
    change c.master.served? = some l
    rw [hc, Chip.served?_serving]
  have hend : (c.chip .master).endLine l false = chip := by
    change c.master.endLine l false = chip
    rw [hc, hquiet.endLine_serving]
  have hport : Register.ofPort? Register.masterCommand = some (.command .master) := rfl
  rw [writePort_endHighest hport hserved, hend]
  constructor
  · exact master_update_of_relayed hquiet.levelTriggered hlow hrelayed
  · exact slave_update _

/-- Ending the only interrupt in service on the slave, while the master serves the cascade line. If
the slave has more requests to offer, it pulses the cascade line again. -/
theorem end_slave {c : Controller} {chip m : Chip} {l : Line} (hc : c.slave = chip.serving l)
    (hm : c.master = (m.forget cascadeLine).serving cascadeLine) (hchip : chip.Quiet)
    (hquiet : m.Quiet) (hlow : m.levels.contains cascadeLine = false)
    (hcascade : m.requests.contains cascadeLine = true) :
    (c.writePort Register.slaveCommand 0x20).slave = chip ∧
      (c.writePort Register.slaveCommand 0x20).master =
        (if chip.waiting = .empty then m.forget cascadeLine else m).serving cascadeLine := by
  have hserved : (c.chip .slave).served? = some l := by
    change c.slave.served? = some l
    rw [hc, Chip.served?_serving]
  have hend : (c.chip .slave).endLine l false = chip := by
    change c.slave.endLine l false = chip
    rw [hc, hchip.endLine_serving]
  have hport : Register.ofPort? Register.slaveCommand = some (.command .slave) := rfl
  rw [writePort_endHighest hport hserved, hend]
  constructor
  · exact slave_update _
  · rw [master_update]
    change (if chip.pending?.isSome = true then c.master.pulse cascadeLine else c.master) = _
    by_cases hmore : chip.waiting = .empty
    · rw [if_neg (mt hchip.pending?_isSome_iff.mp (not_not_intro hmore)), if_pos hmore, hm]
    · have hpulse : ((m.forget cascadeLine).serving cascadeLine).pulse cascadeLine =
          m.serving cascadeLine := by
        have hedge : m.levelTriggered.contains cascadeLine = false := by
          simp [hquiet.levelTriggered]
        rw [Chip.pulse_of_low (c := (m.forget cascadeLine).serving cascadeLine) hedge hlow]
        unfold Chip.serving Chip.forget
        dsimp only
        rw [LineSet.insert_erase hcascade]
      rw [if_pos (hchip.pending?_isSome_iff.mpr hmore), if_neg hmore, hm, hpulse]

/-! ## Pairs at rest -/

/-- Nothing is in service, all lines are edge triggered with the cascade line low, no mode changes
the order, and the master has a request on the cascade line exactly if the slave has one to offer.
-/
structure AtRest (c : Controller) : Prop where
  master : c.master.Quiet
  slave : c.slave.Quiet
  low : c.master.levels.contains cascadeLine = false
  cascade : c.master.requests.contains cascadeLine = true ↔ c.slave.waiting ≠ .empty

namespace AtRest

variable {c : Controller} {l : Line}

theorem serve_master (h : c.AtRest) (hl : c.master.pending? = some l) (hne : l ≠ cascadeLine) :
    c.serve.master = c.master.forget l ∧ c.serve.slave = c.slave := by
  have hrelayed : c.slave.pending?.isSome = true →
      (c.master.forget l).requests.contains cascadeLine = true := by
    intro hslave
    have hcascade := h.cascade.mpr (h.slave.pending?_isSome_iff.mp hslave)
    simp [Chip.forget, hcascade, hne.symm]
  have hrole : ¬c.acknowledged?.map Role.ofLine = some .slave := by
    have hofLine : Role.ofLine l.val = .master := if_pos l.isLt
    simp [acknowledged?, hl, hne, Role.line, hofLine]
  have hack : c.acknowledge.2.master = (c.master.forget l).serving l ∧
      c.acknowledge.2.slave = c.slave := by
    rw [acknowledge_of_master hl hne, h.master.acknowledge]
    constructor
    · exact master_update_of_relayed h.master.levelTriggered h.low hrelayed
    · exact slave_update _
  have hend := end_master hack.1 (h.master.forget l) h.low (hack.2.symm ▸ hrelayed)
  rw [hack.2] at hend
  unfold serve
  dsimp only
  rwa [if_neg hrole]

/-- A round that takes a line of the slave. The request of the cascade line stays if the slave has
more requests to offer. -/
theorem serve_slave (h : c.AtRest) (hm : c.master.pending? = some cascadeLine)
    (hl : c.slave.pending? = some l) :
    c.serve.master = (if (c.slave.forget l).waiting = .empty then c.master.forget cascadeLine
      else c.master) ∧ c.serve.slave = c.slave.forget l := by
  have hcascade : c.master.requests.contains cascadeLine = true := Chip.requested_of_pending? hm
  have hrole : c.acknowledged?.map Role.ofLine = some .slave := by
    have hofLine : Role.ofLine (8 + l.val) = .slave := if_neg (by omega)
    simp [acknowledged?, hm, hl, Role.line, hofLine]
  -- while its line is in service the slave offers nothing
  have hack : c.acknowledge.2.master = (c.master.forget cascadeLine).serving cascadeLine ∧
      c.acknowledge.2.slave = (c.slave.forget l).serving l := by
    rw [acknowledge_of_slave hm hl, master_update, slave_update, ← h.master.acknowledge,
      ← h.slave.acknowledge]
    simp [h.slave.pending?_acknowledge hl]
  have hslave := end_slave hack.2 hack.1 (h.slave.forget l) h.master h.low hcascade
  unfold serve
  dsimp only
  rw [if_pos hrole]
  generalize c.acknowledge.2.writePort Register.slaveCommand 0x20 = d at hslave
  have hmaster := end_master hslave.2
  rw [hslave.1] at hmaster
  apply hmaster
  · split_ifs
    · exact h.master.forget _
    · exact h.master
  · split_ifs <;> exact h.low
  · intro hmore
    rw [if_neg ((h.slave.forget l).pending?_isSome_iff.mp hmore)]
    exact hcascade

/-! ## The order of the pair -/

end AtRest

def behind (c : Controller) (l : Line) : List Nat :=
  if l = cascadeLine then (c.slave.waiting.inOrder c.slave.rotation).map Role.slave.line
  else [Role.master.line l]

def offered (c : Controller) : List Nat :=
  (c.master.waiting.inOrder c.master.rotation).flatMap c.behind

/-- What a round leaves: the masks and orders, the requests that are masked, and behind a masked
cascade line everything. -/
structure Reduced (c d : Controller) : Prop where
  master : d.master = { c.master with requests := d.master.requests }
  slave : d.slave = { c.slave with requests := d.slave.requests }
  heldMaster : d.master.held = c.master.held
  heldSlave : d.slave.held = c.slave.held
  maskedSlave : c.master.mask.contains cascadeLine = true → d.slave = c.slave

theorem reduced_self (c : Controller) : Reduced c c := ⟨rfl, rfl, rfl, rfl, fun _ => rfl⟩

theorem Reduced.trans {c d e : Controller} (h : Reduced c d) (h' : Reduced d e) : Reduced c e where
  master := by
    rw [h'.master, h.master]
  slave := by
    rw [h'.slave, h.slave]
  heldMaster := h'.heldMaster.trans h.heldMaster
  heldSlave := h'.heldSlave.trans h.heldSlave
  maskedSlave := by
    intro hmask
    have hmask' : d.master.mask.contains cascadeLine = true := by
      rw [h.master]
      exact hmask
    exact (h'.maskedSlave hmask').trans (h.maskedSlave hmask)

/-- A round takes the first line on offer. -/
structure Takes (c : Controller) (line : Nat) (lines : List Nat) : Prop where
  pending : c.master.pending?.isSome = true
  acknowledged : c.acknowledged? = some line
  atRest : c.serve.AtRest
  offered : c.serve.offered = lines
  reduced : Reduced c c.serve

theorem AtRest.takes_master {c : Controller} (h : c.AtRest) {l : Line} {rest : List Line}
    (hl : c.master.waiting.inOrder c.master.rotation = l :: rest) (hne : l ≠ cascadeLine) :
    c.Takes (Role.master.line l) (rest.flatMap c.behind) := by
  have hpending : c.master.pending? = some l := by rw [h.master.pending?, hl, List.head?_cons]
  have hwaiting := (Chip.pending?_eq_some_iff.mp hpending).1
  obtain ⟨hmaster, hslave⟩ := h.serve_master hpending hne
  constructor
  · exact Option.isSome_of_eq_some hpending
  · simp [acknowledged?, hpending, hne]
  · constructor
    · rw [hmaster]
      exact h.master.forget l
    · rw [hslave]
      exact h.slave
    · rw [hmaster]
      exact h.low
    · rw [hmaster, hslave, ← h.cascade]
      simp [Chip.forget, hne.symm]
  · have hrest := LineSet.inOrder_erase_of_cons hl
    rw [← hrest]
    unfold Controller.offered Controller.behind
    rw [hmaster, hslave, Chip.waiting_forget]
    rfl
  · constructor
    · rw [hmaster]
      rfl
    · rw [hslave]
    · rw [hmaster, Chip.held_forget hwaiting]
    · rw [hslave]
    · exact fun _ => hslave

namespace AtRest

variable {c : Controller} {l : Line} {more rest : List Line}

/-! The next lemmas are about a round that takes the first of the slave's lines, with `more` lines
behind it. -/

theorem serve_slave_of_lines (h : c.AtRest) (hm : c.master.pending? = some cascadeLine)
    (hl : c.slave.waiting.inOrder c.slave.rotation = l :: more) :
    c.serve.master = (if more = [] then c.master.forget cascadeLine else c.master) ∧
      c.serve.slave = c.slave.forget l := by
  have hpending : c.slave.pending? = some l := by rw [h.slave.pending?, hl, List.head?_cons]
  have hserve := h.serve_slave hm hpending
  simp only [Chip.waiting_forget_eq_empty_iff hl] at hserve
  exact hserve

theorem atRest_serve_slave (h : c.AtRest) (hm : c.master.pending? = some cascadeLine)
    (hl : c.slave.waiting.inOrder c.slave.rotation = l :: more) : c.serve.AtRest := by
  obtain ⟨hmaster, hslave⟩ := h.serve_slave_of_lines hm hl
  constructor
  · rw [hmaster]
    split_ifs
    · exact h.master.forget _
    · exact h.master
  · rw [hslave]
    exact h.slave.forget l
  · rw [hmaster]
    split_ifs <;> exact h.low
  · rw [hmaster, hslave, ne_eq, Chip.waiting_forget_eq_empty_iff hl]
    split_ifs with hlast
    · simp [Chip.forget, hlast]
    · simp [Chip.requested_of_pending? hm, hlast]

/-- Behind the rest of the master's lines stands what stood there before. -/
theorem offered_serve_slave (h : c.AtRest)
    (hm : c.master.waiting.inOrder c.master.rotation = cascadeLine :: rest)
    (hl : c.slave.waiting.inOrder c.slave.rotation = l :: more) :
    c.serve.offered = more.map Role.slave.line ++ rest.flatMap c.behind := by
  have hpending : c.master.pending? = some cascadeLine := by
    rw [h.master.pending?, hm, List.head?_cons]
  obtain ⟨hmaster, hslave⟩ := h.serve_slave_of_lines hpending hl
  have hbehind : ∀ k ∈ rest, c.serve.behind k = c.behind k := by
    intro k hk
    have hnodup := LineSet.nodup_inOrder c.master.waiting c.master.rotation
    rw [hm, List.nodup_cons] at hnodup
    have hne : k ≠ cascadeLine := fun heq => hnodup.1 (heq ▸ hk)
    unfold behind
    rw [if_neg hne, if_neg hne]
  rw [← List.flatMap_congr hbehind]
  unfold Controller.offered
  rw [hmaster]
  split_ifs with hlast
  · have hrest := LineSet.inOrder_erase_of_cons hm
    rw [hlast, List.map_nil, List.nil_append, ← hrest, Chip.waiting_forget]
    rfl
  · have hcascadeLines : c.serve.behind cascadeLine = more.map Role.slave.line := by
      unfold behind
      rw [if_pos rfl, hslave, Chip.waiting_forget, ← LineSet.inOrder_erase_of_cons hl]
      rfl
    rw [hm, List.flatMap_cons, hcascadeLines]

theorem reduced_serve_slave (h : c.AtRest) (hm : c.master.pending? = some cascadeLine)
    (hl : c.slave.waiting.inOrder c.slave.rotation = l :: more) : Reduced c c.serve := by
  obtain ⟨hmaster, hslave⟩ := h.serve_slave_of_lines hm hl
  have hpending : c.slave.pending? = some l := by rw [h.slave.pending?, hl, List.head?_cons]
  have hcascade := (Chip.pending?_eq_some_iff.mp hm).1
  have hwaiting := (Chip.pending?_eq_some_iff.mp hpending).1
  constructor
  · rw [hmaster]
    split_ifs <;> rfl
  · rw [hslave]
    rfl
  · rw [hmaster]
    split_ifs
    · exact Chip.held_forget hcascade
    · rfl
  · rw [hslave, Chip.held_forget hwaiting]
  · intro hmask
    simp [hmask] at hcascade

theorem takes_slave (h : c.AtRest)
    (hm : c.master.waiting.inOrder c.master.rotation = cascadeLine :: rest)
    (hl : c.slave.waiting.inOrder c.slave.rotation = l :: more) :
    c.Takes (Role.slave.line l) (more.map Role.slave.line ++ rest.flatMap c.behind) := by
  have hpending : c.master.pending? = some cascadeLine := by
    rw [h.master.pending?, hm, List.head?_cons]
  have hslave : c.slave.pending? = some l := by rw [h.slave.pending?, hl, List.head?_cons]
  constructor
  · exact Option.isSome_of_eq_some hpending
  · simp [acknowledged?, hpending, hslave]
  · exact h.atRest_serve_slave hpending hl
  · exact h.offered_serve_slave hm hl
  · exact h.reduced_serve_slave hpending hl

end AtRest

theorem AtRest.takes {c : Controller} (h : c.AtRest) {line : Nat} {lines : List Nat}
    (ho : c.offered = line :: lines) : c.Takes line lines := by
  unfold Controller.offered at ho
  cases hm : c.master.waiting.inOrder c.master.rotation with
  | nil =>
    rw [hm] at ho
    cases ho
  | cons l rest =>
    rw [hm, List.flatMap_cons] at ho
    by_cases hne : l = cascadeLine
    · subst hne
      have hmem : c.master.waiting.contains cascadeLine = true := by
        rw [← LineSet.mem_inOrder, hm]
        exact List.mem_cons_self
      rw [Chip.contains_waiting, Bool.and_eq_true] at hmem
      cases hl : c.slave.waiting.inOrder c.slave.rotation with
      | nil => exact absurd (LineSet.inOrder_eq_nil_iff.mp hl) (h.cascade.mp hmem.1)
      | cons s more =>
        have hbehind : c.behind cascadeLine = Role.slave.line s :: more.map Role.slave.line := by
          rw [behind, if_pos rfl, hl, List.map_cons]
        rw [hbehind, List.cons_append] at ho
        obtain ⟨rfl, rfl⟩ := List.cons.inj ho
        exact h.takes_slave hm hl
    · have hbehind : c.behind l = [Role.master.line l] := if_neg hne
      rw [hbehind, List.singleton_append] at ho
      obtain ⟨rfl, rfl⟩ := List.cons.inj ho
      exact h.takes_master hm hne

/-- When no line is on offer the master has nothing waiting, and neither has the slave unless it is
behind a masked cascade line. -/
theorem AtRest.waiting_of_idle {c : Controller} (h : c.AtRest) (ho : c.offered = []) :
    c.master.waiting = .empty ∧
      (c.master.mask.contains cascadeLine = false → c.slave.waiting = .empty) := by
  have hslave : c.master.waiting.contains cascadeLine = true → c.slave.waiting ≠ .empty := by
    intro hmem
    rw [Chip.contains_waiting, Bool.and_eq_true] at hmem
    exact h.cascade.mp hmem.1
  have hmaster : c.master.waiting = .empty := by
    rw [LineSet.eq_empty_iff]
    intro l
    rw [Bool.eq_false_iff]
    intro hl
    have hbehind := List.flatMap_eq_nil_iff.mp ho l (LineSet.mem_inOrder.mpr hl)
    unfold behind at hbehind
    split_ifs at hbehind with hne
    rw [List.map_eq_nil_iff, LineSet.inOrder_eq_nil_iff] at hbehind
    exact hslave (hne ▸ hl) hbehind
  refine ⟨hmaster, fun hmask => ?_⟩
  by_contra hwaiting
  have hmem : c.master.waiting.contains cascadeLine = true := by
    rw [Chip.contains_waiting, h.cascade.mpr hwaiting, hmask]
    rfl
  simp [hmaster] at hmem

/-- The line is masked, by its own chip or, if it is one of the slave's, with the cascade line. -/
def masked (c : Controller) (line : Nat) : Bool :=
  (c.chip (.ofLine line)).mask.contains (Fin.ofNat 8 line) ||
    (decide (8 ≤ line) && c.master.mask.contains cascadeLine)

/-- The place of a line in the order of the pair. The lines of the slave stand where the cascade
line does. -/
def rank (c : Controller) (line : Nat) : Nat :=
  match Role.ofLine line with
  | .master => 8 * (Fin.ofNat 8 line - c.master.rotation).val
  | .slave =>
    8 * (cascadeLine - c.master.rotation).val + (Fin.ofNat 8 line - c.slave.rotation).val

@[simp] theorem ofLine_line (role : Role) (l : Line) : Role.ofLine (role.line l) = role := by
  cases role
  · exact if_pos l.isLt
  · exact if_neg (Nat.not_lt.mpr (Nat.le_add_right 8 l.val))

@[simp] theorem ofNat_line (role : Role) (l : Line) : Fin.ofNat 8 (role.line l) = l := by
  apply Fin.ext
  cases role
  · exact Nat.mod_eq_of_lt l.isLt
  · exact (Nat.add_mod_left 8 l.val).trans (Nat.mod_eq_of_lt l.isLt)

theorem line_lt (role : Role) (l : Line) : role.line l < 16 := by
  cases role <;> simp [Role.line] <;> omega

theorem exists_line {line : Nat} (h : line < 16) : ∃ role l, line = Role.line role l :=
  ⟨.ofLine line, Fin.ofNat 8 line, ((Role.line_eq_iff h).mpr ⟨rfl, rfl⟩).symm⟩

theorem requested_line (c : Controller) (role : Role) (l : Line) :
    c.requested (role.line l) = (c.chip role).requests.contains l := by
  rw [requested, ofLine_line, ofNat_line]

theorem masked_master (c : Controller) (l : Line) :
    c.masked (Role.master.line l) = c.master.mask.contains l := by
  have hlt : ¬8 ≤ Role.master.line l := Nat.not_le.mpr l.isLt
  rw [masked, ofLine_line, ofNat_line, decide_eq_false hlt, Bool.false_and, Bool.or_false]
  rfl

theorem masked_slave (c : Controller) (l : Line) :
    c.masked (Role.slave.line l) =
      (c.slave.mask.contains l || c.master.mask.contains cascadeLine) := by
  have hle : 8 ≤ Role.slave.line l := Nat.le_add_right 8 l.val
  rw [masked, ofLine_line, ofNat_line, decide_eq_true hle, Bool.true_and]
  rfl

theorem mem_inOrder_waiting {chip : Chip} {first l : Line} :
    l ∈ chip.waiting.inOrder first ↔
      chip.requests.contains l = true ∧ chip.mask.contains l = false := by
  rw [LineSet.mem_inOrder, Chip.contains_waiting, Bool.and_eq_true, Bool.not_eq_true']

/-- On offer are the lines that are requested and not masked. -/
theorem AtRest.mem_offered {c : Controller} (h : c.AtRest) (line : Nat) :
    line ∈ c.offered ↔
      line < 16 ∧ line ≠ 2 ∧ c.requested line = true ∧ c.masked line = false := by
  unfold Controller.offered
  rw [List.mem_flatMap]
  constructor
  · rintro ⟨k, hk, hline⟩
    rw [mem_inOrder_waiting] at hk
    unfold behind at hline
    split_ifs at hline with hcascade
    · obtain ⟨l, hl, rfl⟩ := List.mem_map.mp hline
      rw [mem_inOrder_waiting] at hl
      refine ⟨line_lt _ _, ?_, ?_, ?_⟩
      · simp [Role.line]
        omega
      · rw [requested_line]
        exact hl.1
      · rw [masked_slave, hl.2, ← hcascade, hk.2]
        rfl
    · rw [List.mem_singleton] at hline
      subst hline
      refine ⟨line_lt _ _, fun h2 => hcascade (Fin.ext h2), ?_, ?_⟩
      · rw [requested_line]
        exact hk.1
      · rw [masked_master]
        exact hk.2
  · rintro ⟨hlt, hne, hrequested, hmasked⟩
    obtain ⟨role, l, rfl⟩ := exists_line hlt
    rw [requested_line] at hrequested
    cases role with
    | master =>
      rw [masked_master] at hmasked
      have hcascade : l ≠ cascadeLine := fun heq => hne (congrArg Fin.val heq)
      refine ⟨l, mem_inOrder_waiting.mpr ⟨hrequested, hmasked⟩, ?_⟩
      rw [behind, if_neg hcascade]
      exact List.mem_singleton_self _
    | slave =>
      rw [masked_slave, Bool.or_eq_false_iff] at hmasked
      have hl : ∀ first, l ∈ c.slave.waiting.inOrder first :=
        fun _ => mem_inOrder_waiting.mpr ⟨hrequested, hmasked.1⟩
      have hcascade := h.cascade.mpr (LineSet.ne_empty_iff.mpr ⟨l, LineSet.mem_inOrder.mp (hl 0)⟩)
      refine ⟨cascadeLine, mem_inOrder_waiting.mpr ⟨hcascade, hmasked.2⟩, ?_⟩
      rw [behind, if_pos rfl]
      exact List.mem_map_of_mem (hl _)

theorem rank_master (c : Controller) (l : Line) :
    c.rank (Role.master.line l) = 8 * (l - c.master.rotation).val := by
  rw [rank, ofLine_line, ofNat_line]

theorem rank_slave (c : Controller) (l : Line) : c.rank (Role.slave.line l) =
    8 * (cascadeLine - c.master.rotation).val + (l - c.slave.rotation).val := by
  rw [rank, ofLine_line, ofNat_line]

/-- Lines that stand in the place of a line of the master are ranked with it. -/
theorem rank_of_mem_behind {c : Controller} {l : Line} {line : Nat} (h : line ∈ c.behind l) :
    c.rank line / 8 = (l - c.master.rotation).val := by
  unfold behind at h
  split_ifs at h with hcascade
  · obtain ⟨k, -, rfl⟩ := List.mem_map.mp h
    have hk := (k - c.slave.rotation).isLt
    rw [rank_slave, ← hcascade]
    omega
  · rw [List.mem_singleton] at h
    rw [h, rank_master]
    omega

theorem pairwise_offered (c : Controller) :
    c.offered.Pairwise fun k l => c.rank k < c.rank l := by
  unfold offered
  rw [List.pairwise_flatMap]
  constructor
  · intro l _
    unfold behind
    split_ifs
    · rw [List.pairwise_map]
      apply (LineSet.pairwise_inOrder c.slave.waiting c.slave.rotation).imp
      intro a b hab
      rw [rank_slave, rank_slave]
      exact Nat.add_lt_add_left hab _
    · exact List.pairwise_singleton _ _
  · apply (LineSet.pairwise_inOrder c.master.waiting c.master.rotation).imp
    intro a b hab k hk l hl
    have hka := rank_of_mem_behind hk
    have hlb := rank_of_mem_behind hl
    have hlt : (a - c.master.rotation).val < (b - c.master.rotation).val := hab
    omega

/-! ## The whole drain -/

/-- As many rounds as there are lines on offer take them all. -/
theorem AtRest.drain_eq {c : Controller} (h : c.AtRest) :
    ∃ d : Controller, (∀ rounds, c.offered.length ≤ rounds → drain rounds c = some (c.offered, d)) ∧
      d.AtRest ∧ d.offered = [] ∧ Reduced c d := by
  generalize ho : c.offered = lines
  induction lines generalizing c with
  | nil =>
    have hnone : c.master.pending? = none := by
      rw [h.master.pending?, List.head?_eq_none_iff, LineSet.inOrder_eq_nil_iff]
      exact (h.waiting_of_idle ho).1
    exact ⟨c, fun rounds _ => drain_of_idle hnone rounds, h, ho, reduced_self c⟩
  | cons line lines ih =>
    have htakes := h.takes ho
    obtain ⟨d, hdrain, hrest, hidle, hreduced⟩ := ih htakes.atRest htakes.offered
    refine ⟨d, fun rounds hrounds => ?_, hrest, hidle, htakes.reduced.trans hreduced⟩
    cases rounds with
    | zero => cases hrounds
    | succ rounds =>
      rw [drain_succ htakes.pending htakes.acknowledged,
        hdrain rounds (Nat.le_of_succ_le_succ hrounds)]
      rfl

theorem Reduced.requested_iff {c d : Controller} (h : Reduced c d) (hrest : d.AtRest)
    (hidle : d.offered = []) {line : Nat} (hlt : line < 16) :
    d.requested line = true ↔ c.requested line = true ∧ c.masked line = true := by
  obtain ⟨hmaster, hslave⟩ := hrest.waiting_of_idle hidle
  obtain ⟨role, l, rfl⟩ := exists_line hlt
  rw [requested_line, requested_line]
  cases role with
  | master =>
    change d.master.requests.contains l = true ↔ c.master.requests.contains l = true ∧ _
    rw [masked_master, Chip.requests_eq_held hmaster, h.heldMaster, Chip.contains_held,
      Bool.and_eq_true]
  | slave =>
    change d.slave.requests.contains l = true ↔ c.slave.requests.contains l = true ∧ _
    rw [masked_slave]
    cases hmask : c.master.mask.contains cascadeLine with
    | true =>
      rw [h.maskedSlave hmask]
      simp
    | false =>
      have hmask' : d.master.mask.contains cascadeLine = false := by
        rw [h.master]
        exact hmask
      rw [Chip.requests_eq_held (hslave hmask'), h.heldSlave, Chip.contains_held, Bool.and_eq_true,
        Bool.or_false]

/-- From a pair at rest the loop ends after one round for each line that is requested and not
masked. It acknowledges these lines in the order of their priorities, each once, and leaves the
requests that are masked and all other registers of the chips. -/
theorem drain_delivers_once {c : Controller} (h : c.AtRest) : ∃ lines d,
    (∀ rounds, lines.length ≤ rounds → drain rounds c = some (lines, d)) ∧
    (∀ line, line ∈ lines ↔
      line < 16 ∧ line ≠ 2 ∧ c.requested line = true ∧ c.masked line = false) ∧
    lines.Pairwise (fun k l => c.rank k < c.rank l) ∧
    (∀ line < 16, d.requested line = true ↔ c.requested line = true ∧ c.masked line = true) ∧
    d.master = { c.master with requests := d.master.requests } ∧
    d.slave = { c.slave with requests := d.slave.requests } := by
  obtain ⟨d, hdrain, hrest, hidle, hreduced⟩ := h.drain_eq
  refine ⟨c.offered, d, hdrain, h.mem_offered, c.pairwise_offered, ?_, hreduced.master,
    hreduced.slave⟩
  exact fun line hlt => hreduced.requested_iff hrest hidle hlt

/-- Both orders are rotated, line one is masked, and requests have come on both chips. -/
def rotatedRequests : Controller :=
  new.run [.initLegacy 0x08 0x70, .writePort Register.masterCommand 0xC3,
    .writePort Register.slaveCommand 0xC1, .writePort Register.masterData 0x02,
    .setIrq 0 true, .setIrq 1 true, .setIrq 4 true, .setIrq 9 true, .setIrq 15 true]

theorem drain_rotatedRequests :
    (drain 4 rotatedRequests).map Prod.fst = some [4, 0, 15, 9] ∧
      ∃ lines d,
        (∀ rounds, lines.length ≤ rounds → drain rounds rotatedRequests = some (lines, d)) ∧
        (∀ line, line ∈ lines ↔ line < 16 ∧ line ≠ 2 ∧
          rotatedRequests.requested line = true ∧ rotatedRequests.masked line = false) ∧
        lines.Pairwise (fun k l => rotatedRequests.rank k < rotatedRequests.rank l) ∧
        (∀ line < 16, d.requested line = true ↔
          rotatedRequests.requested line = true ∧ rotatedRequests.masked line = true) ∧
        d.master = { rotatedRequests.master with requests := d.master.requests } ∧
        d.slave = { rotatedRequests.slave with requests := d.slave.requests } := by
  refine ⟨by decide +kernel, drain_delivers_once ⟨?_, ?_, ?_, ?_⟩⟩
  · constructor <;> decide +kernel
  · constructor <;> decide +kernel
  · decide +kernel
  · decide +kernel

end Controller
end Mainboard
