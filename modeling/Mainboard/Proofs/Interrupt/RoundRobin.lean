import Mainboard.Proofs.Interrupt.Drain
import Mainboard.Proofs.Interrupt.Fidelity
import Mainboard.Proofs.Interrupt.Peek

/-!
# Rotation is fair

Lines that are level triggered keep their requests through an acknowledge. If each interrupt is
ended by the command that gives its line the lowest priority, the lines that are held asserted take
turns: the rotated order is a queue, from which a round takes the first line and puts it at the end.
So between two acknowledges of a line every other one has exactly one, whatever the lines and
wherever the order starts.
-/
namespace Mainboard

namespace LineSet

variable {s : LineSet} {base l k k' : Line} {rest : List Line}

/-- Lines behind another one keep their order if it starts right behind that one. -/
theorem sub_succ_lt (hl : l - base < k - base) (hk : k - base < k' - base) :
    k - (l + 1) < k' - (l + 1) := by
  simp only [Fin.lt_def, Fin.sub_def, Fin.val_add, Fin.val_one] at *
  omega

theorem sub_succ_lt_self (h : k ≠ l) : k - (l + 1) < l - (l + 1) := by
  rw [ne_eq, Fin.ext_iff] at h
  simp only [Fin.lt_def, Fin.sub_def, Fin.val_add, Fin.val_one]
  omega

/-- With the first line given the lowest priority it comes last, and the others move up. -/
theorem inOrder_succ (h : s.inOrder base = l :: rest) : s.inOrder (l + 1) = rest ++ [l] := by
  have hsorted := pairwise_inOrder s base
  have hnodup := nodup_inOrder s base
  rw [h, List.pairwise_cons] at hsorted
  rw [h, List.nodup_cons] at hnodup
  have hperm : (s.inOrder (l + 1)).Perm (rest ++ [l]) := by
    rw [List.perm_ext_iff_of_nodup (nodup_inOrder s (l + 1))]
    · intro k
      have hmem : s.contains k = true ↔ k ∈ l :: rest := by rw [← h, mem_inOrder]
      rw [mem_inOrder, hmem]
      simp [or_comm]
    · exact List.nodup_append_comm.mpr (List.nodup_cons.mpr hnodup)
  have hmoved : (rest ++ [l]).Pairwise fun k k' => k - (l + 1) < k' - (l + 1) := by
    rw [List.pairwise_append]
    refine ⟨?_, List.pairwise_singleton _ _, ?_⟩
    · exact hsorted.2.imp_of_mem fun hk _ hlt => sub_succ_lt (hsorted.1 _ hk) hlt
    · intro k hk k' hk'
      rw [List.mem_singleton.mp hk']
      exact sub_succ_lt_self fun heq => hnodup.1 (heq ▸ hk)
  exact hperm.eq_of_pairwise (fun a b _ _ hab hba => absurd hab (not_lt.mpr hba.le))
    (pairwise_inOrder s (l + 1)) hmoved

end LineSet

/-! ## Taking turns -/

/-- Whoever comes first in a queue has a turn and goes to the end, so many times. -/
def turns : Nat → List Line → List Line
  | 0, _ => []
  | _ + 1, [] => []
  | n + 1, l :: rest => l :: turns n (rest ++ [l])

theorem mem_of_mem_turns {n : Nat} {queue : List Line} {l : Line} (h : l ∈ turns n queue) :
    l ∈ queue := by
  induction n generalizing queue with
  | zero => cases h
  | succ n ih =>
    cases queue with
    | nil => cases h
    | cons first rest =>
      rcases List.mem_cons.mp h with rfl | hlater
      · exact List.mem_cons_self
      · simpa [or_comm] using ih hlater

theorem length_turns {queue : List Line} (h : queue ≠ []) (n : Nat) :
    (turns n queue).length = n := by
  induction n generalizing queue with
  | zero => rfl
  | succ n ih =>
    cases queue with
    | nil => exact absurd rfl h
    | cons first rest => simp [turns, ih]

/-- Until a line has its turn, those in front of it have theirs. -/
theorem turns_until {n : Nat} {front back between after : List Line} {l : Line} (hfront : l ∉ front)
    (hbetween : l ∉ between) (h : turns n (front ++ l :: back) = between ++ l :: after) :
    between = front := by
  induction n generalizing front back between with
  | zero => cases between <;> cases h
  | succ n ih =>
    cases front with
    | nil =>
      cases between with
      | nil => rfl
      | cons k between =>
        rw [List.nil_append, turns, List.cons_append, List.cons.injEq] at h
        exact absurd (h.1 ▸ List.mem_cons_self) hbetween
    | cons k front =>
      rw [List.mem_cons, not_or] at hfront
      cases between with
      | nil =>
        cases h
        exact absurd rfl hfront.1
      | cons k' between =>
        rw [List.mem_cons, not_or] at hbetween
        rw [List.cons_append, turns, List.append_assoc, List.cons_append, List.cons_append,
          List.cons.injEq] at h
        rw [h.1, ih hfront.2 hbetween.2 h.2]

/-- Between two turns of a line all others have theirs, in the order behind it. -/
theorem turns_between {n : Nat} {s : LineSet} {base l : Line} {before between after : List Line}
    (h : turns n (s.inOrder base) = before ++ l :: (between ++ l :: after))
    (hbetween : l ∉ between) :
    between = (s.erase l).inOrder (l + 1) := by
  induction before generalizing n base with
  | nil =>
    cases n with
    | zero => cases h
    | succ n =>
      cases hqueue : s.inOrder base with
      | nil =>
        rw [hqueue] at h
        cases h
      | cons first rest =>
        rw [hqueue, turns, List.nil_append, List.cons.injEq] at h
        obtain ⟨rfl, h⟩ := h
        have hrest : first ∉ rest := by
          have hnodup := LineSet.nodup_inOrder s base
          rw [hqueue, List.nodup_cons] at hnodup
          exact hnodup.1
        rw [turns_until hrest hbetween h, LineSet.inOrder_erase, LineSet.inOrder_succ hqueue,
          List.filter_append, LineSet.filter_ne_of_notMem hrest]
        simp
  | cons k before ih =>
    cases n with
    | zero => cases h
    | succ n =>
      cases hqueue : s.inOrder base with
      | nil =>
        rw [hqueue] at h
        cases h
      | cons first rest =>
        rw [hqueue, turns, List.cons_append, List.cons.injEq, ← LineSet.inOrder_succ hqueue] at h
        exact ih h.2

/-! ## Rounds -/

namespace Chip

variable {c : Chip} {l : Line}

theorem acknowledge_of_held (hidle : c.inService = .empty) (hauto : c.autoEnd = false)
    (hheld : c.levelTriggered.contains l = true) : c.acknowledge l = c.serving l := by
  unfold acknowledge serving
  simp [hauto, hheld, hidle]

/-- Ending the only interrupt in service and giving its line the lowest priority. -/
theorem endLine_serving_rotate (hidle : c.inService = .empty) (l : Line) :
    (c.serving l).endLine l true = { c with rotation := l + 1 } := by
  have hempty : (LineSet.empty.insert l).erase l = c.inService := by
    rw [hidle]
    apply LineSet.ext
    intro k
    simp
  unfold endLine serving
  dsimp only
  rw [hempty]
  rfl

end Chip

namespace Controller

def turn (c : Controller) : Controller := c.acknowledge.2.writePort Register.masterCommand 0xA0

def turnVectors : Nat → Controller → List UInt8
  | 0, _ => []
  | n + 1, c => c.acknowledge.1 :: turnVectors n c.turn

/-- Nothing is in service on the master, which does not end interrupts by itself, the slave has
nothing to offer, and the requests that are not masked on the master are those of lines that are
level triggered. -/
structure Shares (c : Controller) (s : LineSet) : Prop where
  idle : c.master.inService = .empty
  autoEnd : c.master.autoEnd = false
  slave : c.slave.pending? = none
  waiting : c.master.waiting = s
  held : ∀ l, s.contains l = true → c.master.levelTriggered.contains l = true

variable {c : Controller} {s : LineSet} {l : Line} {rest : List Line}

theorem update_of_slave_idle (h : c.slave.pending? = none) :
    c.update.master = c.master ∧ c.update.slave = c.slave := by
  rw [master_update, slave_update, h]
  exact ⟨rfl, rfl⟩

/-- A turn takes the line that comes first and leaves the pair as it was, but for the rotation. -/
theorem Shares.turn_eq (h : c.Shares s) (hl : s.inOrder c.master.rotation = l :: rest)
    (hcascade : s.contains cascadeLine = false) :
    c.acknowledge.1 = c.master.vector l ∧ c.turn.master = { c.master with rotation := l + 1 } ∧
      c.turn.slave = c.slave := by
  have hmem : s.contains l = true := LineSet.mem_inOrder.mp (hl ▸ List.mem_cons_self)
  have hne : l ≠ cascadeLine := by
    rintro rfl
    rw [hmem] at hcascade
    cases hcascade
  have hpending : c.master.pending? = some l := by
    rw [Chip.pending?_of_idle h.idle, h.waiting, hl]
    rfl
  have hack : c.acknowledge.2.master = c.master.serving l ∧ c.acknowledge.2.slave = c.slave := by
    rw [acknowledge_of_master hpending hne, Chip.acknowledge_of_held h.idle h.autoEnd
      (h.held l hmem)]
    exact update_of_slave_idle h.slave
  have hserved : (c.acknowledge.2.chip .master).served? = some l := by
    change c.acknowledge.2.master.served? = some l
    rw [hack.1, Chip.served?_serving]
  have hturn : c.turn = (c.acknowledge.2.setChip .master
      ((c.acknowledge.2.chip .master).endLine l true)).update :=
    writePort_end rfl (by decide) hserved
  have hend :
      (c.acknowledge.2.chip .master).endLine l true = { c.master with rotation := l + 1 } := by
    change c.acknowledge.2.master.endLine l true = _
    rw [hack.1, Chip.endLine_serving_rotate h.idle]
  rw [hturn, hend]
  obtain ⟨hmaster, hslave⟩ := update_of_slave_idle
    (c := c.acknowledge.2.setChip .master { c.master with rotation := l + 1 }) (hack.2 ▸ h.slave)
  exact ⟨(Produced.master hpending hne).acknowledge_fst, hmaster, hslave.trans hack.2⟩

theorem Shares.turn (h : c.Shares s) (hl : s.inOrder c.master.rotation = l :: rest)
    (hcascade : s.contains cascadeLine = false) : c.turn.Shares s := by
  obtain ⟨-, hmaster, hslave⟩ := h.turn_eq hl hcascade
  refine ⟨?_, ?_, hslave ▸ h.slave, ?_, ?_⟩ <;> rw [hmaster]
  · exact h.idle
  · exact h.autoEnd
  · exact h.waiting
  · exact h.held

theorem Shares.turnVectors_eq (h : c.Shares s) (hs : s ≠ .empty)
    (hcascade : s.contains cascadeLine = false)
    (n : Nat) : turnVectors n c = (turns n (s.inOrder c.master.rotation)).map c.master.vector := by
  induction n generalizing c with
  | zero => rfl
  | succ n ih =>
    cases hqueue : s.inOrder c.master.rotation with
    | nil => exact absurd (LineSet.inOrder_eq_nil_iff.mp hqueue) hs
    | cons l rest =>
      obtain ⟨hvector, hmaster, -⟩ := h.turn_eq hqueue hcascade
      have hnext := ih (h.turn hqueue hcascade)
      rw [hmaster] at hnext
      dsimp only at hnext
      rw [LineSet.inOrder_succ hqueue] at hnext
      rw [turnVectors, turns, List.map_cons, hvector, hnext]
      rfl

theorem Fit.edge_cascade (h : c.Fit) : c.master.levelTriggered.contains cascadeLine = false := by
  have hmask :
      (c.master.levelTriggered &&& Role.master.triggerMask).contains cascadeLine = false := by
    simp [LineSet.contains, Role.triggerMask, cascadeLine]
  have hfits : c.master.levelTriggered &&& Role.master.triggerMask = c.master.levelTriggered :=
    (h .master).trigger
  rwa [hfits] at hmask

/-- On every pair that a run of operations leaves, restores of arbitrary snapshots included: if
nothing is in service on the master, interrupts do not end by themselves, the slave has nothing to
offer, and the lines of a nonempty set `s`, all of them level triggered and held, are the ones that
wait on the master, then any number of turns answers the vectors of as many lines of `s`. Between
two turns of a line each other line of `s` has exactly one, in the cyclic order that starts behind
it. The rotation that the turns start with and the lines that are masked do not matter, and neither
do the modes that change what blocks. -/
theorem rotation_fair (ops : List Operation) (s : LineSet) (n : Nat) :
    let c := new.run ops
    c.Shares s → s ≠ .empty → ∃ lines : List Line,
      c.turnVectors n = lines.map c.master.vector ∧ lines.length = n ∧
      (∀ l ∈ lines, s.contains l = true) ∧
      ∀ before l between after, lines = before ++ l :: (between ++ l :: after) → l ∉ between →
        between = (s.erase l).inOrder (l + 1) := by
  intro c h hs
  have hcascade : s.contains cascadeLine = false := by
    have hedge := (fit_new.run ops).edge_cascade
    by_contra hmem
    rw [h.held _ (Bool.of_not_eq_false hmem)] at hedge
    cases hedge
  have hqueue : s.inOrder c.master.rotation ≠ [] := mt LineSet.inOrder_eq_nil_iff.mp hs
  refine ⟨_, h.turnVectors_eq hs hcascade n, length_turns hqueue n, fun l hl => ?_,
    fun _ _ _ _ => turns_between⟩
  exact LineSet.mem_inOrder.mp (mem_of_mem_turns hl)

/-- Four level-triggered lines are asserted, one of them is masked, and line 4 has the lowest
priority. The others take turns, starting with line 5. -/
theorem three_lines_take_turns :
    let c := new.run [.initLegacy 8 0x70, .writePort 0x4D0 0xE8, .setIrq 3 true, .setIrq 5 true,
      .setIrq 6 true, .setIrq 7 true, .writePort 0x21 0x40, .writePort 0x20 0xC4]
    let s : LineSet := 0xA8#8
    (c.Shares s ∧ s ≠ LineSet.empty) ∧
      c.turnVectors 7 = [0x0D, 0x0F, 0x0B, 0x0D, 0x0F, 0x0B, 0x0D] ∧
      ∃ lines : List Line, c.turnVectors 7 = lines.map c.master.vector ∧
        ∀ before l between after, lines = before ++ l :: (between ++ l :: after) → l ∉ between →
          between = (s.erase l).inOrder (l + 1) := by
  intro c s
  have hshares : c.Shares s :=
    ⟨by decide +kernel, by decide +kernel, by decide +kernel, by decide +kernel, by decide +kernel⟩
  have hs : s ≠ LineSet.empty := by decide
  obtain ⟨lines, hvectors, -, -, hbetween⟩ := rotation_fair _ s 7 hshares hs
  exact ⟨⟨hshares, hs⟩, by decide +kernel, lines, hvectors, hbetween⟩

end Controller
end Mainboard
