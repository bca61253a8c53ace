import Mainboard.Proofs.Interrupt.Drain
import Mainboard.Proofs.Interrupt.Nesting

/-!
# Peeking and acknowledging

The vector that is pending can be read without an acknowledge. The two resolve the cascade apart
from each other: the peek looks at both chips as they are, while an acknowledge takes the line of
the master into service before it asks the slave, and pulses the cascade line again afterwards. They
agree in every state, also when the slave has withdrawn its request by then and answers with its
spurious line.
-/
namespace Mainboard

namespace Chip

/-- The chip has taken a line, or none: it is in service now, unless interrupts end by themselves,
and if they rotate then it has the lowest priority. All other lines in service stay, and so does the
rotation in all other cases. -/
structure Takes (c : Chip) (taken? : Option Line) (c' : Chip) : Prop where
  inService : ∀ k, c'.inService.contains k =
    (c.inService.contains k || (!c.autoEnd && decide (taken? = some k)))
  rotation : c'.rotation =
    if c.autoEnd ∧ c.rotateOnAutoEnd then taken?.elim c.rotation (· + 1) else c.rotation

variable {c c' : Chip} {taken? : Option Line}

theorem takes_none (c : Chip) : c.Takes none c where
  inService k := by simp
  rotation := by simp

theorem inService_acknowledge (c : Chip) (l : Line) :
    (c.acknowledge l).inService = if c.autoEnd then c.inService else c.inService.insert l := by
  unfold acknowledge
  dsimp only
  rw [apply_ite inService]
  dsimp only
  rw [ite_self]
  split_ifs <;> rfl

theorem rotation_acknowledge (c : Chip) (l : Line) :
    (c.acknowledge l).rotation = if c.autoEnd ∧ c.rotateOnAutoEnd then l + 1 else c.rotation := by
  unfold acknowledge
  dsimp only
  rw [apply_ite rotation]
  dsimp only
  rw [ite_self]
  cases c.autoEnd <;> cases c.rotateOnAutoEnd <;> rfl

theorem takes_acknowledge (c : Chip) (l : Line) : c.Takes (some l) (c.acknowledge l) where
  inService k := by
    rw [inService_acknowledge]
    cases c.autoEnd <;> simp [eq_comm]
  rotation := by
    rw [rotation_acknowledge]
    rfl

@[simp] theorem vector_acknowledge (c : Chip) (l k : Line) :
    (c.acknowledge l).vector k = c.vector k := by
  unfold acknowledge vector
  dsimp only
  split_ifs <;> rfl

theorem Takes.pulse (h : c.Takes taken? c') (l : Line) : c.Takes taken? (c'.pulse l) where
  inService k := by rw [inService_pulse, h.inService]
  rotation := by rw [rotation_pulse, h.rotation]

end Chip

namespace Controller

/-- The lines that a vector stands for: a line of the master, or the cascade line together with the
line that the slave has to offer. If the slave has none the vector is that of its spurious line. -/
inductive Produced (c : Controller) : UInt8 → Line → Option Line → Prop
  | master {l : Line} : c.master.pending? = some l → l ≠ cascadeLine →
      Produced c (c.master.vector l) l none
  | slave {l : Line} : c.master.pending? = some cascadeLine → c.slave.pending? = some l →
      Produced c (c.slave.vector l) cascadeLine (some l)
  | spurious : c.master.pending? = some cascadeLine → c.slave.pending? = none →
      Produced c (c.slave.vector spuriousLine) cascadeLine none

variable {c : Controller} {v : UInt8} {l : Line} {slaveLine? : Option Line}

theorem exists_produced (h : c.pendingVector? = some v) :
    ∃ l slaveLine?, c.Produced v l slaveLine? := by
  unfold pendingVector? at h
  cases hm : c.master.pending? with
  | none => simp [hm] at h
  | some l =>
    rw [hm] at h
    dsimp only at h
    split_ifs at h with hl
    · subst hl
      cases hs : c.slave.pending? with
      | none =>
        rw [hs] at h
        cases h
        exact ⟨_, _, .spurious hm hs⟩
      | some k =>
        rw [hs] at h
        cases h
        exact ⟨_, _, .slave hm hs⟩
    · cases h
      exact ⟨_, _, .master hm hl⟩

theorem pending?_of_pendingVector? (h : c.pendingVector? = none) : c.master.pending? = none := by
  rw [← Option.not_isSome_iff_eq_none, ← isSome_pendingVector?, h]
  exact Bool.false_ne_true

theorem Produced.taken? (h : c.Produced v l slaveLine?) :
    c.taken? .master = some l ∧ c.taken? .slave = slaveLine? := by
  cases h with
  | master hm hl => simp [Controller.taken?, hm, hl]
  | slave hm hs => simp [Controller.taken?, hm, hs]
  | spurious hm hs => simp [Controller.taken?, hm, hs]

/-- An acknowledge answers the vector of the lines that it takes. -/
theorem Produced.acknowledge_fst (h : c.Produced v l slaveLine?) : c.acknowledge.1 = v := by
  cases h with
  | master hm hl => simp [acknowledge, hm, hl]
  | slave hm hs => simp [acknowledge, acknowledgeSlave, hm, hs]
  | spurious hm hs => simp [acknowledge, acknowledgeSlave, hm, hs]

/-- The pulse that ends an acknowledge changes neither what is in service nor a rotation. -/
theorem takes_update {role : Role} {taken? : Role → Option Line} {d : Controller}
    (h : ∀ r, (c.chip r).Takes (taken? r) (d.chip r)) :
    (c.chip role).Takes (taken? role) (d.update.chip role) :=
  forall_chip_update (P := fun r chip => (c.chip r).Takes (taken? r) chip) h
    ((h .master).pulse cascadeLine) role

theorem takes_acknowledge (c : Controller) (role : Role) :
    (c.chip role).Takes (c.taken? role) (c.acknowledge.2.chip role) := by
  obtain ⟨d, hupdate, hchip⟩ := c.acknowledge_eq_update
  rw [hupdate]
  refine takes_update fun r => ?_
  rw [hchip]
  cases c.taken? r with
  | none => exact Chip.takes_none _
  | some l => exact Chip.takes_acknowledge _ l

/-- In every state of the pair, whatever its registers hold: if the peek answers a vector, an
acknowledge returns it and takes the lines that it stands for into service, each on its chip and no
others. If the peek answers that nothing is pending, the acknowledge returns the spurious vector of
the master, and on both chips what is in service and the rotation stay. -/
theorem acknowledge_agrees_with_peek (c : Controller) :
    (∀ v, c.pendingVector? = some v → c.acknowledge.1 = v ∧
      ∃ l slaveLine?, c.Produced v l slaveLine? ∧
      c.master.Takes (some l) c.acknowledge.2.master ∧
      c.slave.Takes slaveLine? c.acknowledge.2.slave) ∧
    (c.pendingVector? = none → c.acknowledge.1 = c.master.vectorBase + 7 ∧
      ∀ role, (c.acknowledge.2.chip role).inService = (c.chip role).inService ∧
        (c.acknowledge.2.chip role).rotation = (c.chip role).rotation) := by
  refine ⟨fun v hv => ?_, fun hnone => ?_⟩
  · obtain ⟨l, slaveLine?, hproduced⟩ := exists_produced hv
    obtain ⟨hmaster, hslave⟩ := hproduced.taken?
    refine ⟨hproduced.acknowledge_fst, l, slaveLine?, hproduced, ?_, ?_⟩
    · rw [← hmaster]
      exact c.takes_acknowledge .master
    · rw [← hslave]
      exact c.takes_acknowledge .slave
  · have hpending := pending?_of_pendingVector? hnone
    refine ⟨?_, fun role => ?_⟩
    · unfold acknowledge
      rw [hpending]
      rfl
    · have htakes := c.takes_acknowledge role
      have hnothing : c.taken? role = none := by
        cases role <;> simp [taken?, hpending]
      rw [hnothing] at htakes
      refine ⟨LineSet.ext fun k => ?_, ?_⟩
      · rw [htakes.inService]
        simp
      · rw [htakes.rotation]
        simp

end Controller
end Mainboard
