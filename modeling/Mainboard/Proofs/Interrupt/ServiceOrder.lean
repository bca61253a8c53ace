import Mainboard.Proofs.Interrupt.Priority

/-!
# The order in which a quiet chip is served

On a chip with nothing in service and no special modes the pending line is the first of the waiting
ones in the rotated order. While it is in service nothing else is pending, and once it is ended the
chip is as it was but for the request.
-/
namespace Mainboard

namespace LineSet

def inOrder (s : LineSet) (base : Line) : List Line :=
  ((List.finRange 8).map (· + base)).filter s.contains

@[simp] theorem mem_inOrder {s : LineSet} {base l : Line} :
    l ∈ s.inOrder base ↔ s.contains l = true := by
  unfold inOrder
  rw [List.mem_filter]
  constructor
  · exact And.right
  · intro h
    refine ⟨List.mem_map.mpr ⟨l - base, List.mem_finRange _, sub_add_base l base⟩, h⟩

theorem pairwise_inOrder (s : LineSet) (base : Line) :
    (s.inOrder base).Pairwise fun k l => k - base < l - base := by
  apply List.Pairwise.filter
  rw [List.pairwise_map]
  simp only [add_sub_base]
  exact List.pairwise_lt_finRange 8

theorem nodup_inOrder (s : LineSet) (base : Line) : (s.inOrder base).Nodup :=
  (pairwise_inOrder s base).imp fun h heq => absurd (heq ▸ h) (lt_irrefl _)

theorem inOrder_eq_nil_iff {s : LineSet} {base : Line} : s.inOrder base = [] ↔ s = empty := by
  rw [List.eq_nil_iff_forall_not_mem, eq_empty_iff]
  simp

theorem head?_inOrder (s : LineSet) (base : Line) :
    (s.inOrder base).head? = (s.distance? base).map (· + base) := by
  unfold inOrder distance?
  rw [List.head?_filter, List.find?_map]
  rfl

theorem inOrder_erase (s : LineSet) (l base : Line) :
    (s.erase l).inOrder base = (s.inOrder base).filter (· ≠ l) := by
  unfold inOrder
  rw [List.filter_filter]
  apply List.filter_congr
  intro k _
  rw [contains_erase, Bool.and_comm]
  simp

theorem filter_ne_of_notMem {l : Line} {lines : List Line} (h : l ∉ lines) :
    lines.filter (· ≠ l) = lines := by
  rw [List.filter_eq_self]
  intro k hk
  have hne : k ≠ l := fun heq => h (heq ▸ hk)
  simpa using hne

theorem inOrder_erase_of_cons {s : LineSet} {base l : Line} {rest : List Line}
    (h : s.inOrder base = l :: rest) : (s.erase l).inOrder base = rest := by
  have hnodup := nodup_inOrder s base
  rw [h, List.nodup_cons] at hnodup
  rw [inOrder_erase, h, List.filter_cons_of_neg (by simp), filter_ne_of_notMem hnodup.1]

theorem insert_of_contains {s : LineSet} {l : Line} (h : s.contains l = true) : s.insert l = s := by
  apply ext
  intro k
  by_cases hk : k = l
  · simp [hk, h]
  · simp [hk]

theorem insert_erase {s : LineSet} {l : Line} (h : s.contains l = true) :
    (s.erase l).insert l = s := by
  apply ext
  intro k
  by_cases hk : k = l
  · simp [hk, h]
  · simp [hk]

end LineSet

namespace Chip

/-- Nothing is in service, all lines are edge triggered, and no mode is set that changes what is
pending or ends interrupts by itself. -/
structure Quiet (c : Chip) : Prop where
  inService : c.inService = .empty
  levelTriggered : c.levelTriggered = .empty
  specialMask : c.specialMask = false
  specialFullyNested : c.specialFullyNested = false
  autoEnd : c.autoEnd = false

def held (c : Chip) : LineSet := c.requests.without c.waiting

theorem contains_held (c : Chip) (l : Line) :
    c.held.contains l = (c.requests.contains l && c.mask.contains l) := by
  unfold held
  rw [LineSet.contains_without, contains_waiting]
  cases c.requests.contains l <;> simp

def forget (c : Chip) (l : Line) : Chip := { c with requests := c.requests.erase l }

def serving (c : Chip) (l : Line) : Chip := { c with inService := LineSet.empty.insert l }

theorem served?_serving (c : Chip) (l : Line) : (c.serving l).served? = some l := by
  have hfirst : (LineSet.empty.insert l).distance? c.rotation = some (l - c.rotation) := by
    rw [LineSet.distance?_eq_some_iff]
    simp
  unfold served? serving
  dsimp only
  rw [hfirst, Option.map_some, LineSet.sub_add_base]

@[simp] theorem waiting_forget (c : Chip) (l : Line) :
    (c.forget l).waiting = c.waiting.erase l := by
  apply LineSet.ext
  intro k
  simp only [contains_waiting, LineSet.contains_erase, forget]
  exact Bool.and_right_comm _ _ _

/-- Without the line that comes first, nothing waits if no line comes behind it. -/
theorem waiting_forget_eq_empty_iff {c : Chip} {first l : Line} {rest : List Line}
    (h : c.waiting.inOrder first = l :: rest) : (c.forget l).waiting = .empty ↔ rest = [] := by
  rw [← LineSet.inOrder_erase_of_cons h, LineSet.inOrder_eq_nil_iff, waiting_forget]

theorem held_forget {c : Chip} {l : Line} (h : c.waiting.contains l = true) :
    (c.forget l).held = c.held := by
  rw [contains_waiting, Bool.and_eq_true, Bool.not_eq_true'] at h
  apply LineSet.ext
  intro k
  rw [contains_held, contains_held]
  by_cases hk : k = l
  · simp [forget, hk, h.2]
  · simp [forget, hk]

theorem requests_eq_held {c : Chip} (h : c.waiting = .empty) : c.requests = c.held := by
  apply LineSet.ext
  intro k
  simp [held, h]

theorem pending?_of_idle {c : Chip} (h : c.inService = .empty) :
    c.pending? = (c.waiting.inOrder c.rotation).head? := by
  rw [LineSet.head?_inOrder]
  cases hd : c.waiting.distance? c.rotation with
  | none =>
    rw [LineSet.distance?_eq_none_iff] at hd
    rw [pending?_of_nothing_waiting hd, Option.map_none]
  | some d =>
    have hblocking : ∀ k, c.blocking.contains k = true → d < k - c.rotation := by
      intro k hk
      simp [contains_blocking, h] at hk
    rw [pending?_of_first hd, if_pos hblocking, Option.map_some]

namespace Quiet

variable {c : Chip} {l : Line}

theorem forget (h : c.Quiet) (l : Line) : (c.forget l).Quiet := ⟨h.1, h.2, h.3, h.4, h.5⟩

theorem pending? (h : c.Quiet) : c.pending? = (c.waiting.inOrder c.rotation).head? :=
  pending?_of_idle h.inService

theorem pending?_isSome_iff (h : c.Quiet) : c.pending?.isSome = true ↔ c.waiting ≠ .empty := by
  rw [h.pending?, List.isSome_head?, ne_eq, LineSet.inOrder_eq_nil_iff]

theorem acknowledge (h : c.Quiet) (l : Line) : c.acknowledge l = (c.forget l).serving l := by
  unfold Chip.acknowledge
  simp [h.autoEnd, h.levelTriggered, h.inService, Chip.forget, serving]

theorem endLine_serving (h : c.Quiet) (l : Line) : (c.serving l).endLine l false = c := by
  have hempty : (LineSet.empty.insert l).erase l = c.inService := by
    rw [h.inService]
    apply LineSet.ext
    intro k
    simp
  unfold endLine serving
  dsimp only
  rw [hempty]
  rfl

theorem pending?_serving (h : c.Quiet)
    (hfirst : ∀ k, c.waiting.contains k = true → l - c.rotation ≤ k - c.rotation) :
    (c.serving l).pending? = none := by
  rw [pending?_eq_none_iff]
  intro k hk
  refine ⟨l, ?_, hfirst k hk⟩
  rw [contains_blocking]
  simp [serving, h.specialMask, h.specialFullyNested]

theorem pending?_acknowledge (h : c.Quiet) (hl : c.pending? = some l) :
    (c.acknowledge l).pending? = none := by
  rw [h.acknowledge]
  apply (h.forget l).pending?_serving
  intro k hk
  rw [waiting_forget, LineSet.contains_erase, Bool.and_eq_true] at hk
  exact (pending?_eq_some_iff.mp hl).2.1 k hk.1

end Quiet
end Chip

end Mainboard
