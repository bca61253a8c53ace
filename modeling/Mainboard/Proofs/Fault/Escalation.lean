import Mainboard.Fault.Chain
import Mathlib.Tactic

/-!
# Escalation over whole chains of faults

A chain keeps one exception for a history of any length. Read backwards from a triple fault the
history is short: the call before has left a double fault in delivery, and unless it raised one
itself, the call before that one has left the exception with which it combined.
-/
namespace Mainboard

inductive FaultCall
  | raise (fault : Fault)
  | complete
  deriving DecidableEq, Repr

/-- A benign exception combines with none, whichever of the two is raised first. -/
theorem Fault.classes_of_combinesWith {first second : Fault}
    (h : second.combinesWith first = true) :
    first.kind.faultClass ≠ .benign ∧ second.kind.faultClass ≠ .benign := by
  unfold combinesWith FaultKind.combines at h
  constructor
  · intro hbenign
    rw [hbenign] at h
    cases h
  · intro hbenign
    rw [hbenign] at h
    cases hfirst : first.kind.faultClass <;> rw [hfirst] at h <;> cases h

namespace FaultChain

def step (chain : FaultChain) : FaultCall → FaultChain
  | .raise fault => (chain.raise fault).2
  | .complete => chain.complete

def run (chain : FaultChain) (calls : List FaultCall) : FaultChain := calls.foldl step chain

theorem run_concat (chain : FaultChain) (calls : List FaultCall) (call : FaultCall) :
    chain.run (calls ++ [call]) = (chain.run calls).step call := List.foldl_concat ..

variable {chain : FaultChain} {calls : List FaultCall} {fault new : Fault}

/-! ## One call -/

theorem escalation_eq_tripleFault_iff : chain.escalation new = .tripleFault ↔
    ∃ previous, chain.inDelivery = some previous ∧ previous.kind = .doubleFault := by
  unfold escalation
  cases chain.inDelivery with
  | none => simp
  | some previous =>
    dsimp only
    split_ifs with hdouble <;> simp [hdouble]

theorem escalation_eq_doubleFault_iff : chain.escalation new = .doubleFault ↔
    ∃ previous, chain.inDelivery = some previous ∧ previous.kind ≠ .doubleFault ∧
      new.combinesWith previous = true := by
  unfold escalation
  cases chain.inDelivery with
  | none => simp
  | some previous =>
    dsimp only
    split_ifs with hdouble hcombines
    · simp [hdouble]
    · simp [hdouble, hcombines]
    · simp [hcombines]

theorem eq_of_escalation_eq_deliver (h : chain.escalation new = .deliver fault) : fault = new := by
  unfold escalation at h
  cases hprevious : chain.inDelivery with
  | none =>
    rw [hprevious] at h
    exact (Escalation.deliver.inj h).symm
  | some previous =>
    rw [hprevious] at h
    dsimp only at h
    split_ifs at h
    exact (Escalation.deliver.inj h).symm

theorem inDelivery_after_iff {escalation : Escalation} :
    (after escalation).inDelivery = some fault ↔
    escalation = .deliver fault ∨ escalation = .doubleFault ∧ fault = .doubleFault := by
  cases escalation <;> simp [after, empty, eq_comm]

/-! ## Runs -/

/-- What is in delivery has been left there by the last call, which has raised an exception. -/
theorem inDelivery_run_iff : (empty.run calls).inDelivery = some fault ↔
    ∃ before raised, calls = before ++ [.raise raised] ∧
      (((empty.run before).raise raised).1 = .deliver fault ∨
        ((empty.run before).raise raised).1 = .doubleFault ∧ fault = .doubleFault) := by
  rcases List.eq_nil_or_concat' calls with rfl | ⟨before, call, rfl⟩
  · simp [run, empty]
  · rw [run_concat]
    cases call with
    | complete => simp [step, complete, empty]
    | raise raised =>
      change (after ((empty.run before).escalation raised)).inDelivery = some fault ↔ _
      rw [inDelivery_after_iff]
      constructor
      · exact fun h => ⟨before, raised, rfl, h⟩
      · rintro ⟨before', raised', heq, h⟩
        obtain ⟨rfl, hlast⟩ := List.append_inj' heq rfl
        cases hlast
        exact h

/-- The last call has raised an exception and has left a double fault in delivery. -/
def LeavesDoubleFault (calls : List FaultCall) : Prop :=
  ∃ before last, calls = before ++ [.raise last] ∧
    (((empty.run before).raise last).1 = .doubleFault ∨
      ((empty.run before).raise last).1 = .deliver last ∧ last.kind = .doubleFault)

theorem tripleFault_run_iff :
    ((empty.run calls).raise new).1 = .tripleFault ↔ LeavesDoubleFault calls := by
  rw [raise_fst, escalation_eq_tripleFault_iff]
  constructor
  · rintro ⟨previous, hprevious, hkind⟩
    obtain ⟨before, last, rfl, hlast⟩ := inDelivery_run_iff.mp hprevious
    refine ⟨before, last, rfl, ?_⟩
    rcases hlast with hdeliver | ⟨hdouble, -⟩
    · obtain rfl := eq_of_escalation_eq_deliver hdeliver
      exact Or.inr ⟨hdeliver, hkind⟩
    · exact Or.inl hdouble
  · rintro ⟨before, last, rfl, hdouble | ⟨hdeliver, hkind⟩⟩
    · exact ⟨.doubleFault, inDelivery_run_iff.mpr ⟨before, last, rfl, Or.inr ⟨hdouble, rfl⟩⟩, rfl⟩
    · exact ⟨last, inDelivery_run_iff.mpr ⟨before, last, rfl, Or.inl hdeliver⟩, hkind⟩

/-- While no double fault is raised as such, a raise becomes one exactly if the call before has
raised an exception that was delivered, and the two combine. -/
theorem doubleFault_run_iff (hkinds : ∀ fault, .raise fault ∈ calls → fault.kind ≠ .doubleFault) :
    ((empty.run calls).raise new).1 = .doubleFault ↔
      ∃ before first, calls = before ++ [.raise first] ∧
      ((empty.run before).raise first).1 = .deliver first ∧ new.combinesWith first = true := by
  rw [raise_fst, escalation_eq_doubleFault_iff]
  constructor
  · rintro ⟨first, hfirst, hkind, hcombines⟩
    obtain ⟨before, raised, rfl, hdeliver | ⟨-, rfl⟩⟩ := inDelivery_run_iff.mp hfirst
    · obtain rfl := eq_of_escalation_eq_deliver hdeliver
      exact ⟨before, first, rfl, hdeliver, hcombines⟩
    · exact absurd rfl hkind
  · rintro ⟨before, first, rfl, hdeliver, hcombines⟩
    have hkind := hkinds first (List.mem_append_right before List.mem_cons_self)
    exact ⟨first, inDelivery_run_iff.mpr ⟨before, first, rfl, Or.inl hdeliver⟩, hkind, hcombines⟩

/-- While no double fault is raised as such, a triple fault is the third of three raises in a row.
-/
theorem tripleFault_run_iff_third (hkinds : ∀ fault, .raise fault ∈ calls →
    fault.kind ≠ .doubleFault) :
    ((empty.run calls).raise new).1 = .tripleFault ↔ ∃ before first second,
      calls = before ++ [.raise first, .raise second] ∧
      ((empty.run before).raise first).1 = .deliver first ∧ second.combinesWith first = true := by
  rw [tripleFault_run_iff]
  constructor
  · rintro ⟨earlier, second, rfl, hdouble | ⟨-, hkind⟩⟩
    · have hearlier : ∀ fault, .raise fault ∈ earlier → fault.kind ≠ .doubleFault :=
        fun fault hmem => hkinds fault (List.mem_append_left _ hmem)
      obtain ⟨before, first, rfl, hdeliver, hcombines⟩ := (doubleFault_run_iff hearlier).mp hdouble
      exact ⟨before, first, second, (List.append_cons ..).symm, hdeliver, hcombines⟩
    · exact absurd hkind (hkinds second (List.mem_append_right earlier List.mem_cons_self))
  · rintro ⟨before, first, second, rfl, hdeliver, hcombines⟩
    rw [List.append_cons] at hkinds ⊢
    have hearlier : ∀ fault, .raise fault ∈ before ++ [.raise first] → fault.kind ≠ .doubleFault :=
      fun fault hmem => hkinds fault (List.mem_append_left _ hmem)
    have hdouble := (doubleFault_run_iff hearlier).mpr ⟨before, first, rfl, hdeliver, hcombines⟩
    exact ⟨before ++ [.raise first], second, rfl, Or.inl hdouble⟩

/-- After any calls on a new chain, an exception is answered with a triple fault exactly if the call
right before has raised an exception and left a double fault in delivery, and then the chain is
empty. If no double fault has been raised as such, this is exactly if it is the third of three
raises in a row, of which the first was delivered and the second combines with it; so it is never if
one of these two is benign, as a trace stop is. -/
theorem triple_fault_iff (calls : List FaultCall) (new : Fault) :
    let answer := ((empty.run calls).raise new).1
    (answer = .tripleFault ↔ LeavesDoubleFault calls) ∧
    (answer = .tripleFault → ((empty.run calls).raise new).2 = empty) ∧
    ((∀ fault, .raise fault ∈ calls → fault.kind ≠ .doubleFault) →
      (answer = .tripleFault ↔ ∃ before first second,
        calls = before ++ [.raise first, .raise second] ∧
        ((empty.run before).raise first).1 = .deliver first ∧ second.combinesWith first = true) ∧
      ∀ before first second, calls = before ++ [.raise first, .raise second] →
        first.kind.faultClass = .benign ∨ second.kind.faultClass = .benign →
          answer ≠ .tripleFault) ∧
    FaultKind.traceStop.faultClass = .benign := by
  intro answer
  refine ⟨tripleFault_run_iff, fun htriple => ?_,
    fun hkinds => ⟨tripleFault_run_iff_third hkinds, ?_⟩, rfl⟩
  · rw [raise_snd, ← raise_fst]
    exact congrArg after htriple
  · rintro before first second rfl hbenign htriple
    obtain ⟨_, _, _, heq, -, hcombines⟩ := (tripleFault_run_iff_third hkinds).mp htriple
    obtain ⟨-, hlast⟩ := List.append_inj' heq rfl
    cases hlast
    obtain ⟨hfirst, hsecond⟩ := Fault.classes_of_combinesWith hcombines
    exact hbenign.elim hfirst hsecond

/-- A page fault while a protection fault is delivered, after a trace stop and a handler that was
entered: whatever is raised next resets the machine. -/
theorem third_fault_in_a_row_resets :
    let pageFault : Fault := ⟨.pageFault, some 2, true⟩
    let calls : List FaultCall :=
      [.raise .traceStop, .complete, .raise .generalProtection, .raise pageFault]
    (∀ fault, .raise fault ∈ calls → fault.kind ≠ .doubleFault) ∧
      ∀ new, ((empty.run calls).raise new).1 = .tripleFault := by
  intro pageFault calls
  have hkinds : ∀ fault, .raise fault ∈ calls → fault.kind ≠ .doubleFault := by
    simp [calls, pageFault, Fault.traceStop, Fault.generalProtection]
  refine ⟨hkinds, fun new => ?_⟩
  obtain ⟨-, -, hthird, -⟩ := triple_fault_iff calls new
  exact (hthird hkinds).1.mpr
    ⟨[.raise .traceStop, .complete], .generalProtection, pageFault, rfl, by decide, by decide⟩

end FaultChain
end Mainboard
