import Mainboard.Execution.Slice
import Mainboard.Signal
import Mathlib.Tactic

/-!
# The trace trap as a shared signal

Whoever may stop the run loop has a handle on one signal, and the loop takes that signal after each
success. The dispatcher keeps no more than a flag for it. That is enough: what goes on at one signal
of a bank does not depend on the others, nor on which handles it is done through.
-/
namespace Mainboard

inductive SignalUse
  | raise
  | clear
  | peek
  | take
  deriving DecidableEq

namespace SignalUse

def onLevel : SignalUse → Bool → Bool × Bool
  | .raise, _ => (false, true)
  | .clear, _ => (false, false)
  | .peek, level => (level, level)
  | .take, level => (level, false)

def allOnLevel (level : Bool) : List SignalUse → List Bool × Bool
  | [] => ([], level)
  | u :: uses =>
    let (answer, level) := u.onLevel level
    (allOnLevel level uses).map (answer :: ·) id

end SignalUse

namespace SignalBank

variable {bank : SignalBank} {own handle : Nat}

def use (bank : SignalBank) (handle : Nat) : SignalUse → Bool × SignalBank
  | .raise => (false, bank.raise handle)
  | .clear => (false, bank.clear handle)
  | .peek => (bank.peek handle, bank)
  | .take => bank.take handle

def useAll (bank : SignalBank) : List (Nat × SignalUse) → List (Nat × Bool) × SignalBank
  | [] => ([], bank)
  | (handle, u) :: uses =>
    let (answer, bank) := bank.use handle u
    (bank.useAll uses).map ((handle, answer) :: ·) id

theorem signal_use (u : SignalUse) (k : Nat) : (bank.use handle u).2.signal k = bank.signal k := by
  cases u with
  | peek => rfl
  | _ => exact bank.signal_put handle k _

theorem size_levels_use (u : SignalUse) :
    (bank.use handle u).2.levels.size = bank.levels.size := by
  cases u with
  | peek => rfl
  | _ => exact Array.size_setIfInBounds

theorem answer_use (u : SignalUse) : (bank.use handle u).1 = (u.onLevel (bank.peek handle)).1 := by
  cases u <;> rfl

theorem peek_congr (h : bank.signal handle = bank.signal own) :
    bank.peek handle = bank.peek own := by
  unfold peek
  rw [h]

/-- A use changes the level of its own signal and of no other. -/
theorem peek_use (hown : bank.signal own < bank.levels.size) (u : SignalUse) :
    (bank.use handle u).2.peek own =
      if bank.signal own = bank.signal handle then (u.onLevel (bank.peek own)).2
      else bank.peek own := by
  cases u with
  | peek => exact (ite_self _).symm
  | _ => exact bank.peek_put _ hown

/-- A new signal is low, and a second handle on it stands for the same signal. -/
theorem share_addSignal (bank : SignalBank) :
    let own := bank.handles.size
    let shared := bank.addSignal.share own
    shared.signal own < shared.levels.size ∧ shared.signal (own + 1) = shared.signal own ∧
      shared.peek own = false := by
  intro own shared
  have hown : shared.signal own = bank.levels.size := by
    simp [shared, own, share, addSignal, signal, Array.getElem_push]
  have hsecond : shared.signal (own + 1) = bank.levels.size := by
    simp [shared, own, share, addSignal, signal, Array.getElem_push]
  have hlevels : shared.levels = bank.levels.push false := rfl
  refine ⟨?_, hsecond.trans hown.symm, ?_⟩
  · rw [hown, hlevels, Array.size_push]
    exact Nat.lt_succ_self _
  · unfold peek
    rw [hown, hlevels]
    simp

def usesOf (bank : SignalBank) (own : Nat) (uses : List (Nat × SignalUse)) : List SignalUse :=
  (uses.filter fun e => bank.signal e.1 = bank.signal own).map Prod.snd

/-- What goes on at one signal is what goes on at a single level. -/
theorem useAll_at (hown : bank.signal own < bank.levels.size) (uses : List (Nat × SignalUse)) :
    let alone := SignalUse.allOnLevel (bank.peek own) (bank.usesOf own uses)
    ((bank.useAll uses).1.filter fun e => bank.signal e.1 = bank.signal own).map Prod.snd =
        alone.1 ∧
      (bank.useAll uses).2.peek own = alone.2 := by
  induction uses generalizing bank with
  | nil => exact ⟨rfl, rfl⟩
  | cons e uses ih =>
    obtain ⟨handle, u⟩ := e
    have hsignal : ∀ k, (bank.use handle u).2.signal k = bank.signal k := signal_use u
    have hlater := @ih (bank.use handle u).2 (by rwa [hsignal, size_levels_use])
    rw [peek_use hown] at hlater
    simp only [usesOf, hsignal] at hlater ⊢
    by_cases hsame : bank.signal handle = bank.signal own
    · rw [if_pos hsame.symm] at hlater
      simp only [useAll, SignalUse.allOnLevel, hsame, List.filter_cons_of_pos, List.map_cons,
        decide_true, Prod.map_fst, Prod.map_snd, id_eq, answer_use, peek_congr hsame]
      exact ⟨congrArg _ hlater.1, hlater.2⟩
    · rw [if_neg (Ne.symm hsame)] at hlater
      simpa [useAll, hsame] using hlater

end SignalBank

namespace Core

variable {σ : Type} {c : Core σ} {bank : SignalBank} {own : Nat}

/-- The trap of a core is armed by its processor or its owner, forgotten with a reset of the
dispatcher, and taken after a success. -/
def useTrap (c : Core σ) : SignalUse → Bool × Core σ
  | .raise => (false, { c with dispatcher := c.dispatcher.arm })
  | .clear => (false, { c with dispatcher := c.dispatcher.reset })
  | .peek => (c.dispatcher.trapArmed, c)
  | .take => c.takeTrap

def useTrapAll (c : Core σ) : List SignalUse → List Bool × Core σ
  | [] => ([], c)
  | u :: uses =>
    let (answer, c) := c.useTrap u
    (c.useTrapAll uses).map (answer :: ·) id

theorem useTrap_onLevel (c : Core σ) (u : SignalUse) :
    (c.useTrap u).1 = (u.onLevel c.dispatcher.trapArmed).1 ∧
      (c.useTrap u).2.dispatcher.trapArmed = (u.onLevel c.dispatcher.trapArmed).2 := by
  cases u with
  | take =>
    unfold useTrap takeTrap
    cases h : c.dispatcher.trapArmed
    · exact ⟨rfl, h⟩
    · exact ⟨rfl, rfl⟩
  | _ => exact ⟨rfl, rfl⟩

theorem useTrapAll_onLevel (c : Core σ) (uses : List SignalUse) :
    (c.useTrapAll uses).1 = (SignalUse.allOnLevel c.dispatcher.trapArmed uses).1 ∧
      (c.useTrapAll uses).2.dispatcher.trapArmed =
        (SignalUse.allOnLevel c.dispatcher.trapArmed uses).2 := by
  induction uses generalizing c with
  | nil => exact ⟨rfl, rfl⟩
  | cons u uses ih =>
    obtain ⟨hanswer, hlevel⟩ := c.useTrap_onLevel u
    obtain ⟨hanswers, hafter⟩ := ih (c.useTrap u).2
    rw [hlevel] at hanswers hafter
    exact ⟨congrArg₂ List.cons hanswer hanswers, hafter⟩

/-- A core with a flag for its trap answers as the signal does that the flag stands for, whichever
handles the signal is used through and whatever is done to other signals in between. -/
theorem trap_as_signal (hown : bank.signal own < bank.levels.size)
    (hflag : bank.peek own = c.dispatcher.trapArmed) (uses : List (Nat × SignalUse)) :
    let alone := c.useTrapAll (bank.usesOf own uses)
    ((bank.useAll uses).1.filter fun e => bank.signal e.1 = bank.signal own).map Prod.snd =
        alone.1 ∧
      (bank.useAll uses).2.peek own = alone.2.dispatcher.trapArmed := by
  intro alone
  obtain ⟨hanswers, hlevel⟩ := SignalBank.useAll_at hown uses
  obtain ⟨hanswers', hlevel'⟩ := c.useTrapAll_onLevel (bank.usesOf own uses)
  rw [hflag] at hanswers hlevel
  exact ⟨hanswers.trans hanswers'.symm, hlevel.trans hlevel'.symm⟩

/-- So a core whose trap is not armed may be given a new signal for it, shared with its processor. -/
theorem trap_as_new_signal (hdown : c.dispatcher.trapArmed = false) (bank : SignalBank)
    (uses : List (Nat × SignalUse)) :
    let own := bank.handles.size
    let shared := bank.addSignal.share own
    let alone := c.useTrapAll (shared.usesOf own uses)
    ((shared.useAll uses).1.filter fun e => shared.signal e.1 = shared.signal own).map Prod.snd =
        alone.1 ∧
      (shared.useAll uses).2.peek own = alone.2.dispatcher.trapArmed ∧
      shared.signal (own + 1) = shared.signal own := by
  intro own shared alone
  obtain ⟨hinside, hsecond, hlow⟩ := bank.share_addSignal
  obtain ⟨hanswers, hlevel⟩ := trap_as_signal hinside (hlow.trans hdown.symm) uses
  exact ⟨hanswers, hlevel, hsecond⟩

end Core
end Mainboard
