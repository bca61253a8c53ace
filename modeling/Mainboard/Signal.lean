/-!
# Shared signals

A signal is a level that one side sets and another takes, which clears it. Several handles may
stand for one signal: what is done through one of them is seen through all.
-/
namespace Mainboard

/-- Signals and the handles on them. Handle `i` stands for the level at position `handles[i]`. -/
structure SignalBank where
  levels : Array Bool
  handles : Array Nat
  deriving DecidableEq, Repr

namespace SignalBank

def empty : SignalBank := ⟨#[], #[]⟩

/-- Add a signal, initially low, and a handle on it. -/
def addSignal (bank : SignalBank) : SignalBank :=
  ⟨bank.levels.push false, bank.handles.push bank.levels.size⟩

/-- The signal that a handle stands for; an unknown handle stands for none. -/
def signal (bank : SignalBank) (handle : Nat) : Nat :=
  bank.handles.getD handle bank.levels.size

/-- Add a handle on the signal of another handle. -/
def share (bank : SignalBank) (handle : Nat) : SignalBank :=
  { bank with handles := bank.handles.push (bank.signal handle) }

def peek (bank : SignalBank) (handle : Nat) : Bool :=
  bank.levels.getD (bank.signal handle) false

def put (bank : SignalBank) (handle : Nat) (level : Bool) : SignalBank :=
  { bank with levels := bank.levels.setIfInBounds (bank.signal handle) level }

@[simp] theorem signal_put (bank : SignalBank) (handle k : Nat) (level : Bool) :
    (bank.put handle level).signal k = bank.signal k := by
  simp [put, signal]

/-- What is put through a handle is seen through all handles on the same signal. -/
theorem peek_put (bank : SignalBank) {handle k : Nat} (level : Bool)
    (known : bank.signal k < bank.levels.size) :
    (bank.put handle level).peek k =
      if bank.signal k = bank.signal handle then level else bank.peek k := by
  unfold peek
  rw [signal_put]
  by_cases h : bank.signal k = bank.signal handle
  · simp [put, ← h, known]
  · simp [put, h, Array.getElem?_setIfInBounds_ne (Ne.symm h)]

def raise (bank : SignalBank) (handle : Nat) : SignalBank := bank.put handle true

def clear (bank : SignalBank) (handle : Nat) : SignalBank := bank.put handle false

/-- Read the level and clear it. -/
def take (bank : SignalBank) (handle : Nat) : Bool × SignalBank :=
  (bank.peek handle, bank.clear handle)

end SignalBank
end Mainboard
