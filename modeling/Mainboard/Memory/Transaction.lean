import Mainboard.Memory.Snapshot

/-!
# Transactions

Everything that can be done to a bus from outside, as data. A run of transactions is how an owner
or a processor uses a bus; what a transaction answers can be read off the bus before it.
-/
namespace Mainboard

inductive Transaction
  | register (handle : Nat)
  | map (handle : Nat) (start : UInt32) (length : Nat)
  | allocate (start : UInt32) (block : Block)
  | unmap (start : UInt32) (length : Nat)
  | replace (old : BlockId) (block : Block)
  | loadSystemBios (image : Bytes)
  | readWord (addr : UInt32) (width : Nat)
  | copyOut (addr : UInt32) (length : Nat)
  | writeWord (addr : UInt32) (width value : Nat)
  | copyIn (addr : UInt32) (src : Bytes)
  | setGateA20 (enabled : Bool)
  | setPagingActive (active : Bool)
  | takeTlbFlush
  | clear
  | reset
  | load (input : Bytes)
  deriving DecidableEq, Repr

namespace Memory

/-- The bus that a result leaves, whether it is an error or not. -/
def left : EStateM.Result ε Memory α → Memory
  | .ok _ m => m
  | .error _ m => m

/-- The bus after a transaction. -/
def step (m : Memory) : Transaction → Memory
  | .register handle => (m.registerRegion handle).2
  | .map handle start length => left (m.mapRegion handle start length)
  | .allocate start b => left (m.allocate start b)
  | .unmap start length => left (m.unmap start length)
  | .replace old b => left (m.replaceBlock old b)
  | .loadSystemBios image => left (m.loadSystemBios image)
  | .readWord addr width => m.noteSpans (Span.ofWord addr width)
  | .copyOut addr length => m.noteSpans (Span.ofBulk addr length)
  | .writeWord addr width value => m.writeWord addr width value
  | .copyIn addr src => m.copyIn addr src
  | .setGateA20 enabled => m.setGateA20 enabled
  | .setPagingActive active => m.setPagingActive active
  | .takeTlbFlush => m.takeTlbFlush.2
  | .clear => m.clear
  | .reset => m.reset
  | .load input => left (m.load input)

/-- The bus after transactions in order. -/
def run (m : Memory) (ts : List Transaction) : Memory := ts.foldl step m

@[simp] theorem run_nil (m : Memory) : m.run [] = m := rfl

@[simp] theorem run_cons (m : Memory) (t : Transaction) (ts : List Transaction) :
    m.run (t :: ts) = (m.step t).run ts := rfl

theorem run_append (m : Memory) (ts us : List Transaction) :
    m.run (ts ++ us) = (m.run ts).run us := List.foldl_append

end Memory
end Mainboard
