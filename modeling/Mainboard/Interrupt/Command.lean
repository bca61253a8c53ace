import Mainboard.Interrupt.LineSet

/-!
# Words written to a command port

A byte on a command port starts the initialisation of its chip, or is an operation word: one kind
sets up polling, the register that reads show, and the special mask; the other ends interrupts
and rotates priorities.
-/
namespace Mainboard

inductive Command
  /-- Start the initialisation; `fourWords` announces a fourth word. -/
  | initialise (fourWords : Bool)
  /-- Poll with the next read, choose the register that reads show, set the special mask. -/
  | configure (poll : Bool) (showInService : Option Bool) (specialMask : Option Bool)
  /-- Choose whether an automatic end of interrupt rotates. -/
  | rotateOnAutoEnd (enabled : Bool)
  /-- End the interrupt in service with the highest priority. -/
  | endHighest (rotate : Bool)
  /-- End the interrupt of a line. -/
  | endLine (line : Line) (rotate : Bool)
  /-- Give a line the lowest priority. -/
  | setLowest (line : Line)
  | nothing
  deriving DecidableEq, Repr

namespace Command

/-- Bit `i` of a byte. -/
def bit (value : UInt8) (i : Nat) : Bool := value.toBitVec.getLsbD i

/-- The line in the low three bits. -/
def lineOf (value : UInt8) : Line := Fin.ofNat 8 value.toNat

def ofByte (value : UInt8) : Command :=
  if bit value 4 then .initialise (bit value 0)
  else if bit value 3 then
    .configure (bit value 2)
      (if bit value 1 then some (bit value 0) else none)
      (if bit value 6 then some (bit value 5) else none)
  else
    match value.toNat / 32 with
    | 0 => .rotateOnAutoEnd false
    | 1 => .endHighest false
    | 3 => .endLine (lineOf value) false
    | 4 => .rotateOnAutoEnd true
    | 5 => .endHighest true
    | 6 => .setLowest (lineOf value)
    | 7 => .endLine (lineOf value) true
    | _ => .nothing

end Command
end Mainboard
