import Mainboard.Interrupt.Snapshot

/-!
# Operations

Everything that can be done to the pair from outside, as data, and runs of operations. The lines of
the pair are numbered from zero to fifteen, those of the slave from eight on.
-/
namespace Mainboard

/-- The chip that a line of the pair belongs to. -/
def Role.ofLine (line : Nat) : Role := if line < 8 then .master else .slave

/-- The number in the pair of a line of a chip. -/
def Role.line : Role → Line → Nat
  | .master, l => l.val
  | .slave, l => 8 + l.val

theorem Role.line_eq_iff {role : Role} {l : Line} {line : Nat} (h : line < 16) :
    role.line l = line ↔ role = .ofLine line ∧ l = Fin.ofNat 8 line := by
  have hl := l.isLt
  have hfin : l = Fin.ofNat 8 line ↔ l.val = line % 8 := Fin.ext_iff
  rw [hfin]
  by_cases h8 : line < 8
  · cases role <;> simp [Role.line, ofLine, h8] <;> omega
  · cases role <;> simp [Role.line, ofLine, h8] <;> omega

namespace Controller

inductive Operation
  | setIrq (line : Nat) (level : Bool)
  | acknowledge
  | readPort (port : UInt16)
  | writePort (port : UInt16) (value : UInt8)
  | takeRaise
  | takeClear
  | initLegacy (masterBase slaveBase : UInt8)
  | reset
  | load (input : Bytes)
  deriving DecidableEq, Repr

/-- The pair after an operation. -/
def step (c : Controller) : Operation → Controller
  | .setIrq line level => c.setIrq line level
  | .acknowledge => c.acknowledge.2
  | .readPort port => (c.readPort port).2
  | .writePort port value => c.writePort port value
  | .takeRaise => c.takeRaise.2
  | .takeClear => c.takeClear.2
  | .initLegacy masterBase slaveBase => c.initLegacy masterBase slaveBase
  | .reset => c.reset
  | .load input =>
    match c.load input with
    | .ok _ next => next
    | .error _ next => next

/-- The pair after operations in order. -/
def run (c : Controller) (ops : List Operation) : Controller := ops.foldl step c

@[simp] theorem run_nil (c : Controller) : c.run [] = c := rfl

@[simp] theorem run_cons (c : Controller) (op : Operation) (ops : List Operation) :
    c.run (op :: ops) = (c.step op).run ops := rfl

/-- The line that the next acknowledge takes into service, if there is one that is not spurious. A
line of the slave is taken together with the cascade line. -/
def acknowledged? (c : Controller) : Option Nat :=
  match c.master.pending? with
  | none => none
  | some l =>
    if l = cascadeLine then c.slave.pending?.map Role.slave.line else some (Role.master.line l)

/-- The line of the pair has a latched request. -/
def requested (c : Controller) (line : Nat) : Bool :=
  (c.chip (.ofLine line)).requests.contains (Fin.ofNat 8 line)

end Controller
end Mainboard
