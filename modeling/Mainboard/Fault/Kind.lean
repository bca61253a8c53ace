/-!
# Kinds of processor exceptions

The architectural exceptions with their vectors, and one internal kind that stops execution for
tracing. Vectors are distinct, and so are the saved-state numbers, which are the vectors plus
one so that zero names no kind. The class of a kind decides whether a second fault during its
delivery becomes a double fault.
-/
namespace Mainboard

inductive FaultKind
  | divideError
  | debug
  | breakpoint
  | overflow
  | boundRange
  | undefined
  | noFpu
  | doubleFault
  | fpuSegmentOverrun
  | taskSwitch
  | notPresent
  | stackSegment
  | generalProtection
  | pageFault
  | floatingPoint
  | alignmentCheck
  | machineCheck
  | simdFloatingPoint
  | traceStop
  deriving DecidableEq, Repr

namespace FaultKind

/-- All kinds, in ascending order of their vectors. -/
def all : List FaultKind :=
  [.divideError, .debug, .breakpoint, .overflow, .boundRange, .undefined, .noFpu, .doubleFault,
    .fpuSegmentOverrun, .taskSwitch, .notPresent, .stackSegment, .generalProtection, .pageFault,
    .floatingPoint, .alignmentCheck, .machineCheck, .simdFloatingPoint, .traceStop]

theorem mem_all (kind : FaultKind) : kind ∈ all := by
  cases kind <;> simp [all]

def vector : FaultKind → UInt8
  | .divideError => 0x00
  | .debug => 0x01
  | .breakpoint => 0x03
  | .overflow => 0x04
  | .boundRange => 0x05
  | .undefined => 0x06
  | .noFpu => 0x07
  | .doubleFault => 0x08
  | .fpuSegmentOverrun => 0x09
  | .taskSwitch => 0x0A
  | .notPresent => 0x0B
  | .stackSegment => 0x0C
  | .generalProtection => 0x0D
  | .pageFault => 0x0E
  | .floatingPoint => 0x10
  | .alignmentCheck => 0x11
  | .machineCheck => 0x12
  | .simdFloatingPoint => 0x13
  | .traceStop => 0x14

def ofVector? (vector : UInt8) : Option FaultKind :=
  all.find? fun kind => kind.vector == vector

/-- The number of a kind in saved states. -/
def toNumeric (kind : FaultKind) : UInt8 := kind.vector + 1

def ofNumeric? (number : UInt8) : Option FaultKind :=
  if number = 0 then none else ofVector? (number - 1)

theorem ofVector?_vector (kind : FaultKind) : ofVector? kind.vector = some kind := by
  cases kind <;> decide

theorem ofNumeric?_toNumeric (kind : FaultKind) : ofNumeric? kind.toNumeric = some kind := by
  cases kind <;> decide

def name : FaultKind → String
  | .divideError => "DIVIDE_ERROR"
  | .debug => "DEBUG"
  | .breakpoint => "BREAKPOINT"
  | .overflow => "OVERFLOW"
  | .boundRange => "BOUND_RANGE"
  | .undefined => "UNDEFINED"
  | .noFpu => "NO_FPU"
  | .doubleFault => "DOUBLE_FAULT"
  | .fpuSegmentOverrun => "FPU_SEGMENT_OVERRUN"
  | .taskSwitch => "TASK_SWITCH"
  | .notPresent => "NOT_PRESENT"
  | .stackSegment => "STACK_SEGMENT"
  | .generalProtection => "GENERAL_PROTECTION"
  | .pageFault => "PAGE_FAULT"
  | .floatingPoint => "FLOATING_POINT"
  | .alignmentCheck => "ALIGNMENT_CHECK"
  | .machineCheck => "MACHINE_CHECK"
  | .simdFloatingPoint => "SIMD_FLOATING_POINT"
  | .traceStop => "TRACESTOP"

end FaultKind

inductive FaultClass
  | benign
  | contributory
  | page
  deriving DecidableEq, Repr

def FaultKind.faultClass : FaultKind → FaultClass
  | .pageFault => .page
  | .divideError | .taskSwitch | .notPresent | .stackSegment | .generalProtection => .contributory
  | _ => .benign

/-- Whether a fault of the second class during delivery of one of the first is a double fault. -/
def FaultClass.escalates : FaultClass → FaultClass → Bool
  | .contributory, .contributory => true
  | .contributory, .page => true
  | .page, .page => true
  | _, _ => false

/-- Whether raising `new` while `inDelivery` is being delivered is a double fault. -/
def FaultKind.combines (inDelivery new : FaultKind) : Bool :=
  inDelivery.faultClass.escalates new.faultClass

end Mainboard
