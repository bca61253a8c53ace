import Mainboard.Fault.Kind
import Mainboard.Text.Hex

/-!
# Raised exceptions and their escalation

A chain remembers the exception whose handler is being entered. A second exception meanwhile is
delivered in its turn, becomes a double fault, or, if a double fault was being delivered, a
triple fault, which empties the chain.
-/
namespace Mainboard

/-- A raised exception. `pointsToSelf` says that the saved instruction pointer is that of the
faulting instruction and not of the next one. -/
structure Fault where
  kind : FaultKind
  errorCode : Option UInt32
  pointsToSelf : Bool
  deriving DecidableEq, Repr

namespace Fault

def divideError : Fault := ⟨.divideError, none, true⟩
def boundRange : Fault := ⟨.boundRange, none, true⟩
def undefined : Fault := ⟨.undefined, none, true⟩
def doubleFault : Fault := ⟨.doubleFault, some 0, true⟩
def stackSegment : Fault := ⟨.stackSegment, some 0, true⟩
def generalProtection : Fault := ⟨.generalProtection, some 0, true⟩
def floatingPoint : Fault := ⟨.floatingPoint, none, true⟩
def alignmentCheck : Fault := ⟨.alignmentCheck, some 0, true⟩
def traceStop : Fault := ⟨.traceStop, none, true⟩

def vector (fault : Fault) : UInt8 := fault.kind.vector

/-- Whether raising this fault while `inDelivery` is being delivered is a double fault. -/
def combinesWith (fault inDelivery : Fault) : Bool := inDelivery.kind.combines fault.kind

def message (fault : Fault) : String :=
  let head := "Processor Exception: " ++ fault.kind.name
  match fault.errorCode with
  | some code => head ++ " [errorcode:" ++ Text.hex code.toNat ++ "]"
  | none => head

end Fault

/-- What becomes of a raised exception. -/
inductive Escalation
  | deliver (fault : Fault)
  | doubleFault
  | tripleFault
  deriving DecidableEq, Repr

structure FaultChain where
  inDelivery : Option Fault
  deriving DecidableEq, Repr

namespace FaultChain

/-- Nothing is being delivered. -/
def empty : FaultChain := ⟨none⟩

/-- What becomes of `new` while the chain is as it is. -/
def escalation (chain : FaultChain) (new : Fault) : Escalation :=
  match chain.inDelivery with
  | none => .deliver new
  | some previous =>
    if previous.kind = .doubleFault then .tripleFault
    else if new.combinesWith previous then .doubleFault
    else .deliver new

/-- The chain in which a step leaves the delivery. -/
def after : Escalation → FaultChain
  | .deliver fault => ⟨some fault⟩
  | .doubleFault => ⟨some .doubleFault⟩
  | .tripleFault => empty

def raise (chain : FaultChain) (new : Fault) : Escalation × FaultChain :=
  let step := chain.escalation new
  (step, after step)

/-- The handler has been entered. -/
def complete (_ : FaultChain) : FaultChain := empty

@[simp] theorem raise_fst (chain : FaultChain) (new : Fault) :
    (chain.raise new).1 = chain.escalation new := rfl

@[simp] theorem raise_snd (chain : FaultChain) (new : Fault) :
    (chain.raise new).2 = after (chain.escalation new) := rfl

end FaultChain
end Mainboard
