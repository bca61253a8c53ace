/-!
# Execution modes

The mode follows from two processor flags: protection (CR0.PE), and virtual-8086 (EFLAGS.VM),
which counts only under protection. Outside real mode addresses are linear.
-/
namespace Mainboard

inductive Mode
  | real
  | protectedMode
  | virtual8086
  deriving DecidableEq, Repr

namespace Mode

def ofFlags (protection virtual : Bool) : Mode :=
  if protection then (if virtual then .virtual8086 else .protectedMode) else .real

/-- Whether instructions are fetched from linear addresses. -/
def isLinear (mode : Mode) : Bool := mode != .real

@[simp] theorem isLinear_ofFlags (protection virtual : Bool) :
    (ofFlags protection virtual).isLinear = protection := by
  cases protection <;> cases virtual <;> rfl

end Mode
end Mainboard
