import Mainboard.Memory.Basic

/-!
# Summaries for logs

A bus and a window are described in one line each: named values between braces, with two dots for
what is left out.
-/
namespace Mainboard

namespace Text

/-- A named record of values that leaves out some. -/
def partialRecord (name : String) (values : List (String × String)) : String :=
  name ++ " \x7b " ++ ", ".intercalate (values.map fun (key, value) => key ++ ": " ++ value) ++
    ", .. \x7d"

end Text

namespace Block

/-- A window in one line. -/
def windowSummary (region : Nat) (base : UInt64) : String :=
  Text.partialRecord "MapWrapper"
    [("region", toString region), ("base", Text.hex base.toNat)]

end Block

namespace Memory

/-- A bus in one line. -/
def summary (m : Memory) : String :=
  Text.partialRecord "PhysicalAddressSpace"
    [("ram_size", toString m.ramSize.toNat), ("gate_a20", toString m.gateA20),
      ("mapped_region_count", toString m.mappedCount.toNat),
      ("arena_len", toString m.blocks.size), ("regions", toString m.devices.registered.size)]

end Memory
end Mainboard
