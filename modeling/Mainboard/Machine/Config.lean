import Mainboard.Execution.Core

/-!
# Configuration of a machine

A configuration is read from named values; a missing one has its default, while an unknown name,
a value of another type and a number out of range are refused. It is then checked as a whole.
RAM leaves a hole below one megabyte for video and option ROMs.
-/
namespace Mainboard

structure Config where
  ramSize : UInt32
  a20AtReset : Bool
  maxBlocks : UInt32
  cadence : UInt32
  masterVectorBase : UInt8
  slaveVectorBase : UInt8
  mapSystemRam : Bool
  deriving DecidableEq, Repr

/-- What is wrong with a configuration. -/
inductive ConfigError
  | ramSize (size : UInt32)
  | noBlocks
  | noCadence
  | vectorBase (role : Role) (base : UInt8)
  deriving DecidableEq, Repr

open Text in
def ConfigError.message : ConfigError → String
  | .ramSize size => s!"ram_size_bytes={hex size.toNat} must be a non-zero multiple of 0x1000"
  | .noBlocks => "max_blocks_per_slice must be >= 1"
  | .noCadence => "instructions_between_interrupts must be >= 1"
  | .vectorBase role base =>
    let name := match role with
      | .master => "master_vector_base"
      | .slave => "slave_vector_base"
    s!"{name}={hexPadded 2 base.toNat} must be a multiple of 8"

/-- A value in the text of a configuration. -/
inductive ConfigValue
  | number (n : Nat)
  | truth (b : Bool)
  | other
  deriving DecidableEq, Repr

namespace ConfigValue

/-- A number below `bound`. -/
def below? (v : ConfigValue) (bound : Nat) : Option Nat :=
  match v with
  | .number n => if n < bound then some n else none
  | _ => none

def u32? (v : ConfigValue) : Option UInt32 := (v.below? UInt32.size).map UInt32.ofNat

def u8? (v : ConfigValue) : Option UInt8 := (v.below? UInt8.size).map UInt8.ofNat

def truth? : ConfigValue → Option Bool
  | .truth b => some b
  | _ => none

end ConfigValue

namespace Config

def default : Config where
  ramSize := 16777216
  a20AtReset := false
  maxBlocks := Dispatcher.defaultMaxBlocks
  cadence := Dispatcher.defaultCadence
  masterVectorBase := 0x08
  slaveVectorBase := 0x70
  mapSystemRam := true

/-- Set a named value. -/
def setField? (c : Config) (name : String) (v : ConfigValue) : Option Config :=
  match name with
  | "ram_size_bytes" => v.u32?.map fun n => { c with ramSize := n }
  | "a20_enabled_at_reset" => v.truth?.map fun b => { c with a20AtReset := b }
  | "max_blocks_per_slice" => v.u32?.map fun n => { c with maxBlocks := n }
  | "instructions_between_interrupts" => v.u32?.map fun n => { c with cadence := n }
  | "master_vector_base" => v.u8?.map fun n => { c with masterVectorBase := n }
  | "slave_vector_base" => v.u8?.map fun n => { c with slaveVectorBase := n }
  | "map_system_ram" => v.truth?.map fun b => { c with mapSystemRam := b }
  | _ => none

/-- The configuration with the given values. -/
def ofFields? (fields : List (String × ConfigValue)) : Option Config :=
  fields.foldlM (fun c (name, v) => c.setField? name v) default

/-- The first thing that is wrong with a configuration. -/
def error? (c : Config) : Option ConfigError :=
  if c.ramSize = 0 ∨ c.ramSize.toNat % blockSize ≠ 0 then some (.ramSize c.ramSize)
  else if c.maxBlocks = 0 then some .noBlocks
  else if c.cadence = 0 then some .noCadence
  else if c.masterVectorBase.toNat % 8 ≠ 0 then some (.vectorBase .master c.masterVectorBase)
  else if c.slaveVectorBase.toNat % 8 ≠ 0 then some (.vectorBase .slave c.slaveVectorBase)
  else none

/-- Where the hole in RAM starts. -/
def legacyHoleStart : Nat := 0xA0000

/-- Where the hole in RAM ends. -/
def legacyHoleEnd : Nat := 0x100000

/-- The addresses of the pages from `start` up to `stop`. -/
def pageAddresses (start stop : Nat) : List UInt32 :=
  (List.range ((stop - start) / blockSize)).map fun i => UInt32.ofNat (start + i * blockSize)

/-- The pages of RAM, in ascending order. -/
def ramPages (c : Config) : List UInt32 :=
  if c.mapSystemRam then
    pageAddresses 0 (min c.ramSize.toNat legacyHoleStart) ++
      pageAddresses legacyHoleEnd c.ramSize.toNat
  else []

end Config
end Mainboard
