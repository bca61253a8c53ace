import Mainboard.Bytes.Basic

/-!
# Why a snapshot is rejected

Each way in which a blob can be malformed is a cause of its own; the wording of all of them is
in one place.
-/
namespace Mainboard

/-- The four bytes that name the component a snapshot belongs to. -/
abbrev DeviceId := Vector UInt8 4

/-- What is wrong with the value of a field. -/
inductive FieldFault
  | u8
  | u16
  | u32
  | u64
  | bool
  | blockKind
  | blockLength
  | codePageLength
  | regionIndex
  | regionCount
  | indexPage
  | indexOrdinal
  | noAddressSpace
  | noController
  deriving DecidableEq, Repr

/-- The words for a faulty value. -/
def FieldFault.text : FieldFault → String
  | .u8 => "u8"
  | .u16 => "u16"
  | .u32 => "u32"
  | .u64 => "u64"
  | .bool => "bool"
  | .blockKind => "block kind"
  | .blockLength => "block length"
  | .codePageLength => "code page length"
  | .regionIndex => "mapped region index"
  | .regionCount => "mapped region count"
  | .indexPage => "index page"
  | .indexOrdinal => "index block ordinal"
  | .noAddressSpace => "missing address space"
  | .noController => "missing interrupt controller"

/-- Cause of a rejected snapshot. -/
inductive SnapshotError
  | unexpectedEof
  | invalidMagic
  | unsupportedFormat (major minor : UInt16)
  | deviceMismatch (expected found : DeviceId)
  | unsupportedDevice (expected found : UInt16)
  | duplicateTag (tag : UInt16)
  | invalidField (fault : FieldFault)
  | trailingBytes (count : Nat)
  deriving DecidableEq, Repr

/-- The four bytes of an identifier as a bracketed list of numbers. -/
def DeviceId.text (id : DeviceId) : String :=
  "[" ++ ", ".intercalate (id.toList.map fun b => toString b.toNat) ++ "]"

/-- The message for a rejected snapshot. -/
def SnapshotError.message : SnapshotError → String
  | .unexpectedEof => "unexpected end of snapshot data"
  | .invalidMagic => "invalid snapshot magic"
  | .unsupportedFormat major minor =>
    s!"unsupported snapshot format version {major.toNat}.{minor.toNat}"
  | .deviceMismatch expected found =>
    s!"snapshot device id mismatch (expected {DeviceId.text expected}, found {DeviceId.text found})"
  | .unsupportedDevice expected found =>
    s!"unsupported device major version (expected {expected.toNat}, found {found.toNat})"
  | .duplicateTag tag => s!"duplicate snapshot field tag {tag.toNat}"
  | .invalidField fault => s!"invalid field encoding: {fault.text}"
  | .trailingBytes count => s!"trailing bytes after field: {count} bytes"

end Mainboard
