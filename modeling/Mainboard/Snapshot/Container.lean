import Mainboard.Snapshot.Codec

/-!
# Snapshot container

A blob is the magic `FESN`, the version of the format, the identifier and version of the
component, and then tagged fields, each a 16-bit tag, a 32-bit length and that many bytes. In
memory the fields are kept in ascending order of their tags, one per tag, so a blob has one
written form whatever order its fields were set in. Readers accept fields in any order and skip
the tags they do not know.
-/
namespace Mainboard

/-- A version: readers insist on the major part and ignore the minor one. -/
structure Version where
  major : UInt16
  minor : UInt16
  deriving DecidableEq, Repr

/-- The version of the container that is written. -/
def Version.format : Version := ⟨1, 0⟩

/-- Payloads by tag, in ascending order of the tags. -/
abbrev Fields := List (UInt16 × Bytes)

namespace Fields

/-- Set the payload of a tag, replacing an earlier one. -/
def set (tag : UInt16) (value : Bytes) : Fields → Fields
  | [] => [(tag, value)]
  | (t, v) :: rest =>
    if tag < t then (tag, value) :: (t, v) :: rest
    else if tag = t then (tag, value) :: rest
    else (t, v) :: set tag value rest

/-- The payload of a tag. -/
def find? (fields : Fields) (tag : UInt16) : Option Bytes := fields.lookup tag

/-- The tags present, in ascending order. -/
def tags (fields : Fields) : List UInt16 := fields.map (·.1)

/-- One field as it stands in a blob. -/
def encodeField (field : UInt16 × Bytes) : Bytes :=
  Encode.u16 field.1 ++ Encode.vec field.2

/-- The fields as they stand in a blob. -/
def encode (fields : Fields) : Bytes := fields.flatMap encodeField

theorem find?_set (fields : Fields) (tag t : UInt16) (value : Bytes) :
    (fields.set tag value).find? t = if t = tag then some value else fields.find? t := by
  induction fields with
  | nil => simp [set, find?, List.lookup_cons]; split <;> simp_all
  | cons field rest ih =>
    obtain ⟨u, v⟩ := field
    simp only [find?] at ih ⊢
    unfold set
    split
    · simp only [List.lookup_cons]; split <;> simp_all
    · split
      · subst_vars
        simp only [List.lookup_cons]; split <;> simp_all
      · rename_i hne
        simp only [List.lookup_cons]
        split
        · have : t ≠ tag := by rintro rfl; simp_all
          simp_all
        · simp_all

/-- Read fields up to the end of the input, adding them to the given ones. -/
def parse (input : Bytes) (fields : Fields) : Except SnapshotError Fields :=
  match input with
  | [] => .ok fields
  | t₀ :: t₁ :: l₀ :: l₁ :: l₂ :: l₃ :: rest =>
    let tag := UInt16.ofNat (LittleEndian.ofBytes [t₀, t₁])
    let length := LittleEndian.ofBytes [l₀, l₁, l₂, l₃]
    let value := rest.take length
    if value.length ≠ length then .error .unexpectedEof
    else if (fields.find? tag).isSome then .error (.duplicateTag tag)
    else parse (rest.drop length) (fields.set tag value)
  | _ => .error .unexpectedEof
termination_by input.length
decreasing_by simp only [List.length_drop, List.length_cons]; omega

end Fields

/-- A blob taken apart. -/
structure Container where
  format : Version
  id : DeviceId
  device : Version
  fields : Fields
  deriving DecidableEq, Repr

namespace Container

/-- The four bytes that start every blob. -/
def magic : Bytes := [0x46, 0x45, 0x53, 0x4E]

/-- The number of bytes in front of the first field. -/
def headerLength : Nat := 16

/-- A container without fields. -/
def empty (id : DeviceId) (device : Version) : Container := ⟨.format, id, device, []⟩

def set (c : Container) (tag : UInt16) (value : Bytes) : Container :=
  { c with fields := c.fields.set tag value }

/-- Set the payload of a tag to a single item. -/
def setItem (c : Container) (tag : UInt16) (item : Item) : Container := c.set tag item.encode

/-- The written form. -/
def encode (c : Container) : Bytes :=
  magic ++ Encode.u16 c.format.major ++ Encode.u16 c.format.minor ++ c.id.toList ++
    Encode.u16 c.device.major ++ Encode.u16 c.device.minor ++ c.fields.encode

/-- The 16-bit word at an offset. -/
def wordAt (input : Bytes) (offset : Nat) : UInt16 :=
  UInt16.ofNat (LittleEndian.ofBytes ((input.drop offset).take 2))

/-- The identifier in a header. -/
def idAt (input : Bytes) : DeviceId := Vector.ofFn fun i => input.getD (8 + i.val) 0

/-- Take a blob apart that is expected to belong to the component `expected`. -/
def parse (input : Bytes) (expected : DeviceId) : Except SnapshotError Container :=
  if (input.take headerLength).length < headerLength then .error .unexpectedEof
  else if input.take 4 ≠ magic then .error .invalidMagic
  else
    let format : Version := ⟨wordAt input 4, wordAt input 6⟩
    if format.major ≠ Version.format.major then
      .error (.unsupportedFormat format.major format.minor)
    else
      let id := idAt input
      if id ≠ expected then .error (.deviceMismatch expected id)
      else do
        let fields ← Fields.parse (input.drop headerLength) []
        return ⟨format, id, ⟨wordAt input 12, wordAt input 14⟩, fields⟩

/-- Insist on the major version of the component. -/
def requireMajor (c : Container) (major : UInt16) : Except SnapshotError Unit :=
  if c.device.major = major then .ok ()
  else .error (.unsupportedDevice major c.device.major)

/-- Take a blob apart and insist on the component's identifier and major version. -/
def parseFor (input : Bytes) (id : DeviceId) (device : Version) :
    Except SnapshotError Container := do
  let c ← parse input id
  c.requireMajor device.major
  return c

def bytes (c : Container) (tag : UInt16) : Option Bytes := c.fields.find? tag

/-- The word of `n` bytes under a tag, if the tag is present. -/
def word (c : Container) (tag : UInt16) (n : Nat) (fault : FieldFault) :
    Except SnapshotError (Option Nat) :=
  match c.bytes tag with
  | none => .ok none
  | some value =>
    if value.length = n then .ok (some (LittleEndian.ofBytes value))
    else .error (.invalidField fault)

def u8 (c : Container) (tag : UInt16) : Except SnapshotError (Option UInt8) :=
  return (← c.word tag 1 .u8).map UInt8.ofNat

def u16 (c : Container) (tag : UInt16) : Except SnapshotError (Option UInt16) :=
  return (← c.word tag 2 .u16).map UInt16.ofNat

def u32 (c : Container) (tag : UInt16) : Except SnapshotError (Option UInt32) :=
  return (← c.word tag 4 .u32).map UInt32.ofNat

def u64 (c : Container) (tag : UInt16) : Except SnapshotError (Option UInt64) :=
  return (← c.word tag 8 .u64).map UInt64.ofNat

/-- The truth value under a tag: one byte, `0` or `1`. -/
def bool (c : Container) (tag : UInt16) : Except SnapshotError (Option Bool) := do
  match ← c.u8 tag with
  | none => return none
  | some v =>
    if v = 0 then return some false
    else if v = 1 then return some true
    else throw (.invalidField .bool)

end Container
end Mainboard
