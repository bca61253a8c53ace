import Mainboard.Bytes.LittleEndian
import Mainboard.Snapshot.Error

/-!
# Field payloads

A payload is a sequence of typed items without markers between them: words in little-endian
order, truth values as one byte `0` or `1`, raw bytes of a length both sides know, and byte
strings behind their own 32-bit length. A decoder consumes from the front. After an error it
stands where it stood before the item that failed, except that a truth value other than `0` or
`1` has been consumed, and so has the length of a byte string that is cut short.
-/
namespace Mainboard

namespace Encode

def u8 (v : UInt8) : Bytes := [v]

def bool (v : Bool) : Bytes := [if v then 1 else 0]

def u16 (v : UInt16) : Bytes := LittleEndian.toBytes 2 v.toNat

def u32 (v : UInt32) : Bytes := LittleEndian.toBytes 4 v.toNat

def u64 (v : UInt64) : Bytes := LittleEndian.toBytes 8 v.toNat

/-- A byte string behind its 32-bit length. -/
def vec (v : Bytes) : Bytes := LittleEndian.toBytes 4 v.length ++ v

end Encode

/-- A reader of payloads. Its state is what is left to read, also after an error. -/
abbrev Decode := EStateM SnapshotError Bytes

namespace Decode

/-- Read `n` bytes, or fail without reading any. -/
def bytes (n : Nat) : Decode Bytes := fun rest =>
  let chunk := rest.take n
  if chunk.length = n then .ok chunk (rest.drop n) else .error .unexpectedEof rest

/-- Read a word of `n` bytes. -/
def word (n : Nat) : Decode Nat := do
  let bs ← bytes n
  return LittleEndian.ofBytes bs

def u8 : Decode UInt8 := do return UInt8.ofNat (← word 1)

def u16 : Decode UInt16 := do return UInt16.ofNat (← word 2)

def u32 : Decode UInt32 := do return UInt32.ofNat (← word 4)

def u64 : Decode UInt64 := do return UInt64.ofNat (← word 8)

def bool : Decode Bool := do
  let v ← u8
  if v = 0 then return false
  else if v = 1 then return true
  else throw (.invalidField .bool)

/-- Read a byte string behind its 32-bit length. -/
def vec : Decode Bytes := do
  let n ← word 4
  bytes n

/-- Fail unless everything has been read. -/
def finish : Decode Unit := fun rest =>
  if rest.isEmpty then .ok () rest else .error (.trailingBytes rest.length) rest

/-- Read `n` values, collecting them in reverse. -/
def listInto (item : Decode α) : Nat → List α → Decode (List α)
  | 0, acc => pure acc.reverse
  | n + 1, acc => do
    let a ← item
    listInto item n (a :: acc)

/-- Read `n` values. -/
def list (n : Nat) (item : Decode α) : Decode (List α) := listInto item n []

/-- Read a count of 32 bits and then as many values. -/
def counted (item : Decode α) : Decode (List α) := do
  let n ← word 4
  list n item

/-- Read a whole payload. -/
def parse (d : Decode α) (payload : Bytes) : Except SnapshotError α :=
  match (do let a ← d; finish; return a : Decode α).run payload with
  | .ok a _ => .ok a
  | .error e _ => .error e

theorem bytes_append {n : Nat} {bs : Bytes} (h : bs.length = n) (rest : Bytes) :
    bytes n (bs ++ rest) = .ok bs rest := by
  simp [bytes, ← h]

theorem bytes_eq_ok_iff {n : Nat} {bs rest : Bytes} {input : Bytes} :
    bytes n input = .ok bs rest ↔ input = bs ++ rest ∧ bs.length = n := by
  constructor
  · intro h
    unfold bytes at h
    dsimp only at h
    split at h
    · injection h with h₁ h₂
      subst h₁ h₂
      exact ⟨(List.take_append_drop n input).symm, ‹_›⟩
    · contradiction
  · rintro ⟨rfl, h⟩
    exact bytes_append h rest

end Decode

/-- A typed item of a payload. -/
inductive Item
  | u8 (v : UInt8)
  | bool (v : Bool)
  | u16 (v : UInt16)
  | u32 (v : UInt32)
  | u64 (v : UInt64)
  | bytes (v : Bytes)
  | vec (v : Bytes)
  deriving DecidableEq, Repr

/-- The type of an item, which both sides know. -/
inductive ItemType
  | u8
  | bool
  | u16
  | u32
  | u64
  | bytes (length : Nat)
  | vec
  deriving DecidableEq, Repr

namespace Item

def type : Item → ItemType
  | .u8 _ => .u8
  | .bool _ => .bool
  | .u16 _ => .u16
  | .u32 _ => .u32
  | .u64 _ => .u64
  | .bytes v => .bytes v.length
  | .vec _ => .vec

def encode : Item → Bytes
  | .u8 v => Encode.u8 v
  | .bool v => Encode.bool v
  | .u16 v => Encode.u16 v
  | .u32 v => Encode.u32 v
  | .u64 v => Encode.u64 v
  | .bytes v => v
  | .vec v => Encode.vec v

/-- The payload that holds the items one after the other. -/
def encodeAll (items : List Item) : Bytes := items.flatMap encode

end Item

namespace ItemType

def decode : ItemType → Decode Item
  | .u8 => return .u8 (← Decode.u8)
  | .bool => return .bool (← Decode.bool)
  | .u16 => return .u16 (← Decode.u16)
  | .u32 => return .u32 (← Decode.u32)
  | .u64 => return .u64 (← Decode.u64)
  | .bytes n => return .bytes (← Decode.bytes n)
  | .vec => return .vec (← Decode.vec)

/-- Read items of the given types, in order. -/
def decodeAll : List ItemType → Decode (List Item)
  | [] => return []
  | t :: ts => do
    let item ← t.decode
    let items ← decodeAll ts
    return item :: items

end ItemType
end Mainboard
