import Mainboard.Proofs.Memory.SystemBios

/-!
# Rejected changes

A change of what is mapped where is checked before anything is done, and what has passed the checks
cannot fail any more, also where it is made of several steps: the pages of the system BIOS are
installed one by one, each by a step that could be rejected by itself. So a rejected change leaves
the bus as it is, the error says what is wrong with the arguments, and a run is the same without its
rejected changes.
-/
namespace Mainboard

namespace Transaction

def start? : Transaction → Option UInt32
  | .map _ start _ | .unmap start _ | .allocate start _ => some start
  | _ => none

def length? : Transaction → Option Nat
  | .map _ _ length | .unmap _ length => some length
  | _ => none

def block? : Transaction → Option Block
  | .allocate _ b | .replace _ b => some b
  | _ => none

end Transaction

namespace Memory

def error? : Update α → Option MapError
  | .ok _ _ => none
  | .error e _ => some e

/-- The error that a transaction is rejected with, if it changes what is mapped where and is
rejected. -/
def rejection? (m : Memory) : Transaction → Option MapError
  | .map handle start length => error? (m.mapRegion handle start length)
  | .allocate start b => error? (m.allocate start b)
  | .unmap start length => error? (m.unmap start length)
  | .replace old b => error? (m.replaceBlock old b)
  | .loadSystemBios image => error? (m.loadSystemBios image)
  | _ => none

def WholePages (start : UInt32) (length : Nat) : Prop :=
  start.toNat % 4096 = 0 ∧ length % 4096 = 0 ∧ start.toNat + length ≤ 4294967296

def Admits (m : Memory) : Transaction → Prop
  | .map handle start length => WholePages start length ∧ length ≤ (m.devices.region handle).size
  | .allocate start b => start.toNat % 4096 = 0 ∧ b.size = blockSize
  | .unmap start length => WholePages start length
  | .replace _ b => b.isConnected ∧ b.size = blockSize
  | .loadSystemBios image => FitsBios image
  | _ => True

/-- An error is about a transaction, and what it says is wrong is wrong. -/
def Objects (m : Memory) (t : Transaction) : MapError → Prop
  | .misaligned start => t.start? = some start ∧ start.toNat % 4096 ≠ 0
  | .partialBlock length => t.length? = some length ∧ length % 4096 ≠ 0
  | .rangeOverflow start length =>
    t.start? = some start ∧ t.length? = some length ∧ 4294967296 < start.toNat + length
  | .underlyingTooShort length size =>
    (∃ handle start, t = .map handle start length ∧ size = (m.devices.region handle).size) ∧
      size < length
  | .wrongBlockSize size => ∃ b, t.block? = some b ∧ b.size = size ∧ size ≠ blockSize
  | .unconnectedReplacement => ∃ old b, t = .replace old b ∧ b.isConnected = false
  | .invalidRomImage length =>
    ∃ image, t = .loadSystemBios image ∧ image.length = length ∧ ¬FitsBios image

/-- A transaction with these results is done if its arguments are right. Otherwise it gives the bus
back with an error that says what is wrong. -/
def Settles (m : Memory) (t : Transaction) : Update α → Prop
  | .ok _ _ => m.Admits t
  | .error e m' => m.Objects t e ∧ m' = m

variable {m : Memory} {t : Transaction} {e : MapError}

theorem not_admits_of_objects (h : m.Objects t e) : ¬m.Admits t := by
  cases e with
  | misaligned start =>
    obtain ⟨hstart, halign⟩ := h
    cases t <;> cases hstart
    · exact fun hadmits => halign hadmits.1.1
    · exact fun hadmits => halign hadmits.1
    · exact fun hadmits => halign hadmits.1
  | partialBlock length =>
    obtain ⟨hlength, hpart⟩ := h
    cases t <;> cases hlength
    · exact fun hadmits => hpart hadmits.1.2.1
    · exact fun hadmits => hpart hadmits.2.1
  | rangeOverflow start length =>
    obtain ⟨hstart, hlength, hend⟩ := h
    cases t <;> cases hlength <;> cases hstart
    · exact fun hadmits => hend.not_ge hadmits.1.2.2
    · exact fun hadmits => hend.not_ge hadmits.2.2
  | underlyingTooShort length size =>
    obtain ⟨⟨handle, start, rfl, rfl⟩, hshort⟩ := h
    exact fun hadmits => hshort.not_ge hadmits.2
  | wrongBlockSize size =>
    obtain ⟨b, hb, rfl, hsize⟩ := h
    cases t <;> cases hb
    · exact fun hadmits => hsize hadmits.2
    · exact fun hadmits => hsize hadmits.2
  | unconnectedReplacement =>
    obtain ⟨old, b, rfl, hconn⟩ := h
    exact fun hadmits => Bool.false_ne_true (hconn.symm.trans hadmits.1)
  | invalidRomImage length =>
    obtain ⟨image, rfl, -, hfits⟩ := h
    exact hfits

theorem Settles.error?_eq_none_iff {result : Update α} (h : m.Settles t result) :
    error? result = none ↔ m.Admits t := by
  cases result with
  | ok a m' => exact ⟨fun _ => h, fun _ => rfl⟩
  | error e m' => exact ⟨nofun, fun hadmits => absurd hadmits (not_admits_of_objects h.1)⟩

theorem Settles.of_error {result : Update α} (h : m.Settles t result)
    (he : error? result = some e) :
    m.Objects t e ∧ left result = m := by
  cases result with
  | ok a m' => cases he
  | error e m' =>
    cases he
    exact h

/-! ## The changes -/

theorem objects_of_rangeError {start : UInt32} {length : Nat}
    (h : rangeError? start length = some e)
    (hstart : t.start? = some start) (hlength : t.length? = some length) : m.Objects t e := by
  unfold rangeError? at h
  split_ifs at h with halign hpart hend
  · cases h
    exact ⟨hlength, hpart⟩
  · cases h
    exact ⟨hstart, hlength, hend⟩
  · cases h
    exact ⟨hstart, fun haligned => halign (decide_eq_true haligned)⟩

theorem settles_mapRegion (m : Memory) (handle : Nat) (start : UInt32) (length : Nat) :
    m.Settles (.map handle start length) (m.mapRegion handle start length) := by
  unfold mapRegion
  cases hrange : rangeError? start length with
  | some e => exact ⟨objects_of_rangeError hrange rfl rfl, rfl⟩
  | none =>
    dsimp only
    split_ifs with hsize
    · exact ⟨⟨⟨handle, start, rfl, rfl⟩, hsize⟩, rfl⟩
    · exact ⟨rangeError?_eq_none_iff.mp hrange, not_lt.mp hsize⟩

theorem settles_allocate (m : Memory) (start : UInt32) (b : Block) :
    m.Settles (.allocate start b) (m.allocate start b) := by
  unfold allocate
  dsimp only
  split_ifs with halign hsize hconn
  · exact ⟨⟨b, rfl, rfl, hsize⟩, rfl⟩
  · exact ⟨of_decide_eq_true halign, not_not.mp hsize⟩
  · exact ⟨of_decide_eq_true halign, not_not.mp hsize⟩
  · exact ⟨⟨rfl, fun haligned => halign (decide_eq_true haligned)⟩, rfl⟩

theorem settles_unmap (m : Memory) (start : UInt32) (length : Nat) :
    m.Settles (.unmap start length) (m.unmap start length) := by
  unfold unmap
  cases hrange : rangeError? start length with
  | some e => exact ⟨objects_of_rangeError hrange rfl rfl, rfl⟩
  | none => exact rangeError?_eq_none_iff.mp hrange

theorem settles_replaceBlock (m : Memory) (old : BlockId) (b : Block) :
    m.Settles (.replace old b) (m.replaceBlock old b) := by
  unfold replaceBlock
  dsimp only
  split_ifs with hconn hsize hold hcount
  · exact ⟨⟨b, rfl, rfl, hsize⟩, rfl⟩
  · exact ⟨hconn, not_not.mp hsize⟩
  · exact ⟨hconn, not_not.mp hsize⟩
  · exact ⟨hconn, not_not.mp hsize⟩
  · exact ⟨⟨old, b, rfl, Bool.eq_false_iff.mpr hconn⟩, rfl⟩

theorem settles_loadSystemBios (m : Memory) (image : Bytes) :
    m.Settles (.loadSystemBios image) (m.loadSystemBios image) := by
  by_cases hfits : FitsBios image
  · rw [loadSystemBios_of_fits m hfits]
    exact hfits
  · rw [loadSystemBios_of_not_fits m hfits]
    exact ⟨⟨image, rfl, rfl, hfits⟩, rfl⟩

theorem rejection?_eq_none_iff (m : Memory) (t : Transaction) :
    m.rejection? t = none ↔ m.Admits t := by
  cases t with
  | map handle start length => exact (m.settles_mapRegion handle start length).error?_eq_none_iff
  | allocate start b => exact (m.settles_allocate start b).error?_eq_none_iff
  | unmap start length => exact (m.settles_unmap start length).error?_eq_none_iff
  | replace old b => exact (m.settles_replaceBlock old b).error?_eq_none_iff
  | loadSystemBios image => exact (m.settles_loadSystemBios image).error?_eq_none_iff
  | _ => exact ⟨fun _ => trivial, fun _ => rfl⟩

theorem objects_of_rejection (h : m.rejection? t = some e) : m.Objects t e ∧ m.step t = m := by
  cases t with
  | map handle start length => exact (m.settles_mapRegion handle start length).of_error h
  | allocate start b => exact (m.settles_allocate start b).of_error h
  | unmap start length => exact (m.settles_unmap start length).of_error h
  | replace old b => exact (m.settles_replaceBlock old b).of_error h
  | loadSystemBios image => exact (m.settles_loadSystemBios image).of_error h
  | _ => cases h

/-! ## Runs -/

def accepted (m : Memory) : List Transaction → List Transaction
  | [] => []
  | t :: ts => if (m.rejection? t).isSome then m.accepted ts else t :: (m.step t).accepted ts

theorem run_accepted (m : Memory) (ts : List Transaction) : m.run (m.accepted ts) = m.run ts := by
  induction ts generalizing m with
  | nil => rfl
  | cons t ts ih =>
    unfold accepted
    split_ifs with hrejected
    · obtain ⟨e, he⟩ := Option.isSome_iff_exists.mp hrejected
      rw [run_cons, (objects_of_rejection he).2, ih]
    · rw [run_cons, run_cons, ih]

/-- Whatever the bus, a change of what is mapped where is rejected exactly if its arguments are
wrong. Then the error says what is wrong with them, and the bus is left as it is, in all its parts.
The image of the system BIOS is rejected only for its length. A run is the same without its rejected
changes. -/
theorem rejections_change_nothing (m : Memory) :
    (∀ t e, m.rejection? t = some e → m.step t = m ∧ m.Objects t e) ∧
    (∀ t, m.rejection? t = none ↔ m.Admits t) ∧
    (∀ image e, m.rejection? (.loadSystemBios image) = some e ↔
      (image.length = 0 ∨ 1048576 < image.length) ∧ e = .invalidRomImage image.length) ∧
    ∀ ts, m.run (m.accepted ts) = m.run ts := by
  refine ⟨fun t e h => (objects_of_rejection h).symm, m.rejection?_eq_none_iff, fun image e => ?_,
    m.run_accepted⟩
  have hlength : ¬FitsBios image ↔ image.length = 0 ∨ 1048576 < image.length := by
    unfold FitsBios systemBiosEnd
    rw [← List.length_pos_iff]
    omega
  rw [← hlength]
  by_cases hfits : FitsBios image
  · simp [rejection?, loadSystemBios_of_fits m hfits, error?, hfits]
  · simp [rejection?, loadSystemBios_of_not_fits m hfits, error?, hfits, eq_comm]

end Memory
end Mainboard
