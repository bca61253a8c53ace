import Mainboard.Proofs.Interrupt.SavedPair
import Mainboard.Proofs.Snapshot.Payload

/-!
# What a snapshot says of the pair

Not every byte that may stand in a payload is a value of the register that it stands for: the
rotation has three bits, the initialisation has four states, and some lines have no trigger mode to
choose. Such bytes are accepted and reduced. So a payload may be spelled in several ways, but it
says one thing of a chip, and what it says is always a chip as the operations leave it.
-/
namespace Mainboard

open Decode

namespace Chip

/-- The chip is in its place, and the registers that are reduced on reading have nothing to reduce.
-/
structure InRange (c : Chip) (role : Role) : Prop extends c.Fits role where
  rotation_le : c.rotation.val ≤ 7
  initState_le : c.initState.toByte ≤ 3

/-- The payload of a chip with any bytes in the places of the three registers that are reduced. -/
def spelling (c : Chip) (rotation initState levelTriggered : UInt8) : Bytes :=
  Encode.u8 (.ofBitVec c.levels) ++ Encode.u8 (.ofBitVec c.requests) ++
    Encode.u8 (.ofBitVec c.mask) ++ Encode.u8 (.ofBitVec c.inService) ++
    Encode.u8 rotation ++ Encode.u8 c.vectorBase ++
    Encode.bool c.showInService ++ Encode.bool c.poll ++ Encode.bool c.specialMask ++
    Encode.u8 initState ++ Encode.bool c.autoEnd ++ Encode.bool c.rotateOnAutoEnd ++
    Encode.bool c.specialFullyNested ++ Encode.bool c.fourWords ++
    Encode.u8 levelTriggered

/-- The payload says of the chip in this place that it has these registers: of the rotation the low
three bits count, initialisation states past the last one are the last one, and lines whose trigger
mode cannot be chosen are edge triggered. -/
def Spelled (c : Chip) (role : Role) (payload : Bytes) : Prop :=
  ∃ rotation initState levelTriggered : UInt8,
    payload = c.spelling rotation initState levelTriggered ∧ c.role = role ∧
    c.rotation.val = rotation.toNat % 8 ∧ c.initState.toByte.toNat = min initState.toNat 3 ∧
    c.levelTriggered = levelTriggered.toBitVec &&& role.triggerMask

/-- What a payload, if there is one, says of the chip after a restore onto the present one. -/
def Described (c present : Chip) : Option Bytes → Prop
  | none => c = present
  | some payload => c.Spelled present.role payload

variable {c present : Chip} {role : Role} {payload : Bytes}

theorem Fits.inRange (h : c.Fits role) : c.InRange role where
  toFits := h
  rotation_le := Nat.le_of_lt_succ c.rotation.isLt
  initState_le := by cases c.initState <;> decide

theorem toNat_toByte_ofByte (value : UInt8) :
    (InitState.ofByte value).toByte.toNat = min value.toNat 3 := by
  unfold InitState.ofByte
  split
  · rename_i h
    rw [h]
    rfl
  · rename_i h
    rw [h]
    rfl
  · rename_i h
    rw [h]
    rfl
  · rename_i h₀ h₁ h₂
    have hle : 3 ≤ value.toNat := by
      have hne : value.toNat ≠ 0 ∧ value.toNat ≠ 1 ∧ value.toNat ≠ 2 := ⟨h₀, h₁, h₂⟩
      omega
    exact (Nat.min_eq_right hle).symm

theorem ofByte_eq_iff {state : InitState} {value : UInt8} :
    InitState.ofByte value = state ↔ state.toByte.toNat = min value.toNat 3 := by
  constructor
  · rintro rfl
    exact toNat_toByte_ofByte value
  · intro h
    have hbyte : (InitState.ofByte value).toByte = state.toByte :=
      UInt8.toNat_inj.mp ((toNat_toByte_ofByte value).trans h.symm)
    rw [← ofByte_toByte (.ofByte value), hbyte, ofByte_toByte]

theorem ofNat_eq_iff {l : Line} {value : UInt8} :
    Fin.ofNat 8 value.toNat = l ↔ l.val = value.toNat % 8 := by
  rw [Fin.ext_iff, eq_comm]
  rfl

/-- A payload is accepted for a place exactly if it says what the registers are of a chip there. -/
theorem parse_decode_eq_ok_iff : (decode role).parse payload = .ok c ↔ c.Spelled role payload := by
  rw [parse_eq_ok_iff]
  simp only [decode, bind_eq_ok_iff, pure_eq_ok_iff, u8_eq_ok_iff, bool_eq_ok_iff]
  constructor
  · rintro ⟨levels, _, rfl, requests, _, rfl, mask, _, rfl, inService, _, rfl, rotation, _, rfl,
      vectorBase, _, rfl, showInService, _, rfl, poll, _, rfl, specialMask, _, rfl,
        initState, _, rfl,
      autoEnd, _, rfl, rotateOnAutoEnd, _, rfl, specialFullyNested, _, rfl, fourWords, _, rfl,
      levelTriggered, _, rfl, rfl, rfl⟩
    refine ⟨rotation, initState, levelTriggered, ?_, rfl, rfl, toNat_toByte_ofByte initState, rfl⟩
    simp only [spelling, List.append_assoc, List.append_nil, UInt8.ofBitVec_toBitVec]
  · rintro ⟨rotation, initState, levelTriggered, rfl, rfl, hrotation, hstate, htriggers⟩
    have hchip : { c with
        rotation := Fin.ofNat 8 rotation.toNat
        initState := .ofByte initState
        levelTriggered := levelTriggered.toBitVec &&& c.role.triggerMask } = c := by
      rw [ofNat_eq_iff.mpr hrotation, ofByte_eq_iff.mpr hstate, ← htriggers]
    simp only [spelling, List.append_assoc]
    refine ⟨_, _, rfl, _, _, rfl, _, _, rfl, _, _, rfl, _, _, rfl, _, _, rfl, _, _, rfl, _, _, rfl,
      _, _, rfl, _, _, rfl, _, _, rfl, _, _, rfl, _, _, rfl, _, _, rfl, _, [], ?_, hchip, rfl⟩
    exact (List.append_nil _).symm

end Chip

/-! ## The pair -/

namespace Controller

/-- What an input says of the pair after a restore onto the present one: a latch without a payload
is empty. -/
structure DescribedBy (c present : Controller) (r : Container) : Prop where
  master : c.master.Described present.master (r.bytes Tag.master)
  slave : c.slave.Described present.slave (r.bytes Tag.slave)
  intrRaise : ∃ latch : Option Bool, r.bytes Tag.intrRaise = latch.map Encode.bool ∧
    c.intrRaise = latch.getD false
  intrClear : ∃ latch : Option Bool, r.bytes Tag.intrClear = latch.map Encode.bool ∧
    c.intrClear = latch.getD false

def InRange (c : Controller) : Prop := ∀ role, (c.chip role).InRange role

variable {c present next : Controller} {input : Bytes}

theorem inRange_iff_fit : c.InRange ↔ c.Fit :=
  ⟨fun h role => (h role).toFits, fun h role => (h role).inRange⟩

theorem restoreChip_eq_ok_iff {r : Container} {tag : UInt16} {chip target : Chip} :
    restoreChip target r tag = .ok chip ↔ chip.Described target (r.bytes tag) := by
  unfold restoreChip
  cases r.bytes tag with
  | none => exact ⟨fun h => by cases h; rfl, fun h => by cases h; rfl⟩
  | some payload => exact Chip.parse_decode_eq_ok_iff

theorem restored_eq_ok_iff : present.restored input = .ok c ↔
    ∃ r, Container.parseFor input deviceId deviceVersion = .ok r ∧ c.DescribedBy present r := by
  unfold restored
  simp only [except_bind_eq_ok_iff, restoreChip_eq_ok_iff, Container.bool_eq_ok_iff]
  constructor
  · rintro ⟨r, hparse, master, hmaster, slave, hslave, raise, hraise, clear, hclear, hc⟩
    cases hc
    exact ⟨r, hparse, hmaster, hslave, ⟨raise, hraise, rfl⟩, ⟨clear, hclear, rfl⟩⟩
  · rintro ⟨r, hparse, hmaster, hslave, ⟨raise, hraise, hlatch⟩, ⟨clear, hclear, hlatch'⟩⟩
    refine ⟨r, hparse, c.master, hmaster, c.slave, hslave, raise, hraise, clear, hclear, ?_⟩
    rw [← hlatch, ← hlatch']
    rfl

theorem load_eq_ok_iff : present.load input = .ok () c ↔
    ∃ r, Container.parseFor input deviceId deviceVersion = .ok r ∧ c.DescribedBy present r := by
  rw [← restored_eq_ok_iff]
  unfold load
  cases present.restored input <;> simp

theorem eq_of_load_eq_error {e : SnapshotError} (h : present.load input = .error e c) :
    c = present := by
  unfold load at h
  split at h
  · cases h
  · cases h
    rfl

theorem Fit.run (h : c.Fit) (ops : List Operation) : (c.run ops).Fit :=
  List.foldlRecOn ops Controller.step h fun _ hc op _ => Fit.step hc op

/-- A pair that operations have led to is restored as it was, in every register and both latches,
onto any other such pair. Both chips are in range after any operation on a pair where they are, and
so after a restore of any input that is accepted. The accepted inputs are those that describe a
pair, and the pair is the one described; an input that describes none leaves the present one as it
is. -/
theorem saved_pair_faithful (ops ops' : List Operation) :
    let saved := new.run ops
    let present := new.run ops'
    present.load saved.save = .ok () saved ∧ saved.InRange ∧
    (∀ (c : Controller) (op : Operation), c.InRange → (c.step op).InRange) ∧
    ∀ input,
      (∀ next, present.load input = .ok () next ↔
        ∃ r, Container.parseFor input deviceId deviceVersion = .ok r ∧ next.DescribedBy present r) ∧
      (∀ next, present.load input = .ok () next → next.InRange) ∧
      ∀ e next, present.load input = .error e next → next = present := by
  have hsaved : (new.run ops).Fit := fit_new.run ops
  have hpresent : (new.run ops').Fit := fit_new.run ops'
  refine ⟨?_, inRange_iff_fit.mpr hsaved, fun c op h => ?_,
    fun input => ⟨fun next => load_eq_ok_iff, ?_, ?_⟩⟩
  · unfold load
    rw [restored_save hsaved hpresent]
  · exact inRange_iff_fit.mpr ((inRange_iff_fit.mp h).step op)
  · intro next hload
    exact inRange_iff_fit.mpr (hpresent.restored (restored_eq_ok_iff.mpr (load_eq_ok_iff.mp hload)))
  · exact fun e next => eq_of_load_eq_error

end Controller
end Mainboard
