import Mainboard.Proofs.Interrupt.Cascade
import Mainboard.Proofs.Memory.Restore
import Mainboard.Proofs.Snapshot.Codec
import Mainboard.Proofs.Snapshot.Container

/-!
# A saved pair is restored

A snapshot says neither which place a chip has nor which of its lines have a trigger mode that can
be chosen. Every operation, restores of arbitrary bytes included, leaves each chip in its place and
all other lines edge triggered, so nothing is lost: the pair is read back register by register.
-/
namespace Mainboard

open Decode

namespace Chip

/-- The chip is in its place of the pair, and only lines whose trigger mode can be chosen there are
level triggered. -/
structure Fits (c : Chip) (role : Role) : Prop where
  role_eq : c.role = role
  trigger : c.levelTriggered &&& role.triggerMask = c.levelTriggered

variable {c chip : Chip} {role : Role}

theorem Fits.congr (h : c.Fits role) (hrole : chip.role = c.role)
    (htrigger : chip.levelTriggered = c.levelTriggered) : chip.Fits role where
  role_eq := hrole.trans h.role_eq
  trigger := by rw [htrigger, h.trigger]

theorem fits_new (role : Role) : (new role).Fits role where
  role_eq := rfl
  trigger := by cases role <;> rfl

theorem Fits.setLine (h : c.Fits role) (l : Line) (level : Bool) :
    (c.setLine l level).Fits role := by
  obtain ⟨requests, levels, heq⟩ := c.setLine_eq l level
  rw [heq]
  exact h.congr rfl rfl

theorem Fits.pulse (h : c.Fits role) (l : Line) : (c.pulse l).Fits role :=
  (h.setLine l true).setLine l false

theorem Fits.acknowledge (h : c.Fits role) (l : Line) : (c.acknowledge l).Fits role := by
  unfold Chip.acknowledge
  dsimp only
  split_ifs <;> exact h.congr rfl rfl

theorem Fits.endLine (h : c.Fits role) (l : Line) (rotate : Bool) :
    (c.endLine l rotate).Fits role := by
  unfold Chip.endLine
  dsimp only
  split_ifs <;> exact h.congr rfl rfl

theorem Fits.initWord (h : c.Fits role) (value : UInt8) : (c.initWord value).Fits role := by
  unfold Chip.initWord
  split
  · exact h
  all_goals exact h.congr rfl rfl

theorem and_triggerMask (s : LineSet) (role : Role) :
    s &&& role.triggerMask &&& role.triggerMask = s &&& role.triggerMask := by
  rw [BitVec.and_assoc, BitVec.and_self]

theorem Fits.setTrigger (h : c.Fits role) (value : UInt8) : (c.setTrigger value).Fits role where
  role_eq := h.role_eq
  trigger := by
    unfold Chip.setTrigger
    dsimp only
    rw [h.role_eq, and_triggerMask]

theorem decode_yields (role : Role) : (decode role).Yields fun c => c.Fits role := by
  unfold decode
  iterate 15 refine (yields_true _).bind fun _ _ => ?_
  exact yields_pure ⟨rfl, and_triggerMask _ role⟩

/-! ## The registers of a chip -/

theorem ofByte_toByte (state : InitState) : InitState.ofByte state.toByte = state := by
  cases state <;> rfl

theorem reads_decode (h : c.Fits role) : (decode role).Reads c.encode c := by
  have hrotation : Fin.ofNat 8 (UInt8.ofNat c.rotation.val).toNat = c.rotation := by
    have hlt := c.rotation.isLt
    apply Fin.ext
    change (UInt8.ofNat c.rotation.val).toNat % 8 = c.rotation.val
    rw [UInt8.toNat_ofNat']
    omega
  unfold decode encode
  simp only [List.append_assoc]
  refine (reads_u8 _).bind ((reads_u8 _).bind ((reads_u8 _).bind ((reads_u8 _).bind ?_)))
  refine (reads_u8 _).bind ((reads_u8 _).bind ((reads_bool _).bind ((reads_bool _).bind ?_)))
  refine (reads_bool _).bind ((reads_u8 _).bind ((reads_bool _).bind ((reads_bool _).bind ?_)))
  refine (reads_bool _).bind ((reads_bool _).bind ((reads_u8 _).bind_last ?_))
  -- What is not in the bytes, or reduced when they are read, is as it was in a chip that fits.
  have hchip : { c with
      role := role
      rotation := Fin.ofNat 8 (UInt8.ofNat c.rotation.val).toNat
      initState := .ofByte c.initState.toByte
      levelTriggered := c.levelTriggered &&& role.triggerMask } = c := by
    rw [hrotation, ofByte_toByte, h.trigger, ← h.role_eq]
  change (pure { c with
    role := role
    rotation := Fin.ofNat 8 (UInt8.ofNat c.rotation.val).toNat
    initState := .ofByte c.initState.toByte
    levelTriggered := c.levelTriggered &&& role.triggerMask } : Decode Chip).Reads [] c
  rw [hchip]
  exact reads_pure c

end Chip

namespace Controller

def Fit (c : Controller) : Prop := ∀ role, (c.chip role).Fits role

variable {c : Controller} {role : Role} {chip : Chip}

theorem fit_new : new.Fit := by
  intro role
  cases role <;> exact Chip.fits_new _

theorem Fit.setChip (h : c.Fit) (hchip : chip.Fits role) : (c.setChip role chip).Fit :=
  forall_chip_setChip (P := fun r chip => chip.Fits r) h hchip

theorem Fit.update (h : c.Fit) : c.update.Fit :=
  forall_chip_update (P := fun r chip => chip.Fits r) h ((h .master).pulse cascadeLine)

theorem Fit.latches (h : c.Fit) (intrRaise intrClear : Bool) :
    { c with intrRaise := intrRaise, intrClear := intrClear }.Fit :=
  forall_chip_latches (P := fun r chip => chip.Fits r) h intrRaise intrClear

theorem Fit.setIrq (h : c.Fit) (line : Nat) (level : Bool) : (c.setIrq line level).Fit := by
  unfold Controller.setIrq
  split_ifs
  · exact (h.setChip ((h .master).setLine _ level)).update
  · exact (h.setChip ((h .slave).setLine _ level)).update
  · exact h

theorem Fit.acknowledge (h : c.Fit) : c.acknowledge.2.Fit := by
  unfold Controller.acknowledge
  apply Fit.update
  cases c.master.pending? with
  | none => exact h
  | some l =>
    have hmaster : (c.setChip .master (c.master.acknowledge l)).Fit :=
      h.setChip ((h .master).acknowledge l)
    dsimp only
    split_ifs
    · unfold acknowledgeSlave
      dsimp only
      cases c.slave.pending? with
      | none => exact hmaster
      | some s => exact hmaster.setChip ((h .slave).acknowledge s)
    · exact hmaster

theorem Fit.drop (h : c.Fit) (role : Role) (l : Line) :
    (c.setChip role ((c.chip role).drop l)).Fit := by
  apply h.setChip
  exact (h role).congr rfl rfl

theorem Fit.pollRead (h : c.Fit) (role : Role) : (c.pollRead role).2.Fit := by
  cases hl : (c.chip role).pending? with
  | none =>
    rw [pollRead_of_none hl]
    exact h.update
  | some l =>
    cases role with
    | slave =>
      rw [pollRead_slave hl]
      exact ((h.drop .master cascadeLine).drop .slave l).update
    | master =>
      have hrole : Role.master ≠ .slave := nofun
      unfold Controller.pollRead
      rw [hl]
      simp only [hrole, if_false, false_or]
      split_ifs
      · exact (h.drop .master l).update
      · exact h.drop .master l

theorem Fit.readChip (h : c.Fit) (role : Role) (register : Chip → UInt8) :
    (c.readChip role register).2.Fit := by
  unfold Controller.readChip
  split_ifs
  · have hpoll := h.pollRead role
    exact hpoll.setChip ((hpoll role).congr rfl rfl)
  · exact h

theorem Fit.readPort (h : c.Fit) (port : UInt16) : (c.readPort port).2.Fit := by
  unfold Controller.readPort
  split
  · exact h.readChip _ _
  · exact h.readChip _ _
  · exact h
  · exact h

theorem Fit.execute (h : c.Fit) (role : Role) (command : Command) :
    (c.execute role command).Fit := by
  have hrole := h role
  unfold Controller.execute
  cases command with
  | initialise fourWords =>
    apply Fit.latches
    apply h.setChip
    unfold Chip.initialise
    rw [hrole.role_eq]
    exact (Chip.fits_new role).congr rfl rfl
  | configure poll shown specialMask => exact h.setChip (hrole.congr rfl rfl)
  | rotateOnAutoEnd enabled => exact h.setChip (hrole.congr rfl rfl)
  | endHighest rotate =>
    dsimp only
    split
    · exact (h.setChip (hrole.endLine _ _)).update
    · exact h
  | endLine l rotate => exact (h.setChip (hrole.endLine _ _)).update
  | setLowest l =>
    apply Fit.update
    apply h.setChip
    exact hrole.congr rfl rfl
  | nothing => exact h

theorem Fit.writeData (h : c.Fit) (role : Role) (value : UInt8) : (c.writeData role value).Fit := by
  unfold Controller.writeData
  dsimp only
  split_ifs
  · apply Fit.update
    apply h.setChip
    exact (h role).congr rfl rfl
  · exact h.setChip ((h role).initWord value)

theorem Fit.writePort (h : c.Fit) (port : UInt16) (value : UInt8) :
    (c.writePort port value).Fit := by
  unfold Controller.writePort
  cases Register.ofPort? port with
  | none => exact h
  | some register =>
    cases register with
    | command role => exact h.execute role _
    | data role => exact h.writeData role value
    | trigger role => exact h.setChip ((h role).setTrigger value)

theorem Fit.initLegacy (h : c.Fit) (masterBase slaveBase : UInt8) :
    (c.initLegacy masterBase slaveBase).Fit :=
  List.foldlRecOn _ _ h fun _ hc word _ => Fit.writePort hc word.1 word.2

theorem fits_restoreChip (h : chip.Fits role) {r : Container} {tag : UInt16} {restored : Chip}
    (hrestore : restoreChip chip r tag = .ok restored) : restored.Fits role := by
  unfold restoreChip at hrestore
  split at hrestore
  · cases hrestore
    exact h
  · rw [h.role_eq] at hrestore
    exact (Chip.decode_yields role).parse hrestore

theorem Fit.restored (h : c.Fit) {input : Bytes} {next : Controller}
    (hrestored : c.restored input = .ok next) : next.Fit := by
  simp only [Controller.restored, except_bind_eq_ok_iff] at hrestored
  obtain ⟨_, -, master, hmaster, slave, hslave, _, -, _, -, hnext⟩ := hrestored
  cases hnext
  intro role
  cases role with
  | master => exact fits_restoreChip (h .master) hmaster
  | slave => exact fits_restoreChip (h .slave) hslave

theorem Fit.step (h : c.Fit) (op : Operation) : (c.step op).Fit := by
  cases op with
  | setIrq line level => exact h.setIrq line level
  | acknowledge => exact h.acknowledge
  | readPort port => exact h.readPort port
  | writePort port value => exact h.writePort port value
  | takeRaise => exact h.latches false c.intrClear
  | takeClear => exact h.latches c.intrRaise false
  | initLegacy masterBase slaveBase => exact h.initLegacy masterBase slaveBase
  | reset => exact fit_new
  | load input =>
    unfold Controller.step Controller.load
    dsimp only
    cases hrestored : c.restored input with
    | ok next => exact h.restored hrestored
    | error e => exact h

/-! ## Saving and restoring -/

theorem wellFormed_toContainer (c : Controller) : c.toContainer.WellFormed := by
  have hchip : ∀ chip : Chip, chip.encode.length < 256 ^ 4 :=
    fun chip => by simp [Chip.encode, Encode.u8]
  have hflag : ∀ v : Bool, (Encode.bool v).length < 256 ^ 4 := by simp
  exact (Container.wellFormed_empty deviceId deviceVersion).set _ (hchip _) |>.set _ (hchip _)
    |>.set _ (hflag _) |>.set _ (hflag _)

theorem length_save_lt (c : Controller) : c.save.length < 256 ^ 4 := by
  have hchip : ∀ chip : Chip, chip.encode.length ≤ 15 :=
    fun chip => by simp [Chip.encode, Encode.u8]
  have hflag : ∀ v : Bool, (Encode.bool v).length ≤ 1 := fun v => (Encode.length_bool v).le
  have hempty := (Container.length_encode_empty deviceId deviceVersion).le
  have hsave := Container.length_encode_set_le hempty Tag.master (hchip c.master)
    |> (Container.length_encode_set_le · Tag.slave (hchip c.slave))
    |> (Container.length_encode_set_le · Tag.intrRaise (hflag c.intrRaise))
    |> (Container.length_encode_set_le · Tag.intrClear (hflag c.intrClear))
  exact hsave.trans_lt (by decide)

theorem restoreChip_of_bytes (hpresent : c.Fit) (hchip : chip.Fits role) {r : Container}
    {tag : UInt16}
    (hbytes : r.bytes tag = some chip.encode) : restoreChip (c.chip role) r tag = .ok chip := by
  unfold restoreChip
  rw [hbytes, (hpresent role).role_eq]
  exact (Chip.reads_decode hchip).parse

/-- A pair that fits is restored as it was, onto every pair that fits. -/
theorem restored_save {present : Controller} (h : c.Fit) (hpresent : present.Fit) :
    present.restored c.save = .ok c := by
  have hparse : Container.parseFor c.save deviceId deviceVersion = .ok c.toContainer :=
    Container.parseFor_encode c.wellFormed_toContainer rfl
  have hmaster : restoreChip present.master c.toContainer Tag.master = .ok c.master :=
    restoreChip_of_bytes hpresent (h .master) rfl
  have hslave : restoreChip present.slave c.toContainer Tag.slave = .ok c.slave :=
    restoreChip_of_bytes hpresent (h .slave) rfl
  have hraise : c.toContainer.bool Tag.intrRaise = .ok (some c.intrRaise) :=
    Container.bool_of_bytes rfl
  have hclear : c.toContainer.bool Tag.intrClear = .ok (some c.intrClear) :=
    Container.bool_of_bytes rfl
  simp only [restored, bind, Except.bind, hparse, hmaster, hslave, hraise, hclear]
  rfl

end Controller
end Mainboard
