import Mainboard.Proofs.Bytes.LittleEndian
import Mainboard.Proofs.History
import Mainboard.Proofs.Memory.Arena

/-!
# Code pages without storage

A code page has storage from its first store on until it is cleared as a whole; without storage it
stands for a page of zeros. So it can take the place of zeroed RAM, but for its end: RAM ends with
the page and floats behind it, while a page without storage has no end, and a clear that goes beyond
the end is made on a code page and ignored by RAM.
-/
namespace Mainboard

inductive BlockAccess
  | read (offset length : Nat)
  | readWord (offset width : Nat)
  | write (offset : Nat) (src : Bytes)
  | writeWord (offset width value : Nat)
  | clear
  | clearRange (offset length : Nat)
  deriving DecidableEq, Repr

inductive BlockAnswer
  | bytes (bs : Bytes)
  | word (value : Nat)
  | done
  deriving DecidableEq, Repr

namespace BlockAccess

@[simp] def stores : BlockAccess → Bool
  | .write _ _ => true
  | .writeWord _ _ _ => true
  | _ => false

@[simp] def clearsPage : BlockAccess → Bool
  | .clear => true
  | .clearRange offset length => offset = 0 ∧ blockSize ≤ length
  | _ => false

/-- The same access, but a clear from the start of a page on ends with the page. -/
def trimmed : BlockAccess → BlockAccess
  | .clearRange offset length =>
    .clearRange offset (if offset = 0 then min length blockSize else length)
  | a => a

def Inside : BlockAccess → Prop
  | .read offset length => length = 0 ∨ offset + length ≤ blockSize
  | .readWord offset width => width = 0 ∨ offset + width ≤ blockSize
  | _ => True

end BlockAccess

theorem LittleEndian.ofBytes_inj {bs bs' : Bytes} (hlength : bs.length = bs'.length) :
    ofBytes bs = ofBytes bs' ↔ bs = bs' := by
  refine ⟨fun h => ?_, congrArg ofBytes⟩
  rw [← toBytes_ofBytes bs, ← toBytes_ofBytes bs', hlength, h]

theorem length_zeroPage : zeroPage.length = blockSize := List.length_replicate

theorem Bytes.zeros_eq_window_zeroPage_iff {offset n : Nat} :
    zeros n = zeroPage.window offset n ↔ n = 0 ∨ offset + n ≤ blockSize := by
  have hwindow : zeroPage.window offset n =
      List.replicate (min n (4096 - offset)) 0 ++
        List.replicate (n - min n (4096 - offset)) 0xFF := by
    simp only [window, zeroPage, floating, List.drop_replicate, List.take_replicate,
      List.length_replicate]
  rw [hwindow, zeros_eq, blockSize]
  constructor
  · intro h
    by_contra hout
    -- the last byte floats
    have hmem : (0xFF : UInt8) ∈ List.replicate (min n (4096 - offset)) 0 ++
        List.replicate (n - min n (4096 - offset)) 0xFF :=
      List.mem_append_right _ (List.mem_replicate.mpr ⟨by omega, rfl⟩)
    rw [← h] at hmem
    exact absurd (List.mem_replicate.mp hmem).2 (by decide)
  · intro h
    have hall : min n (4096 - offset) = n := by omega
    rw [hall, Nat.sub_self, List.replicate_zero, List.append_nil]

namespace Block

variable (t : RegionTable)

def answer (b : Block) : BlockAccess → BlockAnswer
  | .read offset length => .bytes (b.read t offset length)
  | .readWord offset width => .word (LittleEndian.ofBytes (b.read t offset width))
  | _ => .done

def access (b : Block) : BlockAccess → Block × RegionTable
  | .read _ _ => (b, t)
  | .readWord _ _ => (b, t)
  | .write offset src => b.write t offset src
  | .writeWord offset width value => b.write t offset (LittleEndian.toBytes width value)
  | .clear => b.clear t
  | .clearRange offset length => b.clearRange t offset length

def accessAll (b : Block) (t : RegionTable) : List BlockAccess → Block × RegionTable
  | [] => (b, t)
  | a :: as => (b.access t a).1.accessAll (b.access t a).2 as

variable {t} {storage : Option Bytes}

theorem zeroInside_zeroPage (offset length : Nat) :
    zeroInside zeroPage offset length = zeroPage := by
  unfold zeroInside
  split_ifs
  · rw [Bytes.zeroed, length_zeroPage]
    exact if_pos rfl
  · apply List.ext_getElem?
    intro i
    rw [Bytes.getElem?_overwrite, Bytes.zeros_eq, List.length_replicate, length_zeroPage]
    split_ifs with hi
    · have hlt : i < 4096 := hi.2.2
      rw [zeroPage, List.getElem?_replicate_of_lt (by omega), List.getElem?_replicate_of_lt hlt]
    · rfl
  · rfl

theorem zeroInside_page {data : Bytes} (hlength : data.length = blockSize) :
    zeroInside data 0 blockSize = zeroPage := by
  unfold zeroInside Bytes.zeroed
  rw [hlength, if_pos (Nat.zero_add _).le, if_pos ⟨rfl, rfl⟩]
  rfl

theorem allocated_zeroInside (offset length : Nat) :
    allocated (storage.map fun data => zeroInside data offset length) =
      zeroInside (allocated storage) offset length := by
  cases storage with
  | none => exact (zeroInside_zeroPage offset length).symm
  | some data => rfl

/-- An access takes a code page and the RAM that it stands for to a code page and the RAM that it
stands for, if it is trimmed for RAM. -/
theorem access_code (hlength : (allocated storage).length = blockSize) (a : BlockAccess) :
    ∃ storage', (code storage).access t a = (.code storage', t) ∧
      (ram (allocated storage)).access t a.trimmed = (.ram (allocated storage'), t) ∧
      (allocated storage').length = blockSize ∧
      storage'.isSome = (a.stores || storage.isSome && !a.clearsPage) := by
  cases a with
  | read offset length => exact ⟨storage, rfl, rfl, hlength, by simp⟩
  | readWord offset width => exact ⟨storage, rfl, rfl, hlength, by simp⟩
  | write offset src => exact ⟨_, rfl, rfl, (Bytes.length_overwrite _ _ _).trans hlength, rfl⟩
  | writeWord offset width value =>
    exact ⟨_, rfl, rfl, (Bytes.length_overwrite _ _ _).trans hlength, rfl⟩
  | clear =>
    refine ⟨none, rfl, ?_, length_zeroPage, by simp⟩
    change (Block.ram (zeroInside _ 0 (allocated storage).length), t) = _
    rw [hlength, zeroInside_page hlength]
    rfl
  | clearRange offset length =>
    by_cases hpage : offset = 0 ∧ blockSize ≤ length
    · obtain ⟨rfl, hlong⟩ := hpage
      refine ⟨none, if_pos ⟨rfl, hlong⟩, ?_, length_zeroPage, ?_⟩
      · change (Block.ram (zeroInside _ 0 (if 0 = 0 then min length blockSize else length)), t) = _
        rw [if_pos rfl, min_eq_right hlong, zeroInside_page hlength]
        rfl
      · simp [hlong]
    · refine ⟨_, if_neg hpage, ?_, ?_, ?_⟩
      · have hshort : (if offset = 0 then min length blockSize else length) = length := by
          split_ifs <;> omega
        change (Block.ram
          (zeroInside _ offset (if offset = 0 then min length blockSize else length)), t) = _
        rw [hshort, allocated_zeroInside]
      · rw [allocated_zeroInside, length_zeroInside, hlength]
      · simp [hpage]

theorem accessAll_code (hlength : (allocated storage).length = blockSize) (as : List BlockAccess) :
    ∃ storage', (code storage).accessAll t as = (.code storage', t) ∧
      (ram (allocated storage)).accessAll t (as.map .trimmed) = (.ram (allocated storage'), t) ∧
      storage'.isSome = flagAfter BlockAccess.stores BlockAccess.clearsPage storage.isSome as := by
  induction as generalizing storage with
  | nil => exact ⟨storage, rfl, rfl, rfl⟩
  | cons a as ih =>
    obtain ⟨next, hcode, hram, hnext, hsome⟩ := access_code (t := t) hlength a
    obtain ⟨last, hcodes, hrams, hlast⟩ := ih hnext
    refine ⟨last, ?_, ?_, ?_⟩
    · rw [accessAll, hcode]
      exact hcodes
    · rw [List.map_cons, accessAll, hram]
      exact hrams
    · rw [hlast, hsome, flagAfter_cons]

/-- A code page answers like the RAM that it stands for, unless it has no storage and is read behind
its end. -/
theorem answer_code_iff (a : BlockAccess) :
    (code storage).answer t a = (ram (allocated storage)).answer t a ↔
    a.Inside ∨ storage.isSome = true := by
  cases storage with
  | some data =>
    refine iff_of_true ?_ (Or.inr rfl)
    cases a <;> rfl
  | none =>
    rw [Option.isSome_none, or_iff_left Bool.false_ne_true]
    cases a with
    | read offset length =>
      change BlockAnswer.bytes (.zeros length) = .bytes (zeroPage.window offset length) ↔ _
      rw [BlockAnswer.bytes.injEq]
      exact Bytes.zeros_eq_window_zeroPage_iff
    | readWord offset width =>
      change BlockAnswer.word (LittleEndian.ofBytes (.zeros width)) =
        .word (LittleEndian.ofBytes (zeroPage.window offset width)) ↔ _
      rw [BlockAnswer.word.injEq, LittleEndian.ofBytes_inj (by simp)]
      exact Bytes.zeros_eq_window_zeroPage_iff
    | _ => exact iff_of_true rfl trivial

theorem access_ram {data : Bytes} (hlength : data.length = blockSize) (a : BlockAccess) :
    ∃ data', (ram data).access t a = (.ram data', t) ∧ data'.length = blockSize ∧
      (a.trimmed ≠ a → data' = data) := by
  cases a with
  | read | readWord => exact ⟨data, rfl, hlength, fun _ => rfl⟩
  | write offset src =>
    exact ⟨_, rfl, (Bytes.length_overwrite _ _ _).trans hlength, fun h => absurd rfl h⟩
  | writeWord offset width value =>
    exact ⟨_, rfl, (Bytes.length_overwrite _ _ _).trans hlength, fun h => absurd rfl h⟩
  | clear => exact ⟨_, rfl, (length_zeroInside _ _ _).trans hlength, fun h => absurd rfl h⟩
  | clearRange offset length =>
    refine ⟨_, rfl, (length_zeroInside _ _ _).trans hlength, fun h => if_neg ?_⟩
    rw [hlength]
    intro hle
    refine h (congrArg (BlockAccess.clearRange offset) ?_)
    split_ifs <;> omega

theorem accessAll_ram_filter {data : Bytes} (hlength : data.length = blockSize)
    (as : List BlockAccess) :
    (ram data).accessAll t as = (ram data).accessAll t (as.filter fun a => a.trimmed = a) := by
  induction as generalizing data with
  | nil => rfl
  | cons a as ih =>
    obtain ⟨data', haccess, hlength', hsame⟩ := access_ram (t := t) hlength a
    rw [accessAll, haccess, ih hlength']
    by_cases htrimmed : a.trimmed = a
    · rw [List.filter_cons_of_pos (by simpa using htrimmed), accessAll, haccess]
    · rw [List.filter_cons_of_neg (by simpa using htrimmed), hsame htrimmed]

/-- After any accesses, a code page that started without storage answers like RAM that started with
zeros and has seen the same accesses with their clears trimmed, exactly if nothing is read from
behind the end of the page or the page has been stored into since it was last cleared as a whole.
RAM with the accesses themselves ignores the clears that are not trimmed; if there are none, page
and RAM see the same. -/
theorem lazy_page_answers_iff (t : RegionTable) (before : List BlockAccess) (a : BlockAccess) :
    let answer := (lazyCode.accessAll t before).1.answer t a
    let ram := fun as : List BlockAccess => (freshRam.accessAll t as).1
    let kept := a.Inside ∨ RaisedSince BlockAccess.stores BlockAccess.clearsPage false before
    (answer = (ram (before.map .trimmed)).answer t a ↔ kept) ∧
    ram before = ram (before.filter fun b => b.trimmed = b) ∧
    ((∀ b ∈ before, b.trimmed = b) → (answer = (ram before).answer t a ↔ kept)) := by
  intro answer ram kept
  have hlength : (allocated none).length = blockSize := length_zeroPage
  obtain ⟨storage, hcode, hram, hsome⟩ := accessAll_code (t := t) hlength before
  have htrimmed : answer = (ram (before.map .trimmed)).answer t a ↔ kept := by
    have hpage : (lazyCode.accessAll t before).1 = .code storage := congrArg Prod.fst hcode
    have hsame : ram (before.map .trimmed) = .ram (allocated storage) := congrArg Prod.fst hram
    unfold answer kept
    rw [hpage, hsame, answer_code_iff, hsome, flagAfter_iff]
    rfl
  refine ⟨htrimmed, congrArg Prod.fst (accessAll_ram_filter length_zeroPage before),
    fun hnone => ?_⟩
  rwa [List.map_congr_left hnone, List.map_id'] at htrimmed

/-- A clear that spares the last byte of a page leaves it its storage, so the two agree across its
end. -/
theorem stored_page_answers_as_ram :
    let t := RegionTable.ofRegions #[]
    let before : List BlockAccess := [.write 4094 [1, 2, 3], .clearRange 0 4095]
    (∀ b ∈ before, b.trimmed = b) ∧
      (lazyCode.accessAll t before).1.answer t (.readWord 4092 8) =
        (freshRam.accessAll t before).1.answer t (.readWord 4092 8) := by
  intro t before
  have htrimmed : ∀ b ∈ before, b.trimmed = b := by decide
  obtain ⟨-, -, hanswer⟩ := lazy_page_answers_iff t before (.readWord 4092 8)
  exact ⟨htrimmed, (hanswer htrimmed).mpr (Or.inr (Or.inl ⟨[], _, _, rfl, rfl, by decide⟩))⟩

/-- Without storage a page reads as zero behind its end, where RAM floats; and a clear that goes
beyond the end is seen even in what is read inside. -/
theorem lazy_page_visible :
    let t := RegionTable.ofRegions #[]
    (¬∀ before a, (lazyCode.accessAll t before).1.answer t a =
      (freshRam.accessAll t before).1.answer t a) ∧
    ¬∀ before a, a.Inside → (lazyCode.accessAll t before).1.answer t a =
      (freshRam.accessAll t before).1.answer t a := by
  intro t
  constructor
  · intro h
    have hbehind := h [] (.read 4096 1)
    revert hbehind
    decide +kernel
  · intro h
    have hinside := h [.write 0 [0x42], .clearRange 0 4097] (.read 0 1) (Or.inr (by decide))
    revert hinside
    decide +kernel

end Block
end Mainboard
