import Mainboard.Memory.Region
import Mainboard.Proofs.Bytes.Word

/-!
# Device memory as an array of bytes

A region stores the bytes that have been written, and it seems to hold an array of all of them: an
access that ends inside of the region does to this array what it does to any list of bytes, and one
that does not is refused and changes nothing. Where an access ends is a sum of numbers. A device
that adds in 64-bit words, and refuses what does not fit, refuses the same accesses with the same
error. Clearing a range is writing zeros to it.
-/
namespace Mainboard

theorem Bytes.overwrite_nil (data : Bytes) (offset : Nat) : data.overwrite offset [] = data := by
  simp [overwrite]

namespace Region

variable {r r' : Region}

/-! ## What an access does to the bytes -/

theorem size_write {offset : Nat} {src : Bytes} (h : r.write offset src = .ok r') :
    r'.size = r.size := by
  unfold write guarded at h
  split_ifs at h
  cases h
  rfl

theorem size_clearRange {offset length : Nat} (h : r.clearRange offset length = .ok r') :
    r'.size = r.size := by
  unfold clearRange guarded at h
  split_ifs at h
  cases h
  rfl

theorem byte_write {offset : Nat} {src : Bytes} (h : r.write offset src = .ok r') (i : Nat) :
    r'.byte i = if offset ≤ i ∧ i < offset + src.length then src.getD (i - offset) 0
      else r.byte i := by
  unfold write guarded at h
  split_ifs at h
  cases h
  exact getD_store _ _ _ _

theorem byte_clearRange {offset length : Nat} (h : r.clearRange offset length = .ok r') (i : Nat) :
    r'.byte i = if offset ≤ i ∧ i < offset + length then 0 else r.byte i := by
  unfold clearRange guarded at h
  split_ifs at h
  cases h
  unfold byte
  rw [Std.TreeMap.getD_eq_getD_getElem?, Std.TreeMap.getElem?_filter']
  split_ifs with hin
  · have hdropped : (decide (i < offset) || decide (offset + length ≤ i)) = false := by
      simp [hin.1, hin.2]
    cases r.cells[i]? <;> simp [Option.filter, hdropped]
  · have hkept : (decide (i < offset) || decide (offset + length ≤ i)) = true := by
      simp only [Bool.or_eq_true, decide_eq_true_eq]
      omega
    rw [Std.TreeMap.getD_eq_getD_getElem?]
    cases r.cells[i]? <;> simp [Option.filter, hkept]

/-! ## The bytes as an array -/

def contents (r : Region) : Bytes := (List.range r.size).map r.byte

@[simp] theorem length_contents (r : Region) : r.contents.length = r.size := by
  simp [contents]

theorem getElem?_contents (r : Region) (i : Nat) :
    r.contents[i]? = if i < r.size then some (r.byte i) else none := by
  unfold contents
  split_ifs with hi
  · simp [hi]
  · simp [not_lt.mp hi]

theorem contents_zeroed (size : Nat) : (zeroed size).contents = List.replicate size 0 := by
  refine List.eq_replicate_iff.mpr ⟨length_contents _, fun b hb => ?_⟩
  obtain ⟨i, -, rfl⟩ := List.mem_map.mp hb
  exact byte_zeroed size i

theorem read_eq {offset length : Nat} (h : offset + length ≤ r.size) :
    r.read offset length = .ok ((r.contents.drop offset).take length) := by
  have hbytes : (List.range length).map (fun i => r.byte (offset + i)) =
      (r.contents.drop offset).take length := by
    apply List.ext_getElem?
    intro i
    rw [List.getElem?_take, List.getElem?_drop, getElem?_contents]
    split_ifs with hi hin
    · simp [hi]
    · omega
    · simp [not_lt.mp hi]
  rw [← hbytes]
  exact if_pos h

theorem contents_eq_overwrite {offset : Nat} {src : Bytes} (hsize : r'.size = r.size)
    (hbyte : ∀ i, r'.byte i = if offset ≤ i ∧ i < offset + src.length then src.getD (i - offset) 0
      else r.byte i) : r'.contents = r.contents.overwrite offset src := by
  apply List.ext_getElem?
  intro i
  rw [Bytes.getElem?_overwrite, getElem?_contents, getElem?_contents, hbyte, hsize, length_contents]
  by_cases hi : i < r.size
  · by_cases hin : offset ≤ i ∧ i < offset + src.length
    · have hlt : i - offset < src.length := by omega
      rw [if_pos hi, if_pos hin, if_pos ⟨hin.1, hin.2, hi⟩, List.getD_eq_getElem?_getD,
        List.getElem?_eq_getElem hlt, Option.getD_some]
    · rw [if_pos hi, if_neg hin, if_neg fun h => hin ⟨h.1, h.2.1⟩, if_pos hi]
  · rw [if_neg hi, if_neg fun h => hi h.2.2, if_neg hi]

theorem contents_write {offset : Nat} {src : Bytes} (h : r.write offset src = .ok r') :
    r'.contents = r.contents.overwrite offset src :=
  contents_eq_overwrite (size_write h) (byte_write h)

theorem contents_clearRange {offset length : Nat} (h : r.clearRange offset length = .ok r') :
    r'.contents = r.contents.overwrite offset (List.replicate length 0) := by
  apply contents_eq_overwrite (size_clearRange h)
  intro i
  rw [byte_clearRange h, List.length_replicate]
  split_ifs with hin
  · rw [List.getD_eq_getElem?_getD, List.getElem?_replicate_of_lt (by omega), Option.getD_some]
  · rfl

end Region

/-! ## Runs of accesses -/

/-- A byte string that a buffer can hold: its length is a 64-bit word. -/
abbrev Buffer := { bs : Bytes // bs.length < 2 ^ 64 }

/-- What can be done to a region, with offsets and lengths that are 64-bit words. A range is cleared
in one go or by writing zeros. -/
inductive RegionAccess
  | read (offset length : BitVec 64)
  | readWord (offset width : BitVec 64)
  | write (offset : BitVec 64) (src : Buffer)
  | writeWord (offset width : BitVec 64) (value : Nat)
  | clearRange (offset length : BitVec 64)
  | clearRangeByWriting (offset length : BitVec 64)

inductive RegionAnswer
  | bytes (bs : Bytes)
  | word (value : Nat)
  | done
  deriving DecidableEq, Repr

namespace Region

def settle (r : Region) : Except RegionError Region → Except RegionError RegionAnswer × Region
  | .ok r' => (.ok .done, r')
  | .error e => (.error e, r)

def perform (r : Region) : RegionAccess → Except RegionError RegionAnswer × Region
  | .read offset length => ((r.read offset.toNat length.toNat).map .bytes, r)
  | .readWord offset width => ((r.readWord offset.toNat width.toNat).map .word, r)
  | .write offset src => r.settle (r.write offset.toNat src)
  | .writeWord offset width value => r.settle (r.writeWord offset.toNat width.toNat value)
  | .clearRange offset length => r.settle (r.clearRange offset.toNat length.toNat)
  | .clearRangeByWriting offset length => r.settle (r.clearRangeByWriting offset.toNat length.toNat)

def performAll (r : Region) (as : List RegionAccess) : Region :=
  as.foldl (fun r a => (r.perform a).2) r

end Region

namespace RegionAccess

def offset : RegionAccess → BitVec 64
  | .read offset _ | .readWord offset _ | .write offset _ | .writeWord offset _ _
  | .clearRange offset _ | .clearRangeByWriting offset _ => offset

def length : RegionAccess → BitVec 64
  | .read _ length | .readWord _ length | .writeWord _ length _
  | .clearRange _ length | .clearRangeByWriting _ length => length
  | .write _ src => BitVec.ofNat 64 src.val.length

def Inside (a : RegionAccess) (size : Nat) : Prop := a.offset.toNat + a.length.toNat ≤ size

instance (a : RegionAccess) (size : Nat) : Decidable (a.Inside size) :=
  inferInstanceAs (Decidable (_ ≤ _))

def refusal (a : RegionAccess) (size : Nat) : RegionError :=
  .outOfRange a.offset.toNat a.length.toNat size

def stored : RegionAccess → Bytes
  | .read _ _ | .readWord _ _ => []
  | .write _ src => src
  | .writeWord _ width value => LittleEndian.toBytes width.toNat value
  | .clearRange _ length | .clearRangeByWriting _ length => List.replicate length.toNat 0

def answerOn (data : Bytes) : RegionAccess → RegionAnswer
  | .read offset length => .bytes ((data.drop offset.toNat).take length.toNat)
  | .readWord offset width =>
    .word (LittleEndian.ofBytes ((data.drop offset.toNat).take width.toNat))
  | _ => .done

def effectOn (data : Bytes) (a : RegionAccess) : Bytes := data.overwrite a.offset.toNat a.stored

def applyTo (data : Bytes) (a : RegionAccess) : Bytes :=
  if a.Inside data.length then a.effectOn data else data

theorem length_foldl_applyTo (data : Bytes) (as : List RegionAccess) :
    (as.foldl applyTo data).length = data.length := by
  induction as generalizing data with
  | nil => rfl
  | cons a as ih =>
    rw [List.foldl_cons, ih]
    unfold applyTo
    split_ifs
    · exact Bytes.length_overwrite _ _ _
    · rfl

end RegionAccess

namespace Region

variable {r : Region} {a : RegionAccess}

/-- A change of a region is the effect of the access on the array, or the refusal of the access. -/
structure Changes (r : Region) (a : RegionAccess) (result : Except RegionError Region) : Prop where
  inside : a.Inside r.size → ∃ r', result = .ok r' ∧ r'.contents = a.effectOn r.contents
  outside : ¬a.Inside r.size → result = .error (a.refusal r.size)

theorem changes_write (hlength : a.length.toNat = a.stored.length) :
    r.Changes a (r.write a.offset.toNat a.stored) := by
  have hguard : a.Inside r.size ↔ a.offset.toNat + a.stored.length ≤ r.size := by
    rw [RegionAccess.Inside, hlength]
  constructor
  · intro h
    obtain ⟨r', hwrite⟩ : ∃ r', r.write a.offset.toNat a.stored = .ok r' :=
      ⟨_, if_pos (hguard.mp h)⟩
    exact ⟨r', hwrite, contents_write hwrite⟩
  · intro h
    rw [RegionAccess.refusal, hlength]
    exact if_neg (mt hguard.mpr h)

theorem changes_clearRange (offset length : BitVec 64) :
    r.Changes (.clearRange offset length) (r.clearRange offset.toNat length.toNat) := by
  constructor
  · intro h
    obtain ⟨r', hclear⟩ : ∃ r', r.clearRange offset.toNat length.toNat = .ok r' := ⟨_, if_pos h⟩
    exact ⟨r', hclear, contents_clearRange hclear⟩
  · intro h
    exact if_neg h

/-- The answer and the bytes after an access are those of an array, or the access is refused. -/
structure Performs (r : Region) (a : RegionAccess)
    (result : Except RegionError RegionAnswer × Region) :
    Prop where
  inside : a.Inside r.size →
    result.1 = .ok (a.answerOn r.contents) ∧ result.2.contents = a.effectOn r.contents
  outside : ¬a.Inside r.size → result = (.error (a.refusal r.size), r)

theorem Changes.performs {result : Except RegionError Region} (h : r.Changes a result)
    (hdone : a.answerOn r.contents = .done) : r.Performs a (r.settle result) := by
  constructor
  · intro hinside
    obtain ⟨r', hresult, hcontents⟩ := h.inside hinside
    rw [hresult, hdone]
    exact ⟨rfl, hcontents⟩
  · intro houtside
    rw [h.outside houtside]
    rfl

theorem performs_of_read {answer : Bytes → RegionAnswer} (hstored : a.stored = [])
    (hanswer : a.answerOn r.contents =
      answer ((r.contents.drop a.offset.toNat).take a.length.toNat)) :
    r.Performs a ((r.read a.offset.toNat a.length.toNat).map answer, r) := by
  constructor
  · intro h
    rw [read_eq h, hanswer, RegionAccess.effectOn, hstored, Bytes.overwrite_nil]
    exact ⟨rfl, rfl⟩
  · intro h
    have hread : r.read a.offset.toNat a.length.toNat = .error (a.refusal r.size) := if_neg h
    rw [hread]
    rfl

theorem performs_perform (r : Region) (a : RegionAccess) : r.Performs a (r.perform a) := by
  cases a with
  | read offset length => exact performs_of_read rfl rfl
  | readWord offset width =>
    have hmap : (r.readWord offset.toNat width.toNat).map RegionAnswer.word =
        (r.read offset.toNat width.toNat).map fun bs => .word (LittleEndian.ofBytes bs) := by
      unfold readWord
      cases r.read offset.toNat width.toNat <;> rfl
    rw [perform, hmap]
    exact performs_of_read rfl rfl
  | write offset src =>
    have hlength : (RegionAccess.write offset src).length.toNat = src.val.length := by
      rw [RegionAccess.length, BitVec.toNat_ofNat, Nat.mod_eq_of_lt src.property]
    exact (changes_write hlength).performs rfl
  | writeWord offset width value =>
    exact (changes_write (LittleEndian.length_toBytes _ _).symm).performs rfl
  | clearRange offset length => exact (changes_clearRange offset length).performs rfl
  | clearRangeByWriting offset length =>
    exact (changes_write (a := .clearRangeByWriting offset length)
      List.length_replicate.symm).performs rfl

/-- One access changes the bytes as it changes an array. -/
theorem contents_perform (r : Region) (a : RegionAccess) :
    (r.perform a).2.contents = a.applyTo r.contents := by
  unfold RegionAccess.applyTo
  rw [length_contents]
  split_ifs with h
  · exact ((performs_perform r a).inside h).2
  · rw [(performs_perform r a).outside h]

theorem contents_performAll (r : Region) (as : List RegionAccess) :
    (r.performAll as).contents = as.foldl RegionAccess.applyTo r.contents := by
  induction as generalizing r with
  | nil => rfl
  | cons a as ih =>
    rw [List.foldl_cons, ← contents_perform]
    exact ih _

/-- To clear a range in one go is to clear it by writing zeros. -/
theorem clearRange_as_writing (r : Region) (offset length : BitVec 64) :
    (r.perform (.clearRange offset length)).1 = (r.perform (.clearRangeByWriting offset length)).1 ∧
      (r.perform (.clearRange offset length)).2.contents =
        (r.perform (.clearRangeByWriting offset length)).2.contents := by
  have hclear := performs_perform r (.clearRange offset length)
  have hwrite := performs_perform r (.clearRangeByWriting offset length)
  by_cases h : (RegionAccess.clearRange offset length).Inside r.size
  · exact ⟨(hclear.inside h).1.trans (hwrite.inside h).1.symm,
      (hclear.inside h).2.trans (hwrite.inside h).2.symm⟩
  · rw [hclear.outside h, hwrite.outside h]
    exact ⟨rfl, rfl⟩

/-! ## The check in words -/

/-- Where an access starts and ends, in 64-bit words. A sum that is no word is refused as well. -/
def rangeInWords (size offset length : BitVec 64) : Except RegionError (BitVec 64 × BitVec 64) :=
  match Word.add? offset length with
  | none => .error (.outOfRange offset.toNat length.toNat size.toNat)
  | some stop =>
    if size < stop then .error (.outOfRange offset.toNat length.toNat size.toNat)
    else .ok (offset, stop)

theorem rangeInWords_of_le {size offset length : BitVec 64}
    (h : offset.toNat + length.toNat ≤ size.toNat) :
    ∃ stop, rangeInWords size offset length = .ok (offset, stop) ∧
      stop.toNat = offset.toNat + length.toNat := by
  have hadd := Word.add?_of_lt (h.trans_lt size.isLt)
  have hstop := Word.toNat_of_add? hadd
  refine ⟨offset + length, ?_, hstop⟩
  have hle : ¬size < offset + length := by
    rw [BitVec.lt_def, hstop]
    exact not_lt.mpr h
  unfold rangeInWords
  rw [hadd]
  exact if_neg hle

theorem rangeInWords_of_lt {size offset length : BitVec 64}
    (h : size.toNat < offset.toNat + length.toNat) :
    rangeInWords size offset length =
      .error (.outOfRange offset.toNat length.toNat size.toNat) := by
  unfold rangeInWords
  cases hadd : Word.add? offset length with
  | none => rfl
  | some stop =>
    have hlt : size < stop := by rwa [BitVec.lt_def, Word.toNat_of_add? hadd]
    exact if_pos hlt

-- an empty access may lie at the end of a region but not behind it, and a sum does not wrap
example : rangeInWords 16 16 0 = .ok (16, 16) := rfl
example : rangeInWords 16 17 0 = .error (.outOfRange 17 0 16) := rfl
example : rangeInWords 16 (-1) 1 = .error (.outOfRange (2 ^ 64 - 1) 1 16) := rfl

end Region
end Mainboard
