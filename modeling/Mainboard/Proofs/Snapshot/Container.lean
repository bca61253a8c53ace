import Mainboard.Proofs.Snapshot.Codec
import Mainboard.Snapshot.Container

/-!
# Containers and their written form

The fields of a container stand in ascending order of their tags, and setting a field keeps this. A
container whose payloads are no longer than a length of 32 bits can say is read back from its
written form as it was.
-/
namespace Mainboard

namespace Fields

/-- Ascending in the tags, so with one field for a tag. -/
def Ordered (fields : Fields) : Prop := fields.Pairwise fun f g => f.1 < g.1

def Fit (fields : Fields) : Prop := ∀ field ∈ fields, field.2.length < 256 ^ 4

instance (fields : Fields) : Decidable fields.Ordered :=
  inferInstanceAs (Decidable (fields.Pairwise fun f g => f.1 < g.1))

instance (fields : Fields) : Decidable fields.Fit :=
  inferInstanceAs (Decidable (∀ field ∈ fields, field.2.length < 256 ^ 4))

variable {fields : Fields} {tag : UInt16} {value : Bytes}

theorem mem_set {field : UInt16 × Bytes} (h : field ∈ fields.set tag value) :
    field = (tag, value) ∨ field ∈ fields := by
  induction fields with
  | nil => exact Or.inl (List.mem_singleton.mp h)
  | cons g rest ih =>
    unfold set at h
    split_ifs at h
    · exact List.mem_cons.mp h
    · rcases List.mem_cons.mp h with h | h
      · exact Or.inl h
      · exact Or.inr (List.mem_cons_of_mem _ h)
    · rcases List.mem_cons.mp h with h | h
      · exact Or.inr (h ▸ List.mem_cons_self)
      · exact (ih h).imp_right (List.mem_cons_of_mem _)

theorem Ordered.set (h : fields.Ordered) (tag : UInt16) (value : Bytes) :
    (fields.set tag value).Ordered := by
  induction fields with
  | nil => exact List.pairwise_singleton _ _
  | cons g rest ih =>
    obtain ⟨hfirst, hrest⟩ := List.pairwise_cons.mp h
    unfold Fields.set
    split_ifs with hlt heq
    · refine List.pairwise_cons.mpr ⟨?_, h⟩
      intro f hf
      rcases List.mem_cons.mp hf with rfl | hf
      · exact hlt
      · exact UInt16.lt_trans hlt (hfirst f hf)
    · exact List.pairwise_cons.mpr ⟨heq ▸ hfirst, hrest⟩
    · refine List.pairwise_cons.mpr ⟨?_, ih hrest⟩
      intro f hf
      rcases mem_set hf with rfl | hf
      · exact UInt16.lt_of_le_of_ne (UInt16.not_lt.mp hlt) (Ne.symm heq)
      · exact hfirst f hf

theorem Fit.set (h : fields.Fit) (tag : UInt16) (hvalue : value.length < 256 ^ 4) :
    (fields.set tag value).Fit := by
  intro field hfield
  rcases mem_set hfield with rfl | hfield
  · exact hvalue
  · exact h field hfield

/-! ### Fields as a map -/

theorem find?_eq_some_iff (h : fields.tags.Nodup) :
    fields.find? tag = some value ↔ (tag, value) ∈ fields := by
  induction fields with
  | nil => simp [find?]
  | cons f fields ih =>
    obtain ⟨t, v⟩ := f
    obtain ⟨hfresh, hrest⟩ := List.nodup_cons.mp h
    unfold find? at ih ⊢
    rw [List.lookup_cons, List.mem_cons]
    by_cases ht : tag = t
    · subst ht
      have hother : (tag, value) ∉ fields := fun hmem => hfresh (List.mem_map.mpr ⟨_, hmem, rfl⟩)
      simp [hother, eq_comm]
    · simp [beq_eq_false_iff_ne.mpr ht, ih hrest, ht]

theorem Ordered.nodup_tags (h : fields.Ordered) : fields.tags.Nodup :=
  List.pairwise_map.mpr (h.imp UInt16.ne_of_lt)

theorem Ordered.ext {gs : Fields} (h : fields.Ordered) (h' : gs.Ordered)
    (heq : ∀ tag, fields.find? tag = gs.find? tag) : fields = gs := by
  have hnodup : ∀ {l : Fields}, l.Ordered → l.Nodup := fun hl => List.Nodup.of_map _ hl.nodup_tags
  have hperm : fields.Perm gs := by
    rw [List.perm_ext_iff_of_nodup (hnodup h) (hnodup h')]
    rintro ⟨tag, value⟩
    rw [← find?_eq_some_iff h.nodup_tags, ← find?_eq_some_iff h'.nodup_tags, heq]
  exact hperm.eq_of_pairwise (fun f g _ _ hfg hgf => absurd hfg (UInt16.lt_asymm hgf)) h h'

/-! ### Several fields -/

def setAll (fields fs : Fields) : Fields := fs.foldl (fun fields f => fields.set f.1 f.2) fields

@[simp] theorem setAll_nil (fields : Fields) : fields.setAll [] = fields := rfl

@[simp] theorem setAll_cons (fields : Fields) (f : UInt16 × Bytes) (fs : Fields) :
    fields.setAll (f :: fs) = (fields.set f.1 f.2).setAll fs := rfl

theorem Ordered.setAll (h : fields.Ordered) (fs : Fields) : (fields.setAll fs).Ordered := by
  induction fs generalizing fields with
  | nil => exact h
  | cons f fs ih => exact ih (h.set f.1 f.2)

theorem find?_setAll (fields fs : Fields) (tag : UInt16) :
    (fields.setAll fs).find? tag = (find? fs.reverse tag).or (fields.find? tag) := by
  induction fs generalizing fields with
  | nil => rfl
  | cons f fs ih =>
    rw [setAll_cons, ih, find?_set, List.reverse_cons]
    unfold find?
    rw [List.lookup_append, Option.or_assoc, List.lookup_cons]
    by_cases h : tag = f.1
    · simp [h]
    · simp [h, beq_eq_false_iff_ne.mpr h]

theorem find?_setAll_nil {fs : Fields} (h : fs.tags.Nodup) (tag : UInt16) :
    (setAll [] fs).find? tag = fs.find? tag := by
  have hreverse : (tags fs.reverse).Nodup := by
    unfold tags
    rw [List.map_reverse]
    exact List.nodup_reverse.mpr h
  have hnone : find? [] tag = none := rfl
  rw [find?_setAll, hnone, Option.or_none]
  apply Option.ext
  intro value
  rw [find?_eq_some_iff hreverse, find?_eq_some_iff h, List.mem_reverse]

/-! ### The written form -/

theorem parse_encodeField {field : UInt16 × Bytes} (hlength : field.2.length < 256 ^ 4)
    (hfresh : fields.find? field.1 = none) (rest : Bytes) :
    parse (encodeField field ++ rest) fields = parse rest (fields.set field.1 field.2) := by
  obtain ⟨tag, value⟩ := field
  have htag : LittleEndian.ofBytes (Encode.u16 tag) = tag.toNat :=
    LittleEndian.ofBytes_toBytes_of_lt tag.toNat_lt
  have hcount : LittleEndian.ofBytes (LittleEndian.toBytes 4 value.length) = value.length :=
    LittleEndian.ofBytes_toBytes_of_lt hlength
  have htake : (value ++ rest).take value.length = value := List.take_left
  have hdrop : (value ++ rest).drop value.length = rest := List.drop_left
  have hinput : encodeField (tag, value) ++ rest =
      Encode.u16 tag ++ (LittleEndian.toBytes 4 value.length ++ (value ++ rest)) := by
    simp [encodeField, Encode.vec]
  rw [hinput]
  simp only [Encode.u16, LittleEndian.toBytes, List.cons_append, List.nil_append] at htag hcount ⊢
  rw [parse]
  simp only [htag, hcount, htake, hdrop, UInt16.ofNat_toNat, hfresh]
  simp

theorem parse_append {fs : Fields} (hfit : fs.Fit) (hdistinct : fs.tags.Nodup)
    (hfresh : ∀ f ∈ fs, fields.find? f.1 = none) (rest : Bytes) :
    parse (fs.encode ++ rest) fields = parse rest (fields.setAll fs) := by
  induction fs generalizing fields with
  | nil => rfl
  | cons f fs ih =>
    obtain ⟨hf, hfit⟩ := List.forall_mem_cons.mp hfit
    obtain ⟨hother, hdistinct⟩ := List.nodup_cons.mp hdistinct
    obtain ⟨hnone, hfresh⟩ := List.forall_mem_cons.mp hfresh
    have hfresh' : ∀ g ∈ fs, (fields.set f.1 f.2).find? g.1 = none := by
      intro g hg
      have hne : g.1 ≠ f.1 := fun heq => hother (List.mem_map.mpr ⟨g, hg, heq⟩)
      rw [find?_set, if_neg hne]
      exact hfresh g hg
    rw [encode, List.flatMap_cons, List.append_assoc]
    exact (parse_encodeField hf hnone _).trans (ih hfit hdistinct hfresh')

theorem length_encodeField (field : UInt16 × Bytes) :
    (encodeField field).length = 6 + field.2.length := by
  rw [encodeField, List.length_append, Encode.vec, List.length_append, Encode.u16,
    LittleEndian.length_toBytes, LittleEndian.length_toBytes]
  omega

/-- A field that is set is written once, in place of an earlier one with its tag. -/
theorem length_encode_set_le (fields : Fields) (tag : UInt16) (value : Bytes) :
    (fields.set tag value).encode.length ≤ fields.encode.length + (6 + value.length) := by
  induction fields with
  | nil => simp [set, encode, length_encodeField]
  | cons field rest ih =>
    unfold set
    unfold encode at ih ⊢
    split_ifs
    all_goals
      simp only [List.flatMap_cons, List.length_append, length_encodeField]
      omega

end Fields

namespace Container

/-- Blobs of this container can be read: the format is a known one, the fields are in order and fit.
-/
structure WellFormed (c : Container) : Prop where
  format : c.format.major = Version.format.major
  ordered : c.fields.Ordered
  fit : c.fields.Fit

theorem wellFormed_empty (id : DeviceId) (device : Version) : (empty id device).WellFormed where
  format := rfl
  ordered := List.Pairwise.nil
  fit := fun _ h => by cases h

theorem WellFormed.set {c : Container} (h : c.WellFormed) (tag : UInt16) {value : Bytes}
    (hvalue : value.length < 256 ^ 4) : (c.set tag value).WellFormed where
  format := h.format
  ordered := h.ordered.set tag value
  fit := h.fit.set tag hvalue

theorem wordAt_eq {input : Bytes} {offset : Nat} {v : UInt16}
    (h : (input.drop offset).take 2 = Encode.u16 v) : wordAt input offset = v := by
  have hword : LittleEndian.ofBytes (Encode.u16 v) = v.toNat :=
    LittleEndian.ofBytes_toBytes_of_lt v.toNat_lt
  rw [wordAt, h, hword, UInt16.ofNat_toNat]

def header (c : Container) : Bytes :=
  magic ++ Encode.u16 c.format.major ++ Encode.u16 c.format.minor ++ c.id.toList ++
    Encode.u16 c.device.major ++ Encode.u16 c.device.minor

theorem encode_eq (c : Container) : c.encode = c.header ++ c.fields.encode := rfl

@[simp] theorem length_header (c : Container) : c.header.length = headerLength := by
  simp [header, magic, Encode.u16, headerLength]

theorem idAt_eq (c : Container) (rest : Bytes) : idAt (c.header ++ rest) = c.id := by
  apply Vector.ext
  intro i hi
  have hi' : i < c.id.toList.length := by simpa using hi
  have hget : (c.header ++ rest)[8 + i]? = some c.id[i] := by
    have hlist : c.header ++ rest = (magic ++ Encode.u16 c.format.major ++
        Encode.u16 c.format.minor) ++ (c.id.toList ++ (Encode.u16 c.device.major ++
        (Encode.u16 c.device.minor ++ rest))) := by simp [header]
    have hlength : (magic ++ Encode.u16 c.format.major ++
        Encode.u16 c.format.minor).length = 8 := rfl
    rw [hlist, List.getElem?_append_right (by omega), hlength, Nat.add_sub_cancel_left,
      List.getElem?_append_left hi', List.getElem?_eq_getElem hi']
    rfl
  simp [idAt, hget]

theorem length_encode_empty (id : DeviceId) (device : Version) :
    (empty id device).encode.length = 16 := by
  simp [empty, encode, Fields.encode, magic, Encode.u16]

theorem length_encode_set_le {c : Container} {n k : Nat} (h : c.encode.length ≤ n) (tag : UInt16)
    {value : Bytes} (hvalue : value.length ≤ k) :
    (c.set tag value).encode.length ≤ n + (6 + k) := by
  have hfields := Fields.length_encode_set_le c.fields tag value
  have hheader : (c.set tag value).header = c.header := rfl
  have hset : (c.set tag value).fields = c.fields.set tag value := rfl
  rw [encode_eq, List.length_append] at h
  rw [encode_eq, List.length_append, hheader, hset]
  omega

theorem parse_header {c : Container} (h : c.format.major = Version.format.major) (rest : Bytes) :
    parse (c.header ++ rest) c.id =
      (Fields.parse rest []).map fun fields => { c with fields := fields } := by
  have hid := c.idAt_eq rest
  obtain ⟨i₀, i₁, i₂, i₃, hlist⟩ : ∃ i₀ i₁ i₂ i₃, c.id.toList = [i₀, i₁, i₂, i₃] := by
    have hlength : c.id.toList.length = 4 := by simp
    rcases hlist : c.id.toList with _ | ⟨i₀, _ | ⟨i₁, _ | ⟨i₂, _ | ⟨i₃, _ | _⟩⟩⟩⟩ <;>
      simp_all
  have hheader : c.header ++ rest = magic ++ Encode.u16 c.format.major ++
      Encode.u16 c.format.minor ++ [i₀, i₁, i₂, i₃] ++ Encode.u16 c.device.major ++
      Encode.u16 c.device.minor ++ rest := by rw [header, hlist]
  generalize c.header ++ rest = input at hid hheader
  have hlength : ¬(input.take headerLength).length < headerLength := by
    rw [hheader]
    exact lt_irrefl 16
  have hmagic : input.take 4 = magic := by
    rw [hheader]
    rfl
  have hdrop : input.drop headerLength = rest := by
    rw [hheader]
    rfl
  have hformat : wordAt input 4 = c.format.major ∧ wordAt input 6 = c.format.minor := by
    constructor <;> exact wordAt_eq (by rw [hheader]; rfl)
  have hdevice : wordAt input 12 = c.device.major ∧ wordAt input 14 = c.device.minor := by
    constructor <;> exact wordAt_eq (by rw [hheader]; rfl)
  unfold parse
  rw [if_neg hlength, if_neg (not_not_intro hmagic), hformat.1, hformat.2, hdevice.1, hdevice.2,
    hid, hdrop]
  dsimp only
  rw [if_neg (not_not_intro h), if_neg (not_not_intro rfl)]
  cases Fields.parse rest [] <;> rfl

/-! ## Fields in any order -/

/-- A blob may hold its fields in any order, but one for a tag only. -/
structure Readable (b : Container) : Prop where
  format : b.format.major = Version.format.major
  fit : b.fields.Fit
  distinct : b.fields.tags.Nodup

def collected (b : Container) : Container := { b with fields := Fields.setAll [] b.fields }

theorem ordered_collected (b : Container) : b.collected.fields.Ordered :=
  Fields.Ordered.setAll List.Pairwise.nil b.fields

theorem bytes_collected {b : Container} (h : b.fields.tags.Nodup) (tag : UInt16) :
    b.collected.bytes tag = b.bytes tag :=
  Fields.find?_setAll_nil h tag

theorem collected_of_ordered {b : Container} (h : b.fields.Ordered) : b.collected = b := by
  have hfields : b.collected.fields = b.fields :=
    b.ordered_collected.ext h (bytes_collected h.nodup_tags)
  exact congrArg (fun fields => { b with fields := fields }) hfields

theorem parse_of_readable {b : Container} (h : b.Readable) :
    parse b.encode b.id = .ok b.collected := by
  have hfields :
      Fields.parse (b.fields.encode ++ []) [] = Fields.parse [] (Fields.setAll [] b.fields) :=
    Fields.parse_append h.fit h.distinct (fun _ _ => rfl) []
  have hend : Fields.parse [] (Fields.setAll [] b.fields) = .ok (Fields.setAll [] b.fields) := by
    rw [Fields.parse]
  rw [List.append_nil, hend] at hfields
  rw [encode_eq, parse_header h.format, hfields]
  rfl

theorem WellFormed.readable {c : Container} (h : c.WellFormed) : c.Readable :=
  ⟨h.format, h.fit, h.ordered.nodup_tags⟩

theorem parse_encode {c : Container} (h : c.WellFormed) : parse c.encode c.id = .ok c := by
  rw [parse_of_readable h.readable, collected_of_ordered h.ordered]

theorem parseFor_encode {c : Container} (h : c.WellFormed) {device : Version}
    (hdevice : c.device.major = device.major) : parseFor c.encode c.id device = .ok c := by
  unfold parseFor
  rw [parse_encode h]
  change (do c.requireMajor device.major; return c) = _
  rw [requireMajor, if_pos hdevice]
  rfl

/-! ## Items under a tag -/

section

variable {c : Container} {tag : UInt16}

theorem word_of_bytes {n v : Nat} (h : c.bytes tag = some (LittleEndian.toBytes n v))
    (hv : v < 256 ^ n)
    (fault : FieldFault) : c.word tag n fault = .ok (some v) := by
  unfold word
  rw [h]
  dsimp only
  rw [if_pos (LittleEndian.length_toBytes n v), LittleEndian.ofBytes_toBytes_of_lt hv]

theorem u8_of_bytes {v : UInt8} (h : c.bytes tag = some (Encode.u8 v)) :
    c.u8 tag = .ok (some v) := by
  rw [Encode.u8_eq] at h
  simp [u8, word_of_bytes h v.toNat_lt]

theorem u16_of_bytes {v : UInt16} (h : c.bytes tag = some (Encode.u16 v)) :
    c.u16 tag = .ok (some v) := by
  simp [u16, word_of_bytes h v.toNat_lt]

theorem u32_of_bytes {v : UInt32} (h : c.bytes tag = some (Encode.u32 v)) :
    c.u32 tag = .ok (some v) := by
  simp [u32, word_of_bytes h v.toNat_lt]

theorem u64_of_bytes {v : UInt64} (h : c.bytes tag = some (Encode.u64 v)) :
    c.u64 tag = .ok (some v) := by
  simp [u64, word_of_bytes h v.toNat_lt]

theorem bool_of_bytes {v : Bool} (h : c.bytes tag = some (Encode.bool v)) :
    c.bool tag = .ok (some v) := by
  unfold bool
  rw [u8_of_bytes (v := if v then 1 else 0) h]
  cases v <;> rfl

end

end Container
end Mainboard
