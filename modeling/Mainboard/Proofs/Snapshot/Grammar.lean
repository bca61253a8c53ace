import Mainboard.Proofs.Snapshot.Container

/-!
# The grammar of blobs

The written form of a container, with its fields in any order, is the grammar: a header and then
fields up to the end of the input. Whatever is accepted is such a form. Since a field tells its own
length, no written field is the start of another, and a blob is cut into fields in one way only. So
the start of a blob is a blob only if it ends between two fields.
-/
namespace Mainboard

theorem Encode.u16_ofBytes {bs : Bytes} (h : bs.length = 2) :
    Encode.u16 (UInt16.ofNat (LittleEndian.ofBytes bs)) = bs := by
  have hlt : LittleEndian.ofBytes bs < 2 ^ 16 := by
    have hlt := LittleEndian.ofBytes_lt bs
    rwa [h] at hlt
  rw [Encode.u16, UInt16.toNat_ofNat', Nat.mod_eq_of_lt hlt, ← h, LittleEndian.toBytes_ofBytes]

/-- Two strings that a reader takes are the same where their inputs are. -/
theorem Decode.Reads.unique {d : Decode α} {a b : α} {bs cs xs ys : Bytes} (ha : d.Reads bs a)
    (hb : d.Reads cs b) (h : bs ++ xs = cs ++ ys) : a = b ∧ xs = ys := by
  have hx := ha xs
  rw [h, hb ys] at hx
  cases hx
  exact ⟨rfl, rfl⟩

namespace Fields

variable {fields fs gs : Fields} {input : Bytes}

/-! ## Fields up to the end of the input -/

theorem cons_eq_encodeField (t₀ t₁ l₀ l₁ l₂ l₃ : UInt8) {rest : Bytes} {length : Nat}
    (hlength : length = LittleEndian.ofBytes [l₀, l₁, l₂, l₃])
    (h : (rest.take length).length = length) :
    t₀ :: t₁ :: l₀ :: l₁ :: l₂ :: l₃ :: rest =
      encodeField (UInt16.ofNat (LittleEndian.ofBytes [t₀, t₁]), rest.take length) ++
        rest.drop length := by
  have htag : Encode.u16 (UInt16.ofNat (LittleEndian.ofBytes [t₀, t₁])) = [t₀, t₁] :=
    Encode.u16_ofBytes rfl
  have hcount : LittleEndian.toBytes 4 (rest.take length).length = [l₀, l₁, l₂, l₃] := by
    rw [h, hlength]
    exact LittleEndian.toBytes_ofBytes [l₀, l₁, l₂, l₃]
  rw [encodeField, Encode.vec, htag, hcount, List.append_assoc, List.append_assoc,
    List.take_append_drop]
  rfl

/-- What is read up to the end are written fields, one for a tag and none that was there before. -/
theorem exists_of_parse {result : Fields} (h : parse input fields = .ok result) :
    ∃ fs : Fields, input = fs.encode ∧ fs.Fit ∧ fs.tags.Nodup ∧
      ∀ f ∈ fs, fields.find? f.1 = none := by
  fun_induction parse input fields with
  | case1 fields => exact ⟨[], rfl, nofun, List.nodup_nil, nofun⟩
  | case4 fields t₀ t₁ l₀ l₁ l₂ l₃ rest tag length value hlength hfresh ih =>
    rw [not_not] at hlength
    obtain ⟨fs, hrest, hfit, hdistinct, hfree⟩ := ih h
    have hfind : fields.find? tag = none := by simpa using hfresh
    have hcount : value.length < 256 ^ 4 := hlength ▸ LittleEndian.ofBytes_lt [l₀, l₁, l₂, l₃]
    -- a second field with this tag would have been refused
    have hother : ∀ f ∈ fs, f.1 ≠ tag ∧ fields.find? f.1 = none := by
      intro f hf
      have hnone := hfree f hf
      rw [find?_set] at hnone
      split_ifs at hnone with heq
      exact ⟨heq, hnone⟩
    refine ⟨(tag, value) :: fs, ?_, ?_, ?_, ?_⟩
    · rw [cons_eq_encodeField t₀ t₁ l₀ l₁ l₂ l₃ rfl hlength, hrest]
      rfl
    · exact List.forall_mem_cons.mpr ⟨hcount, hfit⟩
    · refine List.nodup_cons.mpr ⟨fun hmem => ?_, hdistinct⟩
      obtain ⟨f, hf, heq⟩ := List.mem_map.mp hmem
      exact (hother f hf).1 heq
    · exact List.forall_mem_cons.mpr ⟨hfind, fun f hf => (hother f hf).2⟩
  | _ => cases h

/-! ## Cutting a string of fields -/

theorem encodeField_append_inj {f g : UInt16 × Bytes} {xs ys : Bytes} (hf : f.2.length < 256 ^ 4)
    (hg : g.2.length < 256 ^ 4) (h : encodeField f ++ xs = encodeField g ++ ys) :
    f = g ∧ xs = ys := by
  let reader : Decode (UInt16 × Bytes) := do
    let tag ← Decode.u16
    let value ← Decode.vec
    return (tag, value)
  have hreads : ∀ f : UInt16 × Bytes, f.2.length < 256 ^ 4 → reader.Reads (encodeField f) f :=
    fun f hf => (Decode.reads_u16 f.1).bind ((Decode.reads_vec hf).bind_last (Decode.reads_pure f))
  exact (hreads f hf).unique (hreads g hg) h

theorem prefix_of_encode_prefix (hfs : fs.Fit) (hgs : gs.Fit) (h : fs.encode <+: gs.encode) :
    List.IsPrefix fs gs := by
  obtain ⟨rest, h⟩ := h
  induction fs generalizing gs with
  | nil => exact List.nil_prefix
  | cons f fs ih =>
    obtain ⟨hf, hfs⟩ := List.forall_mem_cons.mp hfs
    rw [encode, List.flatMap_cons, List.append_assoc] at h
    cases gs with
    | nil =>
      have hlength := congrArg List.length h
      rw [List.length_append, length_encodeField] at hlength
      simp [encode] at hlength
    | cons g gs =>
      obtain ⟨hg, hgs'⟩ := List.forall_mem_cons.mp hgs
      rw [encode, List.flatMap_cons] at h
      obtain ⟨rfl, hrest⟩ := encodeField_append_inj hf hg h
      exact List.cons_prefix_cons.mpr ⟨rfl, ih hfs hgs' hrest⟩

end Fields

namespace Container

variable {b c : Container} {input : Bytes} {id : DeviceId}

/-! ## Blobs -/

/-- Sixteen bytes that start with the magic are the header that is read from them. -/
theorem header_eq_take (hlength : headerLength ≤ input.length) (hmagic : input.take 4 = magic)
    (fields : Fields) : (Container.mk ⟨wordAt input 4, wordAt input 6⟩ (idAt input)
      ⟨wordAt input 12, wordAt input 14⟩ fields).header = input.take headerLength := by
  have hword : ∀ offset, offset + 2 ≤ headerLength →
      Encode.u16 (wordAt input offset) = (input.drop offset).take 2 := by
    intro offset hoffset
    apply Encode.u16_ofBytes
    rw [List.length_take, List.length_drop]
    omega
  have hid : (idAt input).toList = (input.drop 8).take 4 := by
    unfold headerLength at hlength
    apply List.ext_getElem
    · rw [List.length_take, List.length_drop, Vector.length_toList]
      omega
    · intro i hi hi'
      rw [Vector.length_toList] at hi
      simp only [Vector.getElem_toList, idAt, Vector.getElem_ofFn, List.getElem_take,
        List.getElem_drop]
      exact (List.getElem_eq_getD 0).symm
  have hsplit : input.take headerLength = input.take 4 ++ (input.drop 4).take 2 ++
      (input.drop 6).take 2 ++ (input.drop 8).take 4 ++ (input.drop 12).take 2 ++
      (input.drop 14).take 2 := by
    simp only [← List.take_add]
    rfl
  rw [hsplit, header, hmagic, hid, hword 4 (by decide), hword 6 (by decide), hword 12 (by decide),
    hword 14 (by decide)]

/-- The container has the header of a blob and its fields, in ascending order of the tags. -/
structure Collects (c b : Container) : Prop where
  format : c.format = b.format
  id : c.id = b.id
  device : c.device = b.device
  bytes : ∀ tag value, c.bytes tag = some value ↔ (tag, value) ∈ b.fields
  ascending : c.fields.tags.Pairwise (· < ·)

theorem collects_collected (h : b.Readable) : b.collected.Collects b where
  format := rfl
  id := rfl
  device := rfl
  bytes tag value := by
    rw [bytes_collected h.distinct]
    exact Fields.find?_eq_some_iff h.distinct
  ascending := List.pairwise_map.mpr b.ordered_collected

theorem exists_of_parse (h : parse input id = .ok c) :
    ∃ b : Container, b.Readable ∧ b.id = id ∧ b.encode = input := by
  unfold parse at h
  dsimp only at h
  split_ifs at h with hlength hmagic hformat hid
  rw [List.length_take, not_lt, le_min_iff] at hlength
  rw [not_not] at hmagic hformat hid
  cases hfields : Fields.parse (input.drop headerLength) [] with
  | error e =>
    rw [hfields] at h
    cases h
  | ok fields =>
    obtain ⟨fs, hrest, hfit, hdistinct, -⟩ := Fields.exists_of_parse hfields
    refine ⟨⟨⟨wordAt input 4, wordAt input 6⟩, idAt input, ⟨wordAt input 12, wordAt input 14⟩, fs⟩,
      ⟨hformat, hfit, hdistinct⟩, hid, ?_⟩
    rw [encode_eq, header_eq_take hlength.2 hmagic, ← hrest, List.take_append_drop]

/-! ## Blobs that are cut short -/

theorem length_encode (b : Container) :
    b.encode.length = headerLength + b.fields.encode.length := by
  rw [encode_eq, List.length_append, length_header]

theorem take_encode (b : Container) (k : Nat) :
    b.encode.take (headerLength + (Fields.encode (b.fields.take k)).length) =
      { b with fields := b.fields.take k }.encode := by
  have hfields : b.fields.encode =
      Fields.encode (b.fields.take k) ++ Fields.encode (b.fields.drop k) := by
    unfold Fields.encode
    rw [← List.flatMap_append, List.take_append_drop]
  have hsplit : b.encode = { b with fields := b.fields.take k }.encode ++
      Fields.encode (b.fields.drop k) := by
    rw [encode_eq, hfields, ← List.append_assoc]
    rfl
  rw [hsplit, ← length_encode { b with fields := b.fields.take k }, List.take_left]

theorem Readable.take (h : b.Readable) (k : Nat) :
    Readable { b with fields := b.fields.take k } where
  format := h.format
  fit f hf := h.fit f (List.mem_of_mem_take hf)
  distinct := h.distinct.sublist ((List.take_sublist k b.fields).map _)

/-- A blob that starts another one has the first fields of it. -/
theorem Readable.fields_prefix {b' : Container} (h : b.Readable) (h' : b'.Readable)
    (hstart : b'.encode <+: b.encode) : b'.fields <+: b.fields := by
  obtain ⟨rest, heq⟩ := hstart
  rw [encode_eq, encode_eq, List.append_assoc] at heq
  have hrest := (List.append_inj heq (by rw [length_header, length_header])).2
  exact Fields.prefix_of_encode_prefix h'.fit h.fit ⟨rest, hrest⟩

theorem parse_take_iff (h : b.Readable) {n : Nat} (hn : n ≤ b.encode.length) :
    (∃ c, parse (b.encode.take n) b.id = .ok c) ↔
      ∃ k ≤ b.fields.length, n = headerLength + (Fields.encode (b.fields.take k)).length := by
  constructor
  · rintro ⟨c, hparse⟩
    obtain ⟨b', hb', -, hencode⟩ := exists_of_parse hparse
    have hfields := h.fields_prefix hb' (hencode ▸ List.take_prefix n b.encode)
    refine ⟨b'.fields.length, hfields.length_le, ?_⟩
    rw [← List.prefix_iff_eq_take.mp hfields, ← length_encode, hencode, List.length_take_of_le hn]
  · rintro ⟨k, -, rfl⟩
    exact ⟨_, b.take_encode k ▸ parse_of_readable (h.take k)⟩

/-- A byte string is accepted for a component exactly if it is a blob of that component: the magic,
the known format with any minor version, the identifier, any version of the component, and fields
with tags that differ. What is read is this header and these fields, in ascending order. A blob that
is cut short is accepted exactly if the cut is behind the header or behind one of the fields. -/
theorem accepted_iff_blob (input : Bytes) (id : DeviceId) :
    ((∃ c, parse input id = .ok c) ↔
      ∃ b : Container, b.Readable ∧ b.id = id ∧ b.encode = input) ∧
    ∀ b : Container, b.Readable → b.id = id → b.encode = input →
      (∃ c, parse input id = .ok c ∧ c.Collects b) ∧
      ∀ n ≤ input.length, (∃ c, parse (input.take n) id = .ok c) ↔
        ∃ k ≤ b.fields.length, n = headerLength + (Fields.encode (b.fields.take k)).length := by
  refine ⟨⟨fun ⟨_, h⟩ => exists_of_parse h, ?_⟩, ?_⟩
  · rintro ⟨b, h, rfl, rfl⟩
    exact ⟨_, parse_of_readable h⟩
  · rintro b h rfl rfl
    exact ⟨⟨_, parse_of_readable h, collects_collected h⟩, fun n hn => parse_take_iff h hn⟩

/-- A blob with its two fields in descending order, the second one empty. It may be cut at two
places. -/
theorem descending_blob_accepted :
    let b : Container := ⟨⟨1, 7⟩, #v[0x54, 0x45, 0x53, 0x54], ⟨3, 9⟩, [(5, [0xAA, 0xBB]), (2, [])]⟩
    (∃ c, parse b.encode b.id = .ok c ∧ c.device = ⟨3, 9⟩ ∧ c.bytes 5 = some [0xAA, 0xBB] ∧
      c.bytes 2 = some [] ∧ c.bytes 1 = none) ∧
    ∀ n < 30, (∃ c, parse (b.encode.take n) b.id = .ok c) ↔ n = 16 ∨ n = 24 := by
  intro b
  obtain ⟨⟨c, hparse, hc⟩, hcut⟩ :=
    (accepted_iff_blob b.encode b.id).2 b ⟨rfl, by decide, by decide⟩ rfl rfl
  have hlength : b.encode.length = 30 := by decide
  refine ⟨⟨c, hparse, hc.device, ?_, ?_, ?_⟩, fun n hn => ?_⟩
  · exact (hc.bytes _ _).mpr (by decide)
  · exact (hc.bytes _ _).mpr (by decide)
  · exact Option.eq_none_iff_forall_ne_some.mpr
      fun value h => by simpa [b] using (hc.bytes 1 value).mp h
  · rw [hcut n (by omega)]
    constructor
    · rintro ⟨k, hk, rfl⟩
      have hplaces : k ≤ 2 := hk
      interval_cases k <;> revert hn <;> decide
    · rintro (rfl | rfl)
      · exact ⟨0, by decide, by decide⟩
      · exact ⟨1, by decide, by decide⟩

end Container
end Mainboard
