import Mainboard.Proofs.Snapshot.Container

/-!
# Payloads and their items

A reader gives a value exactly where the written form of the value stands, and stops right behind
it. So a payload that is read to its end is the written form of the items that were read: for a list
of types, each list of items has one payload, and each accepted payload comes from one list of
items.
-/
namespace Mainboard

namespace Decode

variable {d : Decode α} {input rest : Bytes}

/-! ## Readers one after the other -/

theorem bind_eq_ok_iff {f : α → Decode β} {b : β} :
    (d >>= f) input = .ok b rest ↔ ∃ a mid, d input = .ok a mid ∧ f a mid = .ok b rest := by
  change EStateM.bind d f input = .ok b rest ↔ _
  unfold EStateM.bind
  cases d input <;> simp

theorem pure_eq_ok_iff {a b : α} : (pure a : Decode α) input = .ok b rest ↔
    a = b ∧ input = rest := by
  change EStateM.Result.ok a input = .ok b rest ↔ _
  simp

theorem finish_eq_ok_iff {u : Unit} : finish input = .ok u rest ↔ input = [] ∧ rest = [] := by
  cases input <;> simp [finish, eq_comm]

theorem map_eq_ok_iff {f : α → β} {b : β} :
    (do return f (← d) : Decode β) input = .ok b rest ↔ ∃ a, d input = .ok a rest ∧ f a = b := by
  refine bind_eq_ok_iff.trans ⟨?_, ?_⟩
  · rintro ⟨a, mid, hd, hpure⟩
    obtain ⟨rfl, rfl⟩ := pure_eq_ok_iff.mp hpure
    exact ⟨a, hd, rfl⟩
  · rintro ⟨a, hd, rfl⟩
    exact ⟨a, rest, hd, rfl⟩

theorem parse_eq_ok_iff {payload : Bytes} {a : α} :
    d.parse payload = .ok a ↔ d payload = .ok a [] := by
  have hrun : ∀ {b left}, (do let a ← d; finish; return a : Decode α) payload = .ok b left ↔
      d payload = .ok b [] ∧ left = [] := by
    intro b left
    simp only [bind_eq_ok_iff, pure_eq_ok_iff, finish_eq_ok_iff]
    constructor
    · rintro ⟨a, mid, hd, -, mid', ⟨rfl, rfl⟩, rfl, rfl⟩
      exact ⟨hd, rfl⟩
    · rintro ⟨hd, rfl⟩
      exact ⟨b, [], hd, (), [], ⟨rfl, rfl⟩, rfl, rfl⟩
  unfold Decode.parse EStateM.run
  constructor
  · intro h
    split at h
    · rename_i heq
      cases h
      exact (hrun.mp heq).1
    · cases h
  · intro h
    rw [hrun.mpr ⟨h, rfl⟩]

/-! ## Words, truth values and strings -/

theorem word_eq_ok_iff {n v : Nat} :
    word n input = .ok v rest ↔ v < 256 ^ n ∧ input = LittleEndian.toBytes n v ++ rest := by
  constructor
  · intro h
    obtain ⟨bs, hbs, rfl⟩ := map_eq_ok_iff.mp h
    obtain ⟨rfl, rfl⟩ := bytes_eq_ok_iff.mp hbs
    exact ⟨LittleEndian.ofBytes_lt bs, by rw [LittleEndian.toBytes_ofBytes]⟩
  · rintro ⟨hv, rfl⟩
    exact reads_word hv rest

theorem eq_append_of_ofWord {n : Nat} {ofNat : Nat → α} {toNat : α → Nat}
    (hrange : ∀ v < 256 ^ n, toNat (ofNat v) = v) {a : α}
    (h : (do return ofNat (← word n) : Decode α) input = .ok a rest) :
    input = LittleEndian.toBytes n (toNat a) ++ rest := by
  obtain ⟨v, hv, rfl⟩ := map_eq_ok_iff.mp h
  obtain ⟨hlt, rfl⟩ := word_eq_ok_iff.mp hv
  simp only [hrange v hlt]

theorem u8_eq_ok_iff {v : UInt8} : u8 input = .ok v rest ↔ input = Encode.u8 v ++ rest := by
  refine ⟨fun h => ?_, fun h => h ▸ reads_u8 v rest⟩
  simpa only [Encode.u8_eq] using eq_append_of_ofWord (fun _ => UInt8.toNat_ofNat_of_lt') h

theorem u16_eq_ok_iff {v : UInt16} : u16 input = .ok v rest ↔ input = Encode.u16 v ++ rest :=
  ⟨eq_append_of_ofWord fun _ => UInt16.toNat_ofNat_of_lt', fun h => h ▸ reads_u16 v rest⟩

theorem u32_eq_ok_iff {v : UInt32} : u32 input = .ok v rest ↔ input = Encode.u32 v ++ rest :=
  ⟨eq_append_of_ofWord fun _ => UInt32.toNat_ofNat_of_lt', fun h => h ▸ reads_u32 v rest⟩

theorem u64_eq_ok_iff {v : UInt64} : u64 input = .ok v rest ↔ input = Encode.u64 v ++ rest :=
  ⟨eq_append_of_ofWord fun _ => UInt64.toNat_ofNat_of_lt', fun h => h ▸ reads_u64 v rest⟩

theorem bool_eq_ok_iff {v : Bool} : bool input = .ok v rest ↔ input = Encode.bool v ++ rest := by
  refine ⟨fun h => ?_, fun h => h ▸ reads_bool v rest⟩
  obtain ⟨b, mid, hb, hv⟩ := bind_eq_ok_iff.mp h
  obtain rfl := u8_eq_ok_iff.mp hb
  split_ifs at hv with hfalse htrue
  · obtain ⟨rfl, rfl⟩ := pure_eq_ok_iff.mp hv
    simp [Encode.u8, Encode.bool, hfalse]
  · obtain ⟨rfl, rfl⟩ := pure_eq_ok_iff.mp hv
    simp [Encode.u8, Encode.bool, htrue]
  · cases hv

theorem vec_eq_ok_iff {bs : Bytes} :
    vec input = .ok bs rest ↔ bs.length < 256 ^ 4 ∧ input = Encode.vec bs ++ rest := by
  constructor
  · intro h
    obtain ⟨n, mid, hn, hbs⟩ := bind_eq_ok_iff.mp h
    obtain ⟨rfl, rfl⟩ := bytes_eq_ok_iff.mp hbs
    obtain ⟨hlt, rfl⟩ := word_eq_ok_iff.mp hn
    exact ⟨hlt, (List.append_assoc _ _ _).symm⟩
  · rintro ⟨hlength, rfl⟩
    exact reads_vec hlength rest

end Decode

/-! ## Items under a tag -/

namespace Container

variable {r : Container} {tag : UInt16}

theorem word_eq_ok_iff {n : Nat} {fault : FieldFault} {v : Option Nat} :
    r.word tag n fault = .ok v ↔ r.bytes tag = v.map (LittleEndian.toBytes n) ∧
      ∀ w ∈ v, w < 256 ^ n := by
  constructor
  · intro h
    unfold word at h
    split at h
    · rename_i hnone
      cases h
      exact ⟨hnone, nofun⟩
    · rename_i payload hpayload
      split_ifs at h with hlength
      cases h
      refine ⟨?_, ?_⟩
      · rw [Option.map_some, ← hlength, LittleEndian.toBytes_ofBytes]
        exact hpayload
      · rintro _ ⟨⟩
        exact hlength ▸ LittleEndian.ofBytes_lt payload
  · rintro ⟨hbytes, hlt⟩
    cases v with
    | none => simp only [word, hbytes, Option.map_none]
    | some w => exact word_of_bytes hbytes (hlt w rfl) fault

theorem u8_eq_ok_iff {v : Option UInt8} : r.u8 tag = .ok v ↔ r.bytes tag = v.map Encode.u8 := by
  constructor
  · intro h
    obtain ⟨word, hword, hv⟩ := except_bind_eq_ok_iff.mp h
    obtain ⟨hbytes, hlt⟩ := word_eq_ok_iff.mp hword
    cases hv
    cases word with
    | none => exact hbytes
    | some w =>
      have hw : (UInt8.ofNat w).toNat = w := UInt8.toNat_ofNat_of_lt' (hlt w rfl)
      simpa only [Option.map_some, Encode.u8_eq, hw] using hbytes
  · intro h
    cases v with
    | none =>
      have hword : r.word tag 1 .u8 = .ok none := word_eq_ok_iff.mpr ⟨h, nofun⟩
      rw [u8, hword]
      rfl
    | some v => exact u8_of_bytes h

theorem bool_eq_ok_iff {v : Option Bool} :
    r.bool tag = .ok v ↔ r.bytes tag = v.map Encode.bool := by
  constructor
  · intro h
    obtain ⟨byte, hbyte, hv⟩ := except_bind_eq_ok_iff.mp h
    rw [u8_eq_ok_iff.mp hbyte]
    cases byte with
    | none =>
      cases hv
      rfl
    | some byte =>
      dsimp only at hv
      split_ifs at hv with hfalse htrue
      · cases hv
        rw [hfalse]
        rfl
      · cases hv
        rw [htrue]
        rfl
  · intro h
    cases v with
    | none =>
      have hnone : r.bytes tag = none := h
      have hbyte : r.u8 tag = .ok none := u8_eq_ok_iff.mpr hnone
      rw [bool, hbyte]
      rfl
    | some v => exact bool_of_bytes h

end Container

/-! ## Items -/

namespace Item

/-- The length in front of a byte string has 32 bits. -/
def Fits : Item → Prop
  | .vec v => v.length < 2 ^ 32
  | _ => True

variable {t : ItemType} {types : List ItemType} {item : Item} {items : List Item}
    {input rest : Bytes}

open Decode

theorem reads_decode (h : item.Fits) : item.type.decode.Reads item.encode item := by
  cases item with
  | u8 v => exact (reads_u8 v).map Item.u8
  | bool v => exact (reads_bool v).map Item.bool
  | u16 v => exact (reads_u16 v).map Item.u16
  | u32 v => exact (reads_u32 v).map Item.u32
  | u64 v => exact (reads_u64 v).map Item.u64
  | bytes v => exact (reads_bytes v).map Item.bytes
  | vec v => exact (reads_vec h).map Item.vec

/-- Whatever is read as an item of a type is the written form of this item. -/
theorem eq_append_of_decode (h : t.decode input = .ok item rest) :
    item.type = t ∧ item.Fits ∧ input = item.encode ++ rest := by
  cases t with
  | u8 =>
    obtain ⟨v, hv, rfl⟩ := map_eq_ok_iff.mp h
    exact ⟨rfl, trivial, u8_eq_ok_iff.mp hv⟩
  | bool =>
    obtain ⟨v, hv, rfl⟩ := map_eq_ok_iff.mp h
    exact ⟨rfl, trivial, bool_eq_ok_iff.mp hv⟩
  | u16 =>
    obtain ⟨v, hv, rfl⟩ := map_eq_ok_iff.mp h
    exact ⟨rfl, trivial, u16_eq_ok_iff.mp hv⟩
  | u32 =>
    obtain ⟨v, hv, rfl⟩ := map_eq_ok_iff.mp h
    exact ⟨rfl, trivial, u32_eq_ok_iff.mp hv⟩
  | u64 =>
    obtain ⟨v, hv, rfl⟩ := map_eq_ok_iff.mp h
    exact ⟨rfl, trivial, u64_eq_ok_iff.mp hv⟩
  | bytes n =>
    obtain ⟨v, hv, rfl⟩ := map_eq_ok_iff.mp h
    obtain ⟨rfl, rfl⟩ := bytes_eq_ok_iff.mp hv
    exact ⟨rfl, trivial, rfl⟩
  | vec =>
    obtain ⟨v, hv, rfl⟩ := map_eq_ok_iff.mp h
    exact ⟨rfl, vec_eq_ok_iff.mp hv⟩

theorem decode_eq_ok_iff : t.decode input = .ok item rest ↔
    item.type = t ∧ item.Fits ∧ input = item.encode ++ rest := by
  refine ⟨eq_append_of_decode, ?_⟩
  rintro ⟨rfl, hfits, rfl⟩
  exact reads_decode hfits rest

/-- Items are read one after the other, each from where the one before it ends. -/
theorem decodeAll_eq_ok_iff : ItemType.decodeAll types input = .ok items rest ↔
    items.map type = types ∧ (∀ item ∈ items, item.Fits) ∧ input = encodeAll items ++ rest := by
  induction types generalizing input items with
  | nil =>
    refine pure_eq_ok_iff.trans ⟨?_, ?_⟩
    · rintro ⟨rfl, rfl⟩
      exact ⟨rfl, nofun, rfl⟩
    · rintro ⟨hnil, -, rfl⟩
      obtain rfl := List.map_eq_nil_iff.mp hnil
      exact ⟨rfl, rfl⟩
  | cons t ts ih =>
    refine bind_eq_ok_iff.trans ⟨?_, ?_⟩
    · rintro ⟨item, mid, hitem, hrest⟩
      obtain ⟨others, hothers, rfl⟩ := map_eq_ok_iff.mp hrest
      obtain ⟨rfl, hfit, rfl⟩ := decode_eq_ok_iff.mp hitem
      obtain ⟨rfl, hfits, rfl⟩ := ih.mp hothers
      exact ⟨rfl, List.forall_mem_cons.mpr ⟨hfit, hfits⟩, by simp [encodeAll]⟩
    · rintro ⟨htypes, hfits, rfl⟩
      obtain ⟨item, others, rfl, rfl, hothers⟩ := List.map_eq_cons_iff.mp htypes
      obtain ⟨hfit, hfits⟩ := List.forall_mem_cons.mp hfits
      refine ⟨item, encodeAll others ++ rest, decode_eq_ok_iff.mpr ⟨rfl, hfit, ?_⟩, ?_⟩
      · simp [encodeAll]
      · exact map_eq_ok_iff.mpr ⟨others, ih.mpr ⟨hothers, hfits, rfl⟩, rfl⟩

/-- A payload is read to its end as items of the given types exactly if it is the written form of
these items, and they have these types. So items whose lengths can be told are read back from what
is written for them, and what is accepted is written again byte for byte. -/
theorem accepted_iff_spelled (types : List ItemType) (payload : Bytes) (items : List Item) :
    (ItemType.decodeAll types).parse payload = .ok items ↔
      items.map type = types ∧ (∀ item ∈ items, item.Fits) ∧ encodeAll items = payload := by
  rw [parse_eq_ok_iff, decodeAll_eq_ok_iff, List.append_nil]
  simp only [eq_comm]

example :
    (ItemType.decodeAll [.vec, .bool]).parse [1, 0, 0, 0, 9, 1] = .ok [.vec [9], .bool true] := by
  decide

end Item
end Mainboard
