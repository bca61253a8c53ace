import Mainboard.Proofs.Bytes.LittleEndian
import Mainboard.Snapshot.Codec

/-!
# Readers and what they read

A reader reads a byte string as a value if it gives that value and stops right behind the string,
whatever follows. So what one reader leaves is where the next one starts, and sequences of items are
read back from the items one after the other.
-/
namespace Mainboard

theorem except_bind_eq_ok_iff {α β ε : Type} {x : Except ε α} {f : α → Except ε β} {b : β} :
    (x >>= f) = .ok b ↔ ∃ a, x = .ok a ∧ f a = .ok b := by
  cases x with
  | error e => exact ⟨nofun, nofun⟩
  | ok a => exact ⟨fun h => ⟨a, rfl, h⟩, by rintro ⟨_, ⟨⟩, h⟩; exact h⟩

/-! ## Lengths of what is written -/

namespace Encode

theorem u8_eq (v : UInt8) : u8 v = LittleEndian.toBytes 1 v.toNat := by
  simp [u8, LittleEndian.toBytes]

@[simp] theorem length_u32 (v : UInt32) : (u32 v).length = 4 := LittleEndian.length_toBytes 4 _

@[simp] theorem length_bool (v : Bool) : (bool v).length = 1 := rfl

@[simp] theorem length_vec (bs : Bytes) : (vec bs).length = 4 + bs.length := by
  rw [vec, List.length_append, LittleEndian.length_toBytes]

end Encode

namespace Decode

/-! ## Readers -/

/-- The reader takes exactly these bytes, whatever follows them, and gives the value. -/
def Reads (d : Decode α) (bs : Bytes) (a : α) : Prop := ∀ rest, d (bs ++ rest) = .ok a rest

variable {a : α} {b : β} {bs cs : Bytes}

theorem reads_pure (a : α) : Reads (pure a) [] a := fun _ => rfl

theorem Reads.bind {d : Decode α} {f : α → Decode β} (hd : d.Reads bs a) (hf : (f a).Reads cs b) :
    Reads (d >>= f) (bs ++ cs) b := by
  intro rest
  change EStateM.bind d f (bs ++ cs ++ rest) = .ok b rest
  unfold EStateM.bind
  rw [List.append_assoc, hd (cs ++ rest)]
  exact hf rest

theorem Reads.bind_last {d : Decode α} {f : α → Decode β} (hd : d.Reads bs a)
    (hf : (f a).Reads [] b) : Reads (d >>= f) bs b := by
  have h := hd.bind hf
  rwa [List.append_nil] at h

theorem Reads.map {d : Decode α} (hd : d.Reads bs a) (f : α → β) :
    Reads (do return f (← d)) bs (f a) :=
  hd.bind_last (reads_pure (f a))

theorem Reads.of_pos {p : Prop} [Decidable p] {d e : Decode α} (hd : d.Reads bs a) (hp : p) :
    Reads (if p then d else e) bs a := by
  rwa [if_pos hp]

theorem Reads.of_neg {p : Prop} [Decidable p] {d e : Decode α} (he : e.Reads bs a) (hp : ¬p) :
    Reads (if p then d else e) bs a := by
  rwa [if_neg hp]

/-! ## Words -/

theorem reads_bytes (bs : Bytes) : (bytes bs.length).Reads bs bs := bytes_append rfl

theorem reads_word {n v : Nat} (h : v < 256 ^ n) : (word n).Reads (LittleEndian.toBytes n v) v := by
  have hlength := LittleEndian.length_toBytes n v
  have hbytes := reads_bytes (LittleEndian.toBytes n v)
  rw [hlength] at hbytes
  have hword := hbytes.map LittleEndian.ofBytes
  rwa [LittleEndian.ofBytes_toBytes_of_lt h] at hword

theorem reads_u8 (v : UInt8) : u8.Reads (Encode.u8 v) v := by
  have h := (reads_word (n := 1) v.toNat_lt).map UInt8.ofNat
  rwa [UInt8.ofNat_toNat, ← Encode.u8_eq] at h

theorem reads_u16 (v : UInt16) : u16.Reads (Encode.u16 v) v := by
  have h := (reads_word (n := 2) v.toNat_lt).map UInt16.ofNat
  rwa [UInt16.ofNat_toNat] at h

theorem reads_u32 (v : UInt32) : u32.Reads (Encode.u32 v) v := by
  have h := (reads_word (n := 4) v.toNat_lt).map UInt32.ofNat
  rwa [UInt32.ofNat_toNat] at h

theorem reads_u64 (v : UInt64) : u64.Reads (Encode.u64 v) v := by
  have h := (reads_word (n := 8) v.toNat_lt).map UInt64.ofNat
  rwa [UInt64.ofNat_toNat] at h

theorem reads_bool (v : Bool) : bool.Reads (Encode.bool v) v := by
  intro rest
  cases v <;> rfl

/-! ## Strings and lists -/

theorem reads_vec (h : bs.length < 256 ^ 4) : vec.Reads (Encode.vec bs) bs :=
  (reads_word h).bind (reads_bytes bs)

theorem Reads.listInto {item : Decode β} {encode : α → Bytes} {f : α → β} {l : List α}
    (h : ∀ a ∈ l, item.Reads (encode a) (f a)) (acc : List β) :
    Reads (Decode.listInto item l.length acc) (l.flatMap encode) (acc.reverse ++ l.map f) := by
  induction l generalizing acc with
  | nil =>
    rw [List.map_nil, List.append_nil]
    exact reads_pure acc.reverse
  | cons a l ih =>
    have hrest := ih (fun b hb => h b (List.mem_cons_of_mem a hb)) (f a :: acc)
    rw [List.reverse_cons, List.append_assoc, List.singleton_append, ← List.map_cons] at hrest
    exact (h a List.mem_cons_self).bind hrest

theorem Reads.counted {item : Decode β} {encode : α → Bytes} {f : α → β} {l : List α}
    (h : ∀ a ∈ l, item.Reads (encode a) (f a)) (hlength : l.length < 2 ^ 32) :
    Reads (Decode.counted item) (Encode.u32 (UInt32.ofNat l.length) ++ l.flatMap encode)
      (l.map f) := by
  have hcount : (UInt32.ofNat l.length).toNat = l.length := by
    rw [UInt32.toNat_ofNat', Nat.mod_eq_of_lt hlength]
  have hword : Reads (word 4) (Encode.u32 (UInt32.ofNat l.length)) l.length := by
    unfold Encode.u32
    rw [hcount]
    exact reads_word hlength
  exact hword.bind (Reads.listInto h [])

/-! ## Whole payloads -/

theorem Reads.parse {d : Decode α} (h : d.Reads bs a) : d.parse bs = .ok a := by
  have hd : d bs = .ok a [] := by
    have h := h []
    rwa [List.append_nil] at h
  have hrun : (do let a ← d; finish; return a : Decode α).run bs = .ok a [] := by
    change EStateM.bind d _ bs = _
    unfold EStateM.bind
    rw [hd]
    rfl
  unfold Decode.parse
  rw [hrun]

end Decode
end Mainboard
