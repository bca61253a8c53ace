import Mainboard.Proofs.Snapshot.Container

/-!
# What is set is read back

A container is built by setting items under tags, in any order and as often as one likes. Of the
items under one tag the last one stays. It is found in the blob again, by the reader for its type,
and the blob shows nothing of the order in which the tags were set or of the items that were
replaced.
-/
namespace Mainboard
namespace Container

def build (id : DeviceId) (device : Version) (calls : List (UInt16 × Item)) : Container :=
  calls.foldl (fun c call => c.setItem call.1 call.2) (empty id device)

def lastItem? (calls : List (UInt16 × Item)) (tag : UInt16) : Option Item :=
  calls.reverse.lookup tag

/-- The reader for the type of an item finds it under the tag. -/
def Shows (c : Container) (tag : UInt16) : Item → Prop
  | .u8 v => c.u8 tag = .ok (some v)
  | .bool v => c.bool tag = .ok (some v)
  | .u16 v => c.u16 tag = .ok (some v)
  | .u32 v => c.u32 tag = .ok (some v)
  | .u64 v => c.u64 tag = .ok (some v)
  | .bytes v => c.bytes tag = some v
  | .vec v => c.bytes tag = some (Encode.vec v)

variable {c : Container} {tag : UInt16}

theorem shows_of_bytes {item : Item} (h : c.bytes tag = some item.encode) : c.Shows tag item := by
  cases item with
  | u8 v => exact u8_of_bytes h
  | bool v => exact bool_of_bytes h
  | u16 v => exact u16_of_bytes h
  | u32 v => exact u32_of_bytes h
  | u64 v => exact u64_of_bytes h
  | bytes v => exact h
  | vec v => exact h

/-! ## Containers that are built -/

variable (id : DeviceId) (device : Version) {calls calls' : List (UInt16 × Item)}

def payloads (calls : List (UInt16 × Item)) : Fields :=
  calls.map fun call => (call.1, call.2.encode)

theorem build_eq (calls : List (UInt16 × Item)) :
    build id device calls =
      { empty id device with fields := Fields.setAll [] (payloads calls) } := by
  have h : ∀ c : Container, calls.foldl (fun c call => c.setItem call.1 call.2) c =
      { c with fields := c.fields.setAll (payloads calls) } := by
    induction calls with
    | nil => exact fun _ => rfl
    | cons call calls ih => exact fun c => ih (c.setItem call.1 call.2)
  exact h (empty id device)

theorem bytes_build (calls : List (UInt16 × Item)) (tag : UInt16) :
    (build id device calls).bytes tag = (lastItem? calls tag).map Item.encode := by
  have hlookup : ∀ l : List (UInt16 × Item),
      (payloads l).lookup tag = (l.lookup tag).map Item.encode := by
    intro l
    induction l with
    | nil => rfl
    | cons call l ih =>
      unfold payloads at ih ⊢
      rw [List.map_cons, List.lookup_cons, List.lookup_cons, ih]
      split <;> rfl
  have hreverse : (payloads calls).reverse = payloads calls.reverse := List.map_reverse.symm
  have hnone : Fields.find? [] tag = none := rfl
  rw [build_eq]
  change (Fields.setAll [] (payloads calls)).find? tag = _
  rw [Fields.find?_setAll, hnone, Option.or_none, hreverse]
  exact hlookup calls.reverse

theorem ordered_build (calls : List (UInt16 × Item)) : (build id device calls).fields.Ordered := by
  rw [build_eq]
  exact Fields.Ordered.setAll List.Pairwise.nil _

theorem wellFormed_build (hcalls : ∀ call ∈ calls, call.2.encode.length < 256 ^ 4) :
    (build id device calls).WellFormed :=
  List.foldlRecOn calls _ (wellFormed_empty id device) fun _ hc call hcall =>
    hc.set call.1 (hcalls call hcall)

theorem build_congr (h : ∀ tag, (lastItem? calls tag).map Item.encode =
    (lastItem? calls' tag).map Item.encode) : build id device calls = build id device calls' := by
  have hfields : (build id device calls).fields = (build id device calls').fields := by
    refine (ordered_build id device calls).ext (ordered_build id device calls') fun tag => ?_
    exact (bytes_build id device calls tag).trans
      ((h tag).trans (bytes_build id device calls' tag).symm)
  rw [build_eq, build_eq] at hfields ⊢
  exact congrArg (fun fields => { empty id device with fields := fields }) hfields

/-- Whatever items are set under tags, in any order, as long as their lengths can be told: the blob
is accepted for the component, with the version that was given and the format of today. Under every
tag there are the bytes of the last item that was set there, if there was one, and the reader for
its type gives that item back. Two series of items with the same last bytes under each tag make the
same blob. -/
theorem last_items_read_back (hcalls : ∀ call ∈ calls, call.2.encode.length < 2 ^ 32) :
    (∃ c, parse (build id device calls).encode id = .ok c ∧
      c.id = id ∧ c.device = device ∧ c.format = .format ∧
      ∀ tag, c.bytes tag = (lastItem? calls tag).map Item.encode ∧
        ∀ item, lastItem? calls tag = some item → c.Shows tag item) ∧
    ∀ calls',
      (∀ tag, (lastItem? calls tag).map Item.encode = (lastItem? calls' tag).map Item.encode) →
      (build id device calls).encode = (build id device calls').encode := by
  have hid : (build id device calls).id = id := by rw [build_eq, empty]
  have hparse := parse_encode (wellFormed_build id device hcalls)
  rw [hid] at hparse
  refine ⟨⟨_, hparse, hid, ?_, ?_,
    fun tag => ⟨bytes_build id device calls tag, fun item hitem => ?_⟩⟩,
    fun calls' h => congrArg encode (build_congr id device h)⟩
  · rw [build_eq, empty]
  · rw [build_eq, empty]
  · apply shows_of_bytes
    rw [bytes_build, hitem]
    rfl

/-- Under the tag three a word is replaced by a longer one; the other series has the tags in
descending order. -/
theorem replaced_word_read_back :
    let id : DeviceId := #v[0x54, 0x45, 0x53, 0x54]
    let calls : List (UInt16 × Item) :=
      [(3, .u16 0xBEEF), (1, .bool true), (3, .u32 7), (2, .bytes [])]
    let calls' : List (UInt16 × Item) := [(3, .u32 7), (2, .bytes []), (1, .u8 1)]
    (∃ c, parse (build id ⟨1, 3⟩ calls).encode id = .ok c ∧ c.device = ⟨1, 3⟩ ∧
      c.u32 3 = .ok (some 7) ∧
      c.bool 1 = .ok (some true) ∧ c.bytes 2 = some [] ∧ c.bytes 9 = none) ∧
    (build id ⟨1, 3⟩ calls).encode = (build id ⟨1, 3⟩ calls').encode := by
  intro id calls calls'
  have hcalls : ∀ call ∈ calls, call.2.encode.length < 2 ^ 32 := by decide
  obtain ⟨⟨c, hparse, -, hdevice, -, hc⟩, hsame⟩ := last_items_read_back id ⟨1, 3⟩ hcalls
  refine ⟨⟨c, hparse, hdevice, (hc 3).2 _ rfl, (hc 1).2 _ rfl, (hc 2).2 _ rfl, (hc 9).1⟩,
    hsame calls' ?_⟩
  intro tag
  simp only [lastItem?, calls, calls', List.reverse_cons, List.reverse_nil, List.nil_append,
    List.cons_append, List.lookup_cons, List.lookup_nil]
  -- the tags one, two and three, and any other
  cases h₁ : tag == 1 <;> cases h₂ : tag == 2 <;> cases h₃ : tag == 3 <;>
    simp_all [Item.encode, Encode.bool, Encode.u8]

end Container
end Mainboard
