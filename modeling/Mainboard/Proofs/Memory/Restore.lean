import Mainboard.Memory.Transaction
import Mainboard.Proofs.Snapshot.Codec
import Mathlib.Tactic

/-!
# What a restore puts in place

The typed reading of a snapshot establishes facts about its result that the bus relies on later:
restored blocks are whole connected pages, and restored entries name restored blocks. A restore
that gets past the reading replaces the bus by what was read, up to the count and the two flags.
-/
namespace Mainboard

namespace Decode

def Yields (d : Decode α) (P : α → Prop) : Prop :=
  ∀ input a rest, d input = .ok a rest → P a

variable {P : α → Prop} {Q : β → Prop}

theorem yields_pure {a : α} (h : P a) : Yields (pure a) P := by
  intro input b rest hb
  cases hb
  exact h

theorem yields_throw (e : SnapshotError) : Yields (throw e) P := by
  intro input b rest hb
  cases hb

theorem yields_true (d : Decode α) : Yields d fun _ => True := fun _ _ _ _ => trivial

theorem Yields.bind {d : Decode α} {f : α → Decode β} (hd : d.Yields P)
    (hf : ∀ a, P a → (f a).Yields Q) : Yields (d >>= f) Q := by
  intro input b rest hb
  change EStateM.bind d f input = .ok b rest at hb
  unfold EStateM.bind at hb
  cases hres : d input with
  | error e s => simp [hres] at hb
  | ok a s =>
    simp only [hres] at hb
    exact hf a (hd input a s hres) s b rest hb

theorem Yields.listInto {item : Decode α} (h : item.Yields P) (n : Nat) {acc : List α}
    (hacc : ∀ a ∈ acc, P a) : Yields (Decode.listInto item n acc) fun l => ∀ a ∈ l, P a := by
  induction n generalizing acc with
  | zero => exact yields_pure fun a ha => hacc a (List.mem_reverse.mp ha)
  | succ n ih =>
    refine h.bind fun a ha => ih fun b hb => ?_
    rcases List.mem_cons.mp hb with rfl | hb
    · exact ha
    · exact hacc b hb

theorem Yields.counted {item : Decode α} (h : item.Yields P) :
    Yields (Decode.counted item) fun l => ∀ a ∈ l, P a :=
  (yields_true _).bind fun n _ => h.listInto n (by simp)

theorem Yields.mono {d : Decode α} {P' : α → Prop} (hd : d.Yields P) (h : ∀ a, P a → P' a) :
    d.Yields P' :=
  fun input a rest hrun => h a (hd input a rest hrun)

theorem yields_length_listInto (item : Decode α) (n : Nat) (acc : List α) :
    Yields (Decode.listInto item n acc) fun l => l.length = acc.length + n := by
  induction n generalizing acc with
  | zero => exact yields_pure List.length_reverse
  | succ n ih =>
    refine (yields_true item).bind fun a _ => (ih (a :: acc)).mono fun l hl => ?_
    rw [hl, List.length_cons]
    omega

theorem eq_ok_of_parse {d : Decode α} {payload : Bytes} {a : α} (h : d.parse payload = .ok a) :
    ∃ rest, d payload = .ok a rest := by
  unfold Decode.parse at h
  split at h
  · rename_i b rest hrun
    cases h
    change EStateM.bind d _ payload = .ok a rest at hrun
    unfold EStateM.bind at hrun
    cases hres : d payload with
    | error e s => simp [hres] at hrun
    | ok b s =>
      simp only [hres] at hrun
      change EStateM.bind Decode.finish _ s = .ok a rest at hrun
      unfold EStateM.bind at hrun
      cases hfinish : Decode.finish s with
      | error e s' => simp [hfinish] at hrun
      | ok u s' =>
        simp only [hfinish] at hrun
        cases hrun
        exact ⟨s, rfl⟩
  · cases h

theorem Yields.parse {d : Decode α} (h : d.Yields P) {payload : Bytes} {a : α}
    (ha : d.parse payload = .ok a) : P a := by
  obtain ⟨rest, hrun⟩ := eq_ok_of_parse ha
  exact h payload a rest hrun

end Decode

namespace Memory

open Decode

/-! ## Blocks and entries as they are read -/

theorem decodePage_yields (fault : FieldFault) :
    (decodePage fault).Yields fun data => data.length = blockSize := by
  refine (yields_true _).bind fun data _ => ?_
  split_ifs with h
  · exact yields_pure h
  · exact yields_throw _

theorem decodeBlock_yields (regions : Nat) :
    (decodeBlock regions).Yields fun b => b.isConnected = true ∧ b.size = blockSize := by
  refine (yields_true _).bind fun tag _ => ?_
  split_ifs
  · exact (decodePage_yields _).bind fun data h => yields_pure ⟨rfl, h⟩
  · exact (decodePage_yields _).bind fun data h => yields_pure ⟨rfl, h⟩
  · refine (yields_true _).bind fun allocated _ => ?_
    split_ifs
    · exact (decodePage_yields _).bind fun data _ => yields_pure ⟨rfl, rfl⟩
    · exact yields_pure ⟨rfl, rfl⟩
  · refine (yields_true _).bind fun region _ => (yields_true _).bind fun base _ => ?_
    split_ifs
    · exact yields_pure ⟨rfl, rfl⟩
    · exact yields_throw _
  · exact yields_throw _

theorem decodeEntry_yields (blocks : Nat) :
    (decodeEntry blocks).Yields fun e => e.2 ≠ 0 ∧ e.2 ≤ blocks := by
  refine (yields_true _).bind fun page _ => (yields_true _).bind fun number _ => ?_
  split_ifs with hpage hnumber
  · exact yields_pure ⟨Nat.succ_ne_zero _, hnumber⟩
  · exact yields_throw _
  · exact yields_throw _

theorem parseList_forall {c : Container} {tag : UInt16} {item : Decode α} {P : α → Prop}
    (h : item.Yields P) {l : List α} (hl : parseList c tag item = .ok l) : ∀ a ∈ l, P a := by
  unfold parseList at hl
  split at hl
  · cases hl
    simp
  · exact h.counted.parse hl

/-- Staged data that can be put in place: whole blocks, and entries that name them. -/
structure Staged.WellFormed (s : Staged) : Prop where
  connected : ∀ b ∈ s.blocks, b.isConnected = true
  size : ∀ b ∈ s.blocks, b.size = blockSize
  entry_ne : ∀ e ∈ s.entries, e.2 ≠ 0
  entry_le : ∀ e ∈ s.entries, e.2 ≤ s.blocks.length

theorem stage_lists {m : Memory} {c : Container} {s : Staged} (h : m.stage c = .ok s) :
    parseList c Tag.blocks (decodeBlock m.devices.registered.size) = .ok s.blocks ∧
      parseList c Tag.index (decodeEntry s.blocks.length) = .ok s.entries := by
  simp only [stage, except_bind_eq_ok_iff] at h
  obtain ⟨_, -, _, -, _, -, blocks, hblocks, entries, hentries, hs⟩ := h
  cases hs
  exact ⟨hblocks, hentries⟩

theorem stage_wellFormed {m : Memory} {c : Container} {s : Staged} (h : m.stage c = .ok s) :
    s.WellFormed := by
  obtain ⟨hblocks, hentries⟩ := stage_lists h
  have hb := parseList_forall (decodeBlock_yields _) hblocks
  have he := parseList_forall (decodeEntry_yields _) hentries
  exact ⟨fun b h => (hb b h).1, fun b h => (hb b h).2, fun e h => (he e h).1, fun e h => (he e h).2⟩

/-! ## The bus that a restore leaves -/

theorem left_adoptFlags (m : Memory) (c : Container) : ∃ count paging flush,
    left (m.adoptFlags c) =
      { m with mappedCount := count, pagingActive := paging, tlbFlush := flush } := by
  unfold adoptFlags
  split
  · exact ⟨m.mappedCount, m.pagingActive, m.tlbFlush, rfl⟩
  · rename_i count _
    dsimp only
    split
    · exact ⟨count.getD 0, m.pagingActive, m.tlbFlush, rfl⟩
    · rename_i paging _
      split
      · exact ⟨count.getD 0, paging.getD false, m.tlbFlush, rfl⟩
      · rename_i flush _
        exact ⟨count.getD 0, paging.getD false, flush.getD false, rfl⟩

/-- A restore either leaves the bus or replaces it by staged data. -/
theorem left_load_of_stage (m : Memory) (input : Bytes) :
    left (m.load input) = m ∨ ∃ c s, m.stage c = .ok s ∧ ∃ count paging flush,
      left (m.load input) =
        { m.adopt s with mappedCount := count, pagingActive := paging, tlbFlush := flush } := by
  unfold load
  split
  · exact Or.inl rfl
  · split
    · exact Or.inl rfl
    · rename_i s hs
      exact Or.inr ⟨_, s, hs, left_adoptFlags _ _⟩

theorem left_load (m : Memory) (input : Bytes) :
    left (m.load input) = m ∨ ∃ s : Staged, s.WellFormed ∧ ∃ count paging flush,
      left (m.load input) =
        { m.adopt s with mappedCount := count, pagingActive := paging, tlbFlush := flush } := by
  rcases left_load_of_stage m input with hload | ⟨c, s, hs, hload⟩
  · exact Or.inl hload
  · exact Or.inr ⟨s, stage_wellFormed hs, hload⟩

theorem block_adopt (m : Memory) (s : Staged) (id : BlockId) :
    (m.adopt s).block id = (Block.unconnected :: s.blocks).getD id .unconnected := by
  simp [block, adopt, Array.getD_eq_getD_getElem?, List.getD_eq_getElem?_getD]

theorem quickPages_le (ramSize : UInt32) : quickPages ramSize ≤ 1048576 := by
  have := ramSize.toNat_lt
  unfold quickPages
  omega

end Memory
end Mainboard
