import Mainboard.Proofs.Memory.Stock

/-!
# Blocks that a restore takes

In all histories of a bus, restores of arbitrary bytes included, its code pages have whole pages of
storage and its windows lead to registered regions, if whatever an owner hands in is storage or a
copy of a block that the bus has had. So a restore takes all its blocks.
-/
namespace Mainboard

/-- A code page has a whole page once it has storage, and a window leads to a registered region. -/
def Block.Restorable (t : RegionTable) : Block → Prop
  | .code storage => ∀ data ∈ storage, data.length = blockSize
  | .window region _ => region < t.registered.size
  | _ => True

namespace Block

variable {t t' : RegionTable} {b : Block}

theorem Restorable.mono (h : b.Restorable t) (ht : t.Extends t') : b.Restorable t' := by
  cases b with
  | window region base =>
    have hlt : region < t.registered.size := h
    have hget := ht.registered (Array.getElem?_eq_getElem hlt)
    exact (Array.getElem?_eq_some_iff.mp hget).1
  | code storage => exact h
  | _ => trivial

theorem Restorable.congr (h : b.Restorable t) (ht : t'.registered = t.registered) :
    b.Restorable t' := by
  cases b with
  | window region base =>
    change region < t'.registered.size
    rw [ht]
    exact h
  | code storage => exact h
  | _ => trivial

theorem Made.restorable (h : b.Made t) : b.Restorable t := by
  cases h with
  | lazyCode => exact fun data hdata => by cases hdata
  | rom => trivial
  | window htarget hi hsize => exact (Array.getElem?_eq_some_iff.mp htarget).1

theorem Restorable.write (h : b.Restorable t) (offset : Nat) (src : Bytes) :
    (b.write t offset src).1.Restorable t := by
  cases b with
  | window region base =>
    unfold Block.write
    dsimp only
    split <;> exact h
  | code storage => exact Backed.write (t := t) (b := .code storage) h offset src
  | _ => trivial

theorem Restorable.clear (h : b.Restorable t) : (b.clear t).1.Restorable t := by
  cases b with
  | window region base =>
    unfold Block.clear clearRange
    dsimp only
    split <;> exact h
  | code storage =>
    have hclear := Backed.clear (t := t) (b := .code storage) h
    unfold Block.clear clearRange at hclear ⊢
    dsimp only at hclear ⊢
    split at hclear <;> rename_i hrange
    · rw [if_pos hrange]
      exact hclear
    · rw [if_neg hrange]
      exact hclear
  | _ => trivial

theorem lasting_restorable : Lasting fun t b => b.Restorable t where
  unconnected _ := trivial
  made := Made.restorable
  mono := Restorable.mono
  write offset src h := h.write offset src
  clear := Restorable.clear

theorem OwnStorage.restorable (h : b.OwnStorage) (t : RegionTable) : b.Restorable t := by
  cases b with
  | code storage => exact h
  | window region base => exact h.elim
  | _ => trivial

/-- A code page has no storage or a whole page of it. This is what a saved block of any origin
needs; where its window leads does not matter. -/
def WholeStorage : Block → Prop
  | .code storage => ∀ data ∈ storage, data.length = blockSize
  | _ => True

theorem Restorable.wholeStorage (h : b.Restorable t) : b.WholeStorage := by
  cases b with
  | code storage => exact h
  | _ => trivial

theorem WholeStorage.restorable (h : b.WholeStorage) (hown : b.kind ≠ .window) :
    b.Restorable t := by
  cases b with
  | code storage => exact h
  | window region base => exact absurd rfl hown
  | _ => trivial

theorem wholeStorage_of_window (h : b.kind = .window) : b.WholeStorage := by
  cases b with
  | code storage => cases h
  | _ => trivial

theorem lasting_wholeStorage : Lasting fun _ b => b.WholeStorage where
  unconnected _ := trivial
  made h := h.restorable.wholeStorage
  mono h _ := h
  write := by
    intro t b offset src h
    by_cases hkind : b.kind = .window
    · exact wholeStorage_of_window ((kind_write b t offset src).trans hkind)
    · exact ((h.restorable (t := t) hkind).write offset src).wholeStorage
  clear := by
    intro t b h
    by_cases hkind : b.kind = .window
    · exact wholeStorage_of_window ((kind_clearRange b t 0 b.size).trans hkind)
    · exact (h.restorable (t := t) hkind).clear.wholeStorage

end Block

namespace Memory

open Decode

variable {ramSize : UInt32} {regions : Array Region} {had : Block → Prop} {m : Memory}

/-! ## Restores -/

theorem decodeBlock_yields_restorable (t : RegionTable) :
    (decodeBlock t.registered.size).Yields fun b => b.Restorable t := by
  refine (yields_true _).bind fun tag _ => ?_
  split_ifs
  · exact (yields_true _).bind fun data _ => yields_pure trivial
  · exact (yields_true _).bind fun data _ => yields_pure trivial
  · refine (yields_true _).bind fun allocated _ => ?_
    split_ifs
    · refine (decodePage_yields _).bind fun data hlength => yields_pure ?_
      rintro stored ⟨⟩
      exact hlength
    · exact yields_pure fun data hdata => by cases hdata
  · refine (yields_true _).bind fun region _ => (yields_true _).bind fun base _ => ?_
    split_ifs with hregion
    · exact yields_pure hregion
    · exact yields_throw _
  · exact yields_throw _

/-- A lasting property that is checked when a block is read holds of the blocks that a restore
leaves. -/
theorem Stocked.load {B : RegionTable → Block → Prop} (hB : Block.Lasting B)
    (h : m.Stocked B False had)
    (hread : (decodeBlock m.devices.registered.size).Yields (B m.devices)) (input : Bytes) :
    (left (m.load input)).Stocked B False had := by
  have hsafe := h.safe.load input
  rcases left_load_of_stage m input with hload | ⟨c, s, hs, count, paging, flush, hload⟩
  · rw [hload]
    exact h
  · have hblocks := parseList_forall hread (stage_lists hs).1
    rw [hload] at hsafe ⊢
    refine ⟨hsafe, fun id => ?_, h.past⟩
    change B m.devices ((m.adopt s).block id)
    rw [block_adopt, List.getD_eq_getElem?_getD]
    cases hget : (Block.unconnected :: s.blocks)[id]? with
    | none => exact hB.unconnected _
    | some b =>
      rcases List.mem_cons.mp (List.mem_of_getElem? hget) with rfl | hb
      · exact hB.unconnected _
      · exact hblocks b hb

/-! ## Histories -/

/-- The states that a bus reaches by any history, each with the blocks that it has had before. A
block that is handed in is storage of its own or a copy of a block of this bus. -/
inductive Lived (ramSize : UInt32) (regions : Array Region) : (Block → Prop) → Memory → Prop
  | new : Lived ramSize regions (fun _ => False) (new ramSize regions)
  | step {had : Block → Prop} {m : Memory} (t : Transaction) : Lived ramSize regions had m →
      t.Hands (fun _ b => b.OwnStorage ∨ had b ∨ ∃ id, m.block id = b) m.devices →
      Lived ramSize regions (fun b => had b ∨ ∃ id, m.block id = b) (m.step t)

theorem Lived.stocked (h : Lived ramSize regions had m) :
    m.Stocked (fun t b => b.Restorable t) False had := by
  induction h with
  | new => exact stocked_new Block.lasting_restorable ramSize regions False
  | @step had m t _ hands ih =>
    have hnow := ih.remember
    have hstable := stable_stocked Block.lasting_restorable False
      fun b => had b ∨ ∃ id, m.block id = b
    refine hstable.step (fun _ _ => Block.Made.restorable) hnow t ?_ fun input _ =>
      hnow.load Block.lasting_restorable (decodeBlock_yields_restorable m.devices) input
    refine hands.imp fun b hb => ?_
    rcases hb with hown | hb
    · exact hown.restorable _
    · exact hnow.past b hb

/-! ## Histories as runs -/

def history (had : Block → Prop) (m : Memory) : List Transaction → Block → Prop
  | [] => had
  | t :: ts => history (fun b => had b ∨ ∃ id, m.block id = b) (m.step t) ts

/-- Each block that is handed in is storage of its own or a copy of a block that the bus has or had.
-/
def HandsOwn (had : Block → Prop) (m : Memory) : List Transaction → Prop
  | [] => True
  | t :: ts => t.Hands (fun _ b => b.OwnStorage ∨ had b ∨ ∃ id, m.block id = b) m.devices ∧
      HandsOwn (fun b => had b ∨ ∃ id, m.block id = b) (m.step t) ts

theorem HandsOwn.mono {had' : Block → Prop} {ts : List Transaction} (h : m.HandsOwn had ts)
    (hsub : ∀ b, had b → had' b) : m.HandsOwn had' ts := by
  induction ts generalizing m had had' with
  | nil => trivial
  | cons t ts ih =>
    refine ⟨h.1.imp fun b hb => hb.imp_right fun hb => hb.imp_left (hsub b), ih h.2 fun b hb => ?_⟩
    exact hb.imp_left (hsub b)

theorem handsOwn_of_ownStorage {ts : List Transaction} (m : Memory) (had : Block → Prop)
    (h : ∀ t ∈ ts, ∀ devices, t.Hands (fun _ b => b.OwnStorage) devices) : m.HandsOwn had ts := by
  induction ts generalizing m had with
  | nil => trivial
  | cons t ts ih =>
    refine ⟨(h t List.mem_cons_self m.devices).imp fun b => Or.inl, ih _ _ fun u hu => ?_⟩
    exact h u (List.mem_cons_of_mem t hu)

theorem Lived.run (h : Lived ramSize regions had m) {ts : List Transaction}
    (hts : m.HandsOwn had ts) :
    Lived ramSize regions (m.history had ts) (m.run ts) := by
  induction ts generalizing m had with
  | nil => exact h
  | cons t ts ih => exact ih (.step t h hts.1) hts.2

end Memory
end Mainboard
