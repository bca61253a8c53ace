import Mainboard.Proofs.Memory.Stock

/-!
# Buses that hold only blocks of their own

Without restores, and when an owner hands in only storage or copies of blocks that the bus has had,
every block of the arena is backed at every time. The blocks that a bus has had are part of the
history of a state, since a copy can be handed in long after its original is gone.
-/
namespace Mainboard

theorem Block.lasting_backed : Block.Lasting fun t b => b.Backed t where
  unconnected _ := trivial
  made := Made.backed
  mono := Backed.mono
  write offset src h := h.write offset src
  clear := Backed.clear

namespace Memory

/-- The states that a bus reaches without restores, each with the blocks that it has had before. A
block that is handed in is storage of its own or a copy of a block of this bus. -/
inductive Reached (ramSize : UInt32) (regions : Array Region) : (Block → Prop) → Memory → Prop
  | new : Reached ramSize regions (fun _ => False) (new ramSize regions)
  | step {had : Block → Prop} {m : Memory} (t : Transaction) : Reached ramSize regions had m →
      (∀ input, t ≠ .load input) →
      t.Hands (fun _ b => b.OwnStorage ∨ had b ∨ ∃ id, m.block id = b) m.devices →
      Reached ramSize regions (fun b => had b ∨ ∃ id, m.block id = b) (m.step t)

/-- The arena is safe, and all blocks that are in it or have been are backed. -/
structure Sound (had : Block → Prop) (m : Memory) : Prop where
  safe : m.ArenaSafe True
  backed : ∀ id, (m.block id).Backed m.devices
  backed_had : ∀ b, had b → b.Backed m.devices

variable {m : Memory} {had : Block → Prop}

theorem sound_iff_stocked :
    m.Sound had ↔ m.Stocked (fun t b => b.Backed t) True had :=
  ⟨fun h => ⟨h.safe, h.backed, h.backed_had⟩, fun h => ⟨h.safe, h.present, h.past⟩⟩

theorem stable_sound (had : Block → Prop) : Stable (fun t b => b.Backed t) (Sound had) := by
  have hsound : Sound had = Stocked (fun t b => b.Backed t) True had := by
    funext m
    exact propext sound_iff_stocked
  rw [hsound]
  exact stable_stocked Block.lasting_backed True had

theorem Sound.storePiece (h : m.Sound had) (piece : Piece) : (m.storePiece piece).Sound had :=
  (stable_sound had).storePiece piece h

theorem Reached.sound {ramSize : UInt32} {regions : Array Region}
    (h : Reached ramSize regions had m) :
    m.Sound had := by
  induction h with
  | new => exact sound_iff_stocked.mpr (stocked_new Block.lasting_backed ramSize regions True)
  | @step had m t _ hload hands ih =>
    have hnow := (sound_iff_stocked.mp ih).remember
    refine (stable_sound _).step (fun _ _ => Block.Made.backed) (sound_iff_stocked.mpr hnow) t ?_ ?_
    · refine hands.imp fun b hb => ?_
      rcases hb with hown | hb
      · exact hown.backed _
      · exact hnow.past b hb
    · exact fun input ht => absurd ht (hload input)

end Memory
end Mainboard
