import Mainboard.Proofs.Memory.ArenaRuns
import Mainboard.Proofs.Memory.Region

/-!
# Backing of blocks

A block is backed if there is storage for each of its bytes: a code page has a whole page once it
has any, and a window lies on a page of its region. Accesses change the bytes of regions but never
their sizes, and registered regions stay registered; so a block that was backed once stays backed,
and a copy of it can be handed in again at any later time.
-/
namespace Mainboard

namespace RegionTable

/-- What is registered stays registered, and no region changes its size. -/
structure Extends (t t' : RegionTable) : Prop where
  registered : ∀ {i handle : Nat}, t.registered[i]? = some handle → t'.registered[i]? = some handle
  size_region : ∀ handle, (t'.region handle).size = (t.region handle).size

theorem extends_self (t : RegionTable) : t.Extends t := ⟨id, fun _ => rfl⟩

theorem extends_register (t : RegionTable) (handle : Nat) :
    t.Extends (t.register handle).2 where
  registered := by
    intro i h hi
    unfold register
    split
    · exact hi
    · have hlt := (Array.getElem?_eq_some_iff.mp hi).1
      rw [Array.getElem?_push_lt hlt, ← Array.getElem?_eq_getElem hlt]
      exact hi
  size_region h := by rw [region_register]

theorem region_setRegion (t : RegionTable) (handle i : Nat) (r : Region) :
    (t.setRegion handle r).region i =
      if i = handle ∧ handle < t.regions.size then r else t.region i :=
  Memory.getD_setIfInBounds _ _ _ _ _

theorem extends_settle (t : RegionTable) (access : Access) {result : Except RegionError Region}
    (h : ∀ r, result = .ok r → r.size = (t.region access.region).size) :
    t.Extends (t.settle access result).2 := by
  unfold settle
  cases result with
  | error e => exact ⟨id, fun _ => rfl⟩
  | ok r =>
    refine ⟨id, fun i => ?_⟩
    dsimp only
    rw [region_setRegion]
    split_ifs with hi
    · rw [h r rfl, hi.1]
    · rfl

theorem extends_write (t : RegionTable) (handle offset : Nat) (src : Bytes) :
    t.Extends (t.write handle offset src).2 :=
  t.extends_settle _ fun _ => Region.size_write

theorem extends_clearRange (t : RegionTable) (handle offset length : Nat) :
    t.Extends (t.clearRange handle offset length).2 :=
  t.extends_settle _ fun _ => Region.size_clearRange

end RegionTable

namespace Block

/-- There is storage for each byte of a block that is as large as a page. -/
def Backed (t : RegionTable) : Block → Prop
  | .code storage => ∀ data ∈ storage, data.length = blockSize
  | .window region base => ∃ handle, target? t region = some handle ∧ blockSize ∣ base.toNat ∧
      base.toNat + blockSize ≤ (t.region handle).size
  | _ => True

variable {t t' : RegionTable} {b : Block}

/-- A page of a region ends where the next one begins, so no offset in it wraps around. -/
theorem windowOffset_of_dvd {base : UInt64} (hdvd : blockSize ∣ base.toNat) {offset : Nat}
    (hoffset : offset < blockSize) : windowOffset base offset = base.toNat + offset := by
  have hlt : base.toNat < 2 ^ 64 := base.toNat_lt
  obtain ⟨page, hpage⟩ := hdvd
  unfold blockSize at hpage hoffset
  unfold windowOffset
  rw [UInt64.toNat_add, UInt64.toNat_ofNat', Nat.mod_eq_of_lt (by omega : offset < 2 ^ 64)]
  exact Nat.mod_eq_of_lt (by omega)

@[simp] theorem windowOffset_zero (base : UInt64) : windowOffset base 0 = base.toNat := by
  unfold windowOffset
  rw [show UInt64.ofNat 0 = 0 from rfl, UInt64.add_zero]

theorem Backed.mono (h : b.Backed t) (ht : t.Extends t') : b.Backed t' := by
  cases b with
  | window region base =>
    obtain ⟨handle, htarget, hdvd, hsize⟩ := h
    refine ⟨handle, ht.registered htarget, hdvd, ?_⟩
    rw [ht.size_region]
    exact hsize
  | code storage => exact h
  | _ => trivial

theorem Made.backed (h : b.Made t) : b.Backed t := by
  cases h with
  | lazyCode => exact fun data hdata => by cases hdata
  | rom => trivial
  | @window region handle i htarget hi hsize =>
    have hbase : (UInt64.ofNat (i * blockSize)).toNat = i * blockSize := by
      rw [UInt64.toNat_ofNat']
      unfold blockSize
      omega
    refine ⟨handle, htarget, ?_, ?_⟩
    · rw [hbase]
      exact Nat.dvd_mul_left blockSize i
    · rw [hbase, ← Nat.succ_mul]
      exact hsize

theorem extends_write (b : Block) (t : RegionTable) (offset : Nat) (src : Bytes) :
    t.Extends (b.write t offset src).2 := by
  cases b with
  | window region base =>
    unfold write
    dsimp only
    split
    · exact t.extends_self
    · exact t.extends_write _ _ _
  | _ => exact t.extends_self

theorem length_allocated {storage : Option Bytes} (h : ∀ data ∈ storage, data.length = blockSize) :
    (allocated storage).length = blockSize := by
  cases storage with
  | none => exact List.length_replicate
  | some data => exact h data rfl

theorem Backed.write (h : b.Backed t) (offset : Nat) (src : Bytes) :
    (b.write t offset src).1.Backed t := by
  cases b with
  | window region base =>
    unfold Block.write
    dsimp only
    split <;> exact h
  | code storage =>
    intro data hdata
    cases hdata
    rw [Bytes.length_overwrite]
    exact length_allocated h
  | _ => trivial

theorem extends_clear (b : Block) (t : RegionTable) : t.Extends (b.clear t).2 := by
  unfold clear clearRange
  cases b with
  | window region base =>
    dsimp only
    split
    · exact t.extends_self
    · exact t.extends_clearRange _ _ _
  | code storage =>
    dsimp only
    split <;> exact t.extends_self
  | _ => exact t.extends_self

theorem Backed.clear (h : b.Backed t) : (b.clear t).1.Backed t := by
  unfold Block.clear clearRange
  cases b with
  | window region base =>
    dsimp only
    split <;> exact h
  | code storage =>
    dsimp only
    split
    · exact fun data hdata => by cases hdata
    · intro data hdata
      obtain ⟨old, hold, rfl⟩ := Option.map_eq_some_iff.mp hdata
      rw [length_zeroInside]
      exact h old hold
  | _ => trivial

/-- A block with storage of its own. The bus itself refuses RAM and ROM that is not a page. -/
def OwnStorage : Block → Prop
  | .ram _ => True
  | .rom _ => True
  | .code storage => ∀ data ∈ storage, data.length = blockSize
  | _ => False

theorem OwnStorage.backed (h : b.OwnStorage) (t : RegionTable) : b.Backed t := by
  cases b with
  | code storage => exact h
  | window region base => exact h.elim
  | _ => trivial

end Block
end Mainboard
