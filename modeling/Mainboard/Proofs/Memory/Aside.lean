import Mainboard.Memory.Transaction
import Mathlib.Tactic

/-!
# What mapping leaves alone

To connect pages, to disconnect them and to put blocks in place of others changes the arena, the
index, the regions and the count of connected pages. What stands aside from that is as before: the
size of RAM, the notices, and the two flags that link the bus to a processor. A store may report
something, and does nothing else to what stands aside.
-/
namespace Mainboard

theorem foldl_eq_of_step {α β γ : Type} {f : α → γ} {g : α → β → α} (hg : ∀ a x, f (g a x) = f a)
    (xs : List β) (a : α) : f (xs.foldl g a) = f a := by
  induction xs generalizing a with
  | nil => rfl
  | cons x xs ih => rw [List.foldl_cons, ih, hg]

def Transaction.tells : Transaction → Bool
  | .setPagingActive _ => true
  | .reset => true
  | .load _ => true
  | _ => false

namespace Memory

/-- The part of a bus that no change of the mapping touches. -/
structure Aside where
  ramSize : UInt32
  pagingActive : Bool
  tlbFlush : Bool
  notices : List Notice

variable (m : Memory)

def aside : Aside := ⟨m.ramSize, m.pagingActive, m.tlbFlush, m.notices⟩

/-! ## Elementary changes -/

theorem aside_alloc (b : Block) : (m.alloc b).2.aside = m.aside := by
  unfold alloc
  split <;> rfl

theorem aside_release (id : BlockId) : (m.release id).aside = m.aside := by
  unfold release discard
  dsimp only
  split_ifs <;> rfl

theorem aside_install (p : Page) (id : BlockId) : (m.install p id).aside = m.aside := by
  unfold install
  dsimp only
  rw [aside_release]
  split_ifs <;> rfl

theorem aside_connect (p : Page) (b : Block) : (m.connect p b).2.aside = m.aside :=
  (aside_install _ p _).trans (m.aside_alloc b)

theorem aside_disconnect (p : Page) : (m.disconnect p).aside = m.aside := by
  unfold disconnect
  split_ifs
  · rfl
  · exact aside_install _ p 0

theorem aside_disconnectAll (pages : List Page) : (m.disconnectAll pages).aside = m.aside :=
  foldl_eq_of_step aside_disconnect pages m

theorem aside_openWindows (region : Nat) (pages : List Page) :
    (m.openWindows region pages).aside = m.aside :=
  foldl_eq_of_step (fun n (e : Page × Nat) => n.aside_connect e.1 _) _ m

theorem aside_clear : m.clear.aside = m.aside :=
  foldl_eq_of_step (fun n id => show (n.clearBlock id).aside = n.aside from rfl) _ m

/-! ## Changes of the mapping -/

theorem aside_mapRegion (handle : Nat) (start : UInt32) (length : Nat) :
    (left (m.mapRegion handle start length)).aside = m.aside := by
  unfold mapRegion
  cases rangeError? start length with
  | some e => rfl
  | none =>
    dsimp only
    split_ifs
    · rfl
    · exact (aside_openWindows _ _ _).trans (aside_disconnectAll _ _)

theorem aside_unmap (start : UInt32) (length : Nat) :
    (left (m.unmap start length)).aside = m.aside := by
  unfold unmap
  cases rangeError? start length with
  | some e => rfl
  | none => exact m.aside_disconnectAll _

theorem aside_allocate (start : UInt32) (b : Block) :
    (left (m.allocate start b)).aside = m.aside := by
  have hdisconnect := m.aside_disconnect (Page.ofAddr start)
  unfold allocate
  dsimp only
  split_ifs
  · rfl
  · exact (aside_connect _ _ b).trans hdisconnect
  · exact hdisconnect
  · rfl

theorem aside_allocateAll (places : List (UInt32 × Block)) :
    (left (m.allocateAll places)).aside = m.aside := by
  induction places generalizing m with
  | nil => rfl
  | cons e rest ih =>
    have hfirst := m.aside_allocate e.1 e.2
    unfold allocateAll
    cases hres : m.allocate e.1 e.2 with
    | error err m' =>
      rw [hres] at hfirst
      exact hfirst
    | ok id m' =>
      rw [hres] at hfirst
      exact (ih m').trans hfirst

theorem aside_replaceBlock (old : BlockId) (b : Block) :
    (left (m.replaceBlock old b)).aside = m.aside := by
  unfold replaceBlock
  dsimp only
  split_ifs
  · rfl
  · rfl
  · exact m.aside_alloc b
  · exact (aside_release _ old).trans (m.aside_alloc b)
  · rfl

theorem aside_loadSystemBios (image : Bytes) : (left (m.loadSystemBios image)).aside = m.aside := by
  unfold loadSystemBios
  split_ifs
  · rfl
  · exact m.aside_allocateAll _

/-! ## Stores -/

theorem aside_storePiece (piece : Piece) :
    ∃ notices, (m.storePiece piece).aside = { m.aside with notices := notices } := by
  unfold storePiece
  dsimp only
  split_ifs
  · exact ⟨_, rfl⟩
  · exact ⟨m.notices, rfl⟩

theorem pagingActive_storePiece (piece : Piece) :
    (m.storePiece piece).pagingActive = m.pagingActive := by
  obtain ⟨_, h⟩ := m.aside_storePiece piece
  exact congrArg Aside.pagingActive h

theorem pagingActive_storeOrPromote (piece : Piece) :
    (m.storeOrPromote piece).pagingActive = m.pagingActive := by
  unfold storeOrPromote
  dsimp only
  rw [pagingActive_storePiece]
  split_ifs
  · exact congrArg Aside.pagingActive
      (m.aside_connect (Page.ofAddr (m.effective piece.addr)) .lazyCode)
  · rfl

/-! ## The link to the processor -/

/-- What a transaction tells the bus about paging, if anything. A reset tells that the processor
does not page, a restore whatever flag it leaves. -/
def told? (m : Memory) : Transaction → Option Bool
  | .setPagingActive active => some active
  | .reset => some false
  | .load input => some (left (m.load input)).pagingActive
  | _ => none

def tellings (m : Memory) : List Transaction → List Bool
  | [] => []
  | t :: ts => (m.told? t).toList ++ (m.step t).tellings ts

theorem tellings_append (ts us : List Transaction) :
    m.tellings (ts ++ us) = m.tellings ts ++ (m.run ts).tellings us := by
  induction ts generalizing m with
  | nil => rfl
  | cons t ts ih => rw [List.cons_append, tellings, ih, tellings, run_cons, List.append_assoc]

theorem tellings_eq_nil {ts : List Transaction} (h : ∀ t ∈ ts, t.tells = false) :
    m.tellings ts = [] := by
  induction ts generalizing m with
  | nil => rfl
  | cons t ts ih =>
    have hnone : m.told? t = none := by
      have ht := h t List.mem_cons_self
      cases t <;> first | rfl | cases ht
    rw [tellings, hnone, ih _ fun u hu => h u (List.mem_cons_of_mem t hu)]
    rfl

theorem pagingActive_step (t : Transaction) :
    (m.step t).pagingActive = (m.told? t).getD m.pagingActive := by
  cases t with
  | map handle start length =>
    exact congrArg Aside.pagingActive (m.aside_mapRegion handle start length)
  | allocate start b => exact congrArg Aside.pagingActive (m.aside_allocate start b)
  | unmap start length => exact congrArg Aside.pagingActive (m.aside_unmap start length)
  | replace old b => exact congrArg Aside.pagingActive (m.aside_replaceBlock old b)
  | loadSystemBios image => exact congrArg Aside.pagingActive (m.aside_loadSystemBios image)
  | writeWord addr width value => exact foldl_eq_of_step pagingActive_storePiece _ m
  | copyIn addr src => exact foldl_eq_of_step pagingActive_storeOrPromote _ m
  | clear => exact congrArg Aside.pagingActive m.aside_clear
  | register | readWord | copyOut | setGateA20 | setPagingActive | takeTlbFlush | reset | load =>
    rfl

theorem pagingActive_run (ts : List Transaction) :
    (m.run ts).pagingActive = (m.tellings ts).getLastD m.pagingActive := by
  induction ts generalizing m with
  | nil => rfl
  | cons t ts ih =>
    rw [run_cons, ih, pagingActive_step, tellings]
    cases m.told? t with
    | none => rfl
    | some active => exact List.getLastD_cons.symm

end Memory
end Mainboard
