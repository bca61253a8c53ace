import Mainboard.Proofs.Memory.WordAccess

/-!
# How a store is cut

The pieces of a store follow one another: each is not empty, lies in one page and starts where the
one before it ends. So they are in ascending order, no two of them share an address, and together
they go over exactly the addresses that are stored to. Addresses count on at zero after the last
one; what is before and after is told by how far an address is behind the start.
-/
namespace Mainboard

def distance (start addr : UInt32) : Nat := (addr - start).toNat

variable {start addr : UInt32} {k n length : Nat}

theorem distance_add (start : UInt32) (h : k < 2 ^ 32) : distance start (start + .ofNat k) = k := by
  unfold distance
  rw [UInt32.add_comm, UInt32.add_sub_cancel]
  exact UInt32.toNat_ofNat_of_lt' h

theorem add_distance (start addr : UInt32) : start + .ofNat (distance start addr) = addr := by
  unfold distance
  rw [UInt32.ofNat_toNat, UInt32.add_comm, UInt32.sub_add_cancel]

def Span.Covers (s : Span) (addr : UInt32) : Prop := distance s.addr addr < s.length

/-- A stretch that does not come around goes over the addresses between its two ends. -/
theorem Span.covers_iff (h : k + length ≤ 2 ^ 32) :
    (⟨start + .ofNat k, length⟩ : Span).Covers addr ↔
    k ≤ distance start addr ∧ distance start addr < k + length := by
  have hlt : distance start addr < 2 ^ 32 := UInt32.toNat_lt _
  have haddr := add_distance start addr
  generalize distance start addr = d at *
  have hstart := start.toNat_lt
  unfold Covers distance
  dsimp only
  rw [← haddr, UInt32.toNat_sub, UInt32.toNat_add, UInt32.toNat_add, UInt32.toNat_ofNat',
    UInt32.toNat_ofNat']
  omega

namespace Piece

def span (piece : Piece) : Span := ⟨piece.addr, piece.bytes.length⟩

/-- A piece is not empty and lies in one page. -/
def InPage (piece : Piece) : Prop :=
  0 < piece.bytes.length ∧ offsetInPage piece.addr + piece.bytes.length ≤ 4096

/-- Pieces that go from `k` to `n` behind a start, without a gap. -/
inductive Follow (start : UInt32) : Nat → List Piece → Nat → Prop
  | nil (n : Nat) : Follow start n [] n
  | cons {k n : Nat} {piece : Piece} {rest : List Piece} : piece.addr = start + .ofNat k →
    piece.InPage →
      Follow start (k + piece.bytes.length) rest n → Follow start k (piece :: rest) n

variable {piece : Piece} {pieces before after : List Piece} {src : Bytes}

/-! ## The two ways to cut -/

theorem follow_ofBulk (start : UInt32) (k : Nat) (src : Bytes) :
    Follow start k (ofBulk (start + .ofNat k) src) (k + src.length) := by
  generalize haddr : start + .ofNat k = addr
  induction addr, src using ofBulk.induct generalizing k with
  | case1 addr =>
    rw [ofBulk]
    exact .nil k
  | case2 addr b bs room ih =>
    have hoffset := offsetInPage_lt addr
    have hroom : room = 4096 - offsetInPage addr := rfl
    have htake : ((b :: bs).take room).length = min room (b :: bs).length := List.length_take
    have hpos : 0 < (b :: bs).length := Nat.succ_pos _
    have hpage : InPage ⟨addr, (b :: bs).take room⟩ := by
      unfold InPage
      dsimp only
      omega
    rw [ofBulk]
    refine .cons haddr.symm hpage ?_
    dsimp only
    by_cases hle : room ≤ (b :: bs).length
    · have hnext : start + .ofNat (k + room) = addr + .ofNat room := by
        rw [UInt32.ofNat_add, ← UInt32.add_assoc, haddr]
      have hsum : k + room + ((b :: bs).drop room).length = k + (b :: bs).length := by
        rw [List.length_drop]
        omega
      rw [htake, Nat.min_eq_left hle, ← hsum]
      exact ih (k + room) hnext
    · -- the last piece takes all that is left
      have hdrop : (b :: bs).drop room = [] := List.drop_eq_nil_of_le (by omega)
      rw [htake, Nat.min_eq_right (by omega), hdrop, ofBulk]
      exact .nil _

theorem follow_bytes (start : UInt32) (k : Nat) (src : Bytes) :
    Follow start k ((src.zipIdx k).map fun e => ⟨start + .ofNat e.2, [e.1]⟩) (k + src.length) := by
  induction src generalizing k with
  | nil => exact .nil k
  | cons b bs ih =>
    have hoffset := offsetInPage_lt (start + .ofNat k)
    have hsum : k + (b :: bs).length = k + 1 + bs.length := by
      rw [List.length_cons]
      omega
    rw [List.zipIdx_cons, List.map_cons, hsum]
    exact .cons rfl ⟨Nat.one_pos, hoffset⟩ (ih (k + 1))

theorem follow_ofWord (start : UInt32) (h : 0 < src.length) :
    Follow start 0 (ofWord start src) src.length := by
  unfold ofWord
  split_ifs with hfit
  · have hstart : start = start + .ofNat 0 := (Memory.add_ofNat_zero start).symm
    refine .cons hstart ⟨h, hfit⟩ ?_
    rw [Nat.zero_add]
    exact .nil _
  · have hbytes := follow_bytes start 0 src
    rwa [Nat.zero_add] at hbytes

/-! ## Order and extent -/

namespace Follow

theorem le (h : Follow start k pieces n) : k ≤ n := by
  induction h with
  | nil => exact le_rfl
  | cons haddr hpage hrest ih => omega

theorem around (h : Follow start k (before ++ piece :: after) n) :
    ∃ i, k ≤ i ∧ i + piece.bytes.length ≤ n ∧ piece.addr = start + .ofNat i ∧ piece.InPage ∧
      Follow start k before i ∧ Follow start (i + piece.bytes.length) after n := by
  induction before generalizing k with
  | nil =>
    cases h with
    | cons haddr hpage hrest => exact ⟨k, le_rfl, hrest.le, haddr, hpage, .nil k, hrest⟩
  | cons first before ih =>
    cases h with
    | cons haddr hpage hrest =>
      obtain ⟨i, hki, hin, hpiece, hinpage, hbefore, hafter⟩ := ih hrest
      exact ⟨i, by omega, hin, hpiece, hinpage, .cons haddr hpage hbefore, hafter⟩

theorem inPage (h : Follow start k pieces n) (hmem : piece ∈ pieces) : piece.InPage := by
  obtain ⟨before, after, rfl⟩ := List.append_of_mem hmem
  obtain ⟨_, -, -, -, hpage, -⟩ := h.around
  exact hpage

theorem distance_of_covers (h : Follow start k pieces n) (hn : n ≤ 2 ^ 32) (hmem : piece ∈ pieces)
    (hcovers : piece.span.Covers addr) : k ≤ distance start addr ∧ distance start addr < n := by
  obtain ⟨before, after, rfl⟩ := List.append_of_mem hmem
  obtain ⟨i, hki, hin, hpiece, -⟩ := h.around
  unfold span at hcovers
  rw [hpiece, Span.covers_iff (hin.trans hn)] at hcovers
  omega

theorem covers_addr (h : Follow start 0 pieces n) (hn : n ≤ 2 ^ 32) (hmem : piece ∈ pieces) :
    (⟨start, n⟩ : Span).Covers piece.addr := by
  have hself : piece.span.Covers piece.addr := by
    have hzero : distance piece.addr piece.addr = 0 := congrArg UInt32.toNat (UInt32.sub_self _)
    exact hzero.trans_lt (h.inPage hmem).1
  exact (h.distance_of_covers hn hmem hself).2

theorem exists_covers (h : Follow start k pieces n) (hn : n ≤ 2 ^ 32) (hk : k ≤ distance start addr)
    (hlt : distance start addr < n) : ∃ piece ∈ pieces, piece.span.Covers addr := by
  induction h with
  | nil => omega
  | @cons k n piece rest haddr hpage hrest ih =>
    by_cases hfirst : distance start addr < k + piece.bytes.length
    · refine ⟨piece, List.mem_cons_self, ?_⟩
      unfold span
      rw [haddr, Span.covers_iff (hrest.le.trans hn)]
      exact ⟨hk, hfirst⟩
    · obtain ⟨piece', hmem, hcovers⟩ := ih hn (not_lt.mp hfirst) hlt
      exact ⟨piece', List.mem_cons_of_mem piece hmem, hcovers⟩

theorem ascending (h : Follow start k pieces n) (hn : n ≤ 2 ^ 32) :
    (pieces.map span).Pairwise
      fun v w => distance start v.addr + v.length ≤ distance start w.addr := by
  induction h with
  | nil => exact .nil
  | @cons k n piece rest haddr hpage hrest ih =>
    refine .cons ?_ (ih hn)
    rw [List.forall_mem_map]
    intro piece' hmem
    obtain ⟨before, after, rfl⟩ := List.append_of_mem hmem
    obtain ⟨i, hki, hin, hpiece', ⟨hpos, -⟩, -⟩ := hrest.around
    unfold span
    dsimp only
    rw [haddr, hpiece', distance_add start (by omega), distance_add start (by omega)]
    exact hki

end Follow

theorem InPage.ofAddr_eq (h : piece.InPage) (hcovers : piece.span.Covers addr) :
    Page.ofAddr addr = Page.ofAddr piece.addr := by
  have hfit : offsetInPage piece.addr + distance piece.addr addr < blockSize :=
    lt_of_lt_of_le (Nat.add_lt_add_left hcovers _) h.2
  rw [← add_distance piece.addr addr]
  exact (Memory.page_add hfit).1

end Piece
end Mainboard
