import Mainboard.Proofs.Memory.Pieces
import Mainboard.Proofs.Memory.Promotion

/-!
# What is reported of code pages

Stores are reported piece by piece: each piece that goes into a code page is, as one stretch, and a
page that a bulk store connects is reported right before the first piece that goes into it. A code
page stays one for the rest of the store. So the reports can be told from the pieces and the bus
afterwards.
-/
namespace Mainboard

def Transaction.IsStore : Transaction → Prop
  | .writeWord _ _ _ | .copyIn _ _ => True
  | _ => False

theorem append_eq_append_cons {α : Type} {xs ys before after : List α} {x : α}
    (h : xs ++ ys = before ++ x :: after) :
    (∃ rest, xs = before ++ x :: rest ∧ after = rest ++ ys) ∨
      ∃ rest, before = xs ++ rest ∧ ys = rest ++ x :: after := by
  rcases List.append_eq_append_iff.mp h with ⟨rest, hbefore, hys⟩ | ⟨rest, hxs, hafter⟩
  · exact Or.inr ⟨rest, hbefore, hys⟩
  · cases rest with
    | nil => exact Or.inr ⟨[], by simpa using hxs.symm, hafter.symm⟩
    | cons y rest =>
      obtain ⟨rfl, rfl⟩ := List.cons.inj hafter
      exact Or.inl ⟨rest, hxs, rfl⟩

namespace Memory

open Notice

/-- The stretches that are reported when the addresses of a stretch have been stored to: in
ascending order, apart from one another, each in one page, and over the stored addresses that lead
to code pages. -/
structure ReportsStores (m' : Memory) (s : Span) (reported : List Notice) : Prop where
  ascending : (writes reported).Pairwise fun v w =>
    distance s.addr v.addr + v.length ≤ distance s.addr w.addr
  within : ∀ w ∈ writes reported, 0 < w.length ∧ offsetInPage w.addr + w.length ≤ 4096
  union : ∀ addr, (∃ w ∈ writes reported, w.Covers addr) ↔
    s.Covers addr ∧ (m'.blockAt addr).kind = .code

/-- The pages that are reported when the addresses of a stretch are stored to in bulk: each one that
was not connected, once, by the base behind the gate, and right before its first address is stored
to. -/
structure ReportsPromotions (m : Memory) (s : Span) (reported : List Notice) : Prop where
  once : (promotions reported).Nodup
  pages : ∀ base, base ∈ promotions reported ↔
    ∃ addr, s.Covers addr ∧ m.blockIdAt addr = 0 ∧ (m.pageAt addr).base = base
  first : ∀ before base after, reported = before ++ .promoted base :: after →
    ∃ addr length rest, after = .codeWritten addr length :: rest ∧ (m.pageAt addr).base = base ∧
      ∀ a, s.Covers a → distance s.addr a < distance s.addr addr → m.pageAt a ≠ m.pageAt addr

def codeSpans (m : Memory) (pieces : List Piece) : List Span :=
  (pieces.filter fun piece => (m.blockAt piece.addr).kind = .code).map Piece.span

structure StoresBulk (m : Memory) (pieces : List Piece) (reported : List Notice) (m' : Memory) :
    Prop
    extends m.Evolves reported m' where
  pageAt : ∀ addr, m'.pageAt addr = m.pageAt addr
  connected : ∀ p, m'.pageId p ≠ 0 ↔ m.pageId p ≠ 0 ∨ ∃ piece ∈ pieces, m.pageAt piece.addr = p
  writes : Notice.writes reported = m'.codeSpans pieces
  first : ∀ before base after, reported = before ++ .promoted base :: after →
    ∃ earlier piece later rest, pieces = earlier ++ piece :: later ∧
      after = .codeWritten piece.addr piece.bytes.length :: rest ∧
        (m.pageAt piece.addr).base = base ∧
        ∀ e ∈ earlier, m.pageAt e.addr ≠ m.pageAt piece.addr
  named : ∀ before addr length after, reported = before ++ .codeWritten addr length :: after →
    m.pageId (m.pageAt addr) = 0 → (m.pageAt addr).base ∈ promotions before

variable {m m' : Memory} {exact : Prop} {addr : UInt32} {n : Nat} {piece : Piece}
    {pieces : List Piece}
  {reported : List Notice} {t : Transaction}

/-! ## Pieces that go into code pages -/

theorem writes_storeReport (m : Memory) (piece : Piece) :
    writes (m.storeReport piece) =
      if (m.blockAt piece.addr).kind = .code then [piece.span] else [] := by
  unfold storeReport
  split_ifs <;> rfl

theorem promotions_storeReport (m : Memory) (piece : Piece) :
    promotions (m.storeReport piece) = [] := by
  unfold storeReport
  split_ifs <;> rfl

theorem mem_storeReport {notice : Notice} : notice ∈ m.storeReport piece ↔
    (m.blockAt piece.addr).kind = .code ∧ notice = .codeWritten piece.addr piece.bytes.length := by
  unfold storeReport
  split_ifs with hcode <;> simp [hcode]

theorem codeSpans_cons (m : Memory) (piece : Piece) (pieces : List Piece) :
    m.codeSpans (piece :: pieces) = writes (m.storeReport piece) ++ m.codeSpans pieces := by
  rw [writes_storeReport, codeSpans, List.filter_cons]
  by_cases hcode : (m.blockAt piece.addr).kind = .code
  · simp [hcode, codeSpans]
  · simp [hcode, codeSpans]

/-- The reports follow from the way the store is cut. -/
theorem reportsStores_of_follow (h : Piece.Follow addr 0 pieces n) (hn : n ≤ 2 ^ 32)
    (hwrites : writes reported = m'.codeSpans pieces) : m'.ReportsStores ⟨addr, n⟩ reported where
  ascending := by
    rw [hwrites]
    exact (h.ascending hn).sublist (List.filter_sublist.map _)
  within := by
    rw [hwrites, codeSpans, List.forall_mem_map]
    exact fun piece hmem => h.inPage (List.mem_of_mem_filter hmem)
  union := by
    intro a
    have hblock : ∀ {piece}, piece ∈ pieces → piece.span.Covers a →
        m'.blockAt a = m'.blockAt piece.addr := by
      intro piece hmem hcovers
      unfold blockAt blockIdAt
      rw [(h.inPage hmem).ofAddr_eq hcovers]
    rw [hwrites]
    constructor
    · rintro ⟨w, hw, hcovers⟩
      obtain ⟨piece, hmem, rfl⟩ := List.mem_map.mp hw
      obtain ⟨hpiece, hcode⟩ := List.mem_filter.mp hmem
      rw [hblock hpiece hcovers]
      exact ⟨(h.distance_of_covers hn hpiece hcovers).2, of_decide_eq_true hcode⟩
    · rintro ⟨hcovers, hcode⟩
      obtain ⟨piece, hpiece, hpart⟩ := h.exists_covers hn (Nat.zero_le _) hcovers
      rw [hblock hpiece hpart] at hcode
      exact ⟨_, List.mem_map_of_mem (List.mem_filter.mpr ⟨hpiece, decide_eq_true hcode⟩), hpart⟩

/-! ## Words -/

/-- The store of a word connects nothing, so what it reports can be told from the bus before. -/
theorem reports_writeBytes (m : Memory) (addr : UInt32) (src : Bytes) :
    (m.writeBytes addr src).notices = m.notices ++ (Piece.ofWord addr src).flatMap m.storeReport ∧
      ∀ a, ((m.writeBytes addr src).blockAt a).kind = (m.blockAt a).kind := by
  unfold writeBytes
  generalize Piece.ofWord addr src = pieces
  induction pieces generalizing m with
  | nil => simp
  | cons piece rest ih =>
    obtain ⟨hnotices, hkind⟩ := ih (m.storePiece piece)
    have hreport : (m.storePiece piece).storeReport = m.storeReport := by
      funext q
      unfold storeReport
      rw [kind_blockAt_storePiece]
    refine ⟨?_, fun a => ?_⟩
    · rw [List.foldl_cons, hnotices, notices_storePiece, hreport, List.flatMap_cons,
        List.append_assoc]
    · rw [List.foldl_cons, hkind, kind_blockAt_storePiece]

theorem codeSpans_eq_writes (hkind : ∀ a, (m'.blockAt a).kind = (m.blockAt a).kind)
    (pieces : List Piece) : writes (pieces.flatMap m.storeReport) = m'.codeSpans pieces := by
  induction pieces with
  | nil => rfl
  | cons piece rest ih =>
    rw [List.flatMap_cons, writes_append, ih, codeSpans_cons, writes_storeReport,
      writes_storeReport, hkind]

theorem promotions_flatMap (m : Memory) (pieces : List Piece) :
    promotions (pieces.flatMap m.storeReport) = [] := by
  induction pieces with
  | nil => rfl
  | cons piece rest ih => rw [List.flatMap_cons, promotions_append, promotions_storeReport, ih]; rfl

/-! ## Bulk stores -/

theorem pageAt_ensure (m : Memory) (addr a : UInt32) : (m.ensure addr).pageAt a = m.pageAt a := by
  unfold ensure
  split_ifs
  · exact m.pageAt_promote addr a
  · rfl

theorem pageAt_storeOrPromote (m : Memory) (piece : Piece) (addr : UInt32) :
    (m.storeOrPromote piece).pageAt addr = m.pageAt addr := by
  rw [storeOrPromote_eq, ← m.pageAt_ensure piece.addr]
  unfold pageAt
  rw [index_storePiece]

theorem pieceReport_of_connected (h : m.blockIdAt piece.addr ≠ 0) :
    m.pieceReport piece = m.storeReport piece := by
  unfold pieceReport ensureReport ensure
  rw [if_neg h, if_neg h, List.nil_append]

theorem ArenaSafe.pieceReport_of_unconnected (h : m.ArenaSafe exact)
    (hid : m.blockIdAt piece.addr = 0) :
    m.pieceReport piece =
      [.promoted (m.pageAt piece.addr).base, .codeWritten piece.addr piece.bytes.length] := by
  have hevolves := h.evolves_ensure piece.addr
  have hreport : m.ensureReport piece.addr = [.promoted (m.pageAt piece.addr).base] := if_pos hid
  have hcode : ((m.ensure piece.addr).blockAt piece.addr).kind = .code := by
    rw [(h.ensure piece.addr).blockAt_eq_pageBlock, pageAt_ensure]
    obtain ⟨hzero, hne⟩ :=
      (hevolves.base_mem (m.pageAt piece.addr)).mp (by rw [hreport]; exact .head _)
    exact hevolves.code _ hzero hne
  unfold pieceReport storeReport
  rw [hreport, if_pos hcode]
  rfl

theorem ArenaSafe.connected_storeOrPromote (h : m.ArenaSafe exact) (piece : Piece) (p : Page) :
    (m.storeOrPromote piece).pageId p ≠ 0 ↔ m.pageId p ≠ 0 ∨ m.pageAt piece.addr = p := by
  have hevolves := h.evolves_storeOrPromote piece
  have hid := h.blockIdAt_eq_pageId piece.addr
  by_cases hp : m.pageId p = 0
  · have hbase := hevolves.base_mem p
    simp only [hp, true_and] at hbase
    rw [← hbase]
    by_cases hzero : m.blockIdAt piece.addr = 0
    · have hpromotions : promotions (m.pieceReport piece) = [(m.pageAt piece.addr).base] := by
        rw [h.pieceReport_of_unconnected hzero]
        rfl
      rw [hpromotions, List.mem_singleton, Page.base_injective.eq_iff,
        or_iff_right (not_not.mpr hp), eq_comm]
    · have hne : m.pageAt piece.addr ≠ p := fun heq => hzero (hid.trans (heq ▸ hp))
      simp [pieceReport_of_connected hzero, promotions_storeReport, hp, hne]
  · simp [hp, hevolves.pageId p hp]

/-- Whether the store of a piece is reported can be told from any later bus. -/
theorem ArenaSafe.writes_pieceReport (h : m.ArenaSafe exact) (h' : m'.ArenaSafe exact)
    (hevolves : m.Evolves reported m') (hpageAt : m'.pageAt piece.addr = m.pageAt piece.addr)
    (hconnected : m'.pageId (m.pageAt piece.addr) ≠ 0) :
    writes (m.pieceReport piece) = writes (m'.storeReport piece) := by
  have hid := h.blockIdAt_eq_pageId piece.addr
  have hblock := h'.blockAt_eq_pageBlock piece.addr
  rw [hpageAt] at hblock
  by_cases hzero : m.blockIdAt piece.addr = 0
  · have hcode : (m'.blockAt piece.addr).kind = .code := by
      rw [hblock]
      exact hevolves.code _ (hid ▸ hzero) hconnected
    rw [h.pieceReport_of_unconnected hzero, writes_storeReport, if_pos hcode]
    rfl
  · have hkind : (m'.blockAt piece.addr).kind = (m.blockAt piece.addr).kind := by
      rw [hblock, h.blockAt_eq_pageBlock]
      exact hevolves.kind _ (hid ▸ hzero)
    rw [pieceReport_of_connected hzero, writes_storeReport, writes_storeReport, hkind]

theorem ArenaSafe.split_at_promoted (h : m.ArenaSafe exact) {base : UInt32}
    {before after : List Notice}
    (hsplit : m.pieceReport piece = before ++ .promoted base :: after) :
    (m.pageAt piece.addr).base = base ∧ after = [.codeWritten piece.addr piece.bytes.length] := by
  by_cases hzero : m.blockIdAt piece.addr = 0
  · rw [h.pieceReport_of_unconnected hzero] at hsplit
    cases before with
    | nil =>
      obtain ⟨hbase, hafter⟩ := List.cons.inj hsplit
      exact ⟨Notice.promoted.inj hbase, hafter.symm⟩
    | cons notice before =>
      have hmem : .promoted base ∈ [Notice.codeWritten piece.addr piece.bytes.length] := by
        rw [(List.cons.inj hsplit).2]
        exact List.mem_append_cons_self
      cases List.mem_singleton.mp hmem
  · rw [pieceReport_of_connected hzero] at hsplit
    have hmem : .promoted base ∈ m.storeReport piece := by
      rw [hsplit]
      exact List.mem_append_cons_self
    cases (mem_storeReport.mp hmem).2

/-- If the page was not connected, its promotion comes before the store into it. -/
theorem ArenaSafe.split_at_written (h : m.ArenaSafe exact) {length : Nat}
    {before after : List Notice}
    (hsplit : m.pieceReport piece = before ++ .codeWritten addr length :: after)
    (hid : m.blockIdAt addr = 0) : (m.pageAt addr).base ∈ promotions before := by
  by_cases hzero : m.blockIdAt piece.addr = 0
  · rw [h.pieceReport_of_unconnected hzero] at hsplit
    cases before with
    | nil => cases (List.cons.inj hsplit).1
    | cons notice before =>
      obtain ⟨hnotice, hrest⟩ := List.cons.inj hsplit
      have hmem :
          .codeWritten addr length ∈ [Notice.codeWritten piece.addr piece.bytes.length] := by
        rw [hrest]
        exact List.mem_append_cons_self
      obtain ⟨haddr, -⟩ := Notice.codeWritten.inj (List.mem_singleton.mp hmem)
      rw [mem_promotions, haddr, hnotice]
      exact List.mem_cons_self
  · rw [pieceReport_of_connected hzero] at hsplit
    have hmem : .codeWritten addr length ∈ m.storeReport piece := by
      rw [hsplit]
      exact List.mem_append_cons_self
    obtain ⟨haddr, -⟩ := Notice.codeWritten.inj (mem_storeReport.mp hmem).2
    exact absurd (haddr ▸ hid) hzero

theorem StoresBulk.nil (m : Memory) : m.StoresBulk [] [] m where
  toEvolves := .of_same rfl rfl rfl
  pageAt _ := rfl
  connected p := by simp
  writes := rfl
  first := by simp
  named := by simp

theorem StoresBulk.cons (h : m.ArenaSafe exact) (h' : m'.ArenaSafe exact)
    (hrest : (m.storeOrPromote piece).StoresBulk pieces reported m') :
    m.StoresBulk (piece :: pieces) (m.pieceReport piece ++ reported) m' := by
  have hfirst := h.evolves_storeOrPromote piece
  have hevolves := hfirst.trans hrest.toEvolves
  have hpageAt : ∀ addr, m'.pageAt addr = m.pageAt addr :=
    fun addr => (hrest.pageAt addr).trans (m.pageAt_storeOrPromote piece addr)
  have hconnected := h.connected_storeOrPromote piece
  have hconnected' : ∀ p, m'.pageId p ≠ 0 ↔
      m.pageId p ≠ 0 ∨ ∃ q ∈ piece :: pieces, m.pageAt q.addr = p := by
    intro p
    simp only [hrest.connected, hconnected, pageAt_storeOrPromote, List.exists_mem_cons_iff,
      or_assoc]
  have hpiece := (hconnected' (m.pageAt piece.addr)).mpr (.inr ⟨piece, .head _, rfl⟩)
  refine ⟨hevolves, hpageAt, hconnected', ?_, ?_, ?_⟩
  · rw [writes_append, hrest.writes, codeSpans_cons, h.writes_pieceReport h' hevolves
      (hpageAt _) hpiece]
  · intro before base after hsplit
    rcases append_eq_append_cons hsplit with ⟨rest, hreport, rfl⟩ | ⟨rest, rfl, hreported⟩
    · obtain ⟨hbase, rfl⟩ := h.split_at_promoted hreport
      exact ⟨[], piece, pieces, reported, rfl, rfl, hbase, by simp⟩
    · obtain ⟨earlier, q, later, rest', rfl, hafter, hbase, hne⟩ := hrest.first _ _ _ hreported
      simp only [pageAt_storeOrPromote] at hbase hne
      -- the page of the piece is connected when the others are stored
      have haside : m.pageAt piece.addr ≠ m.pageAt q.addr := by
        intro heq
        have hmem : (m.pageAt q.addr).base ∈ promotions reported := by
          rw [mem_promotions, hreported, hbase]
          exact List.mem_append_cons_self
        exact (hconnected _).mpr (.inr heq) ((hrest.base_mem _).mp hmem).1
      exact ⟨piece :: earlier, q, later, rest', rfl, hafter, hbase,
        List.forall_mem_cons.mpr ⟨haside, hne⟩⟩
  · intro before addr length after hsplit hpage
    rcases append_eq_append_cons hsplit with ⟨rest, hreport, rfl⟩ | ⟨rest, rfl, hreported⟩
    · exact h.split_at_written hreport (h.blockIdAt_eq_pageId addr ▸ hpage)
    · rw [promotions_append, List.mem_append]
      by_cases hmid : (m.storeOrPromote piece).pageId (m.pageAt addr) = 0
      · have hnamed := hrest.named _ _ _ _ hreported
        rw [pageAt_storeOrPromote] at hnamed
        exact Or.inr (hnamed hmid)
      · exact Or.inl ((hfirst.base_mem _).mpr ⟨hpage, hmid⟩)

theorem ArenaSafe.foldl_storeOrPromote (h : m.ArenaSafe exact) (pieces : List Piece) :
    (pieces.foldl Memory.storeOrPromote m).ArenaSafe exact :=
  List.foldlRecOn pieces _ h fun _ h piece _ => h.storeOrPromote piece

theorem ArenaSafe.storesBulk (h : m.ArenaSafe exact) (pieces : List Piece) :
    ∃ reported, m.StoresBulk pieces reported (pieces.foldl Memory.storeOrPromote m) := by
  induction pieces generalizing m with
  | nil => exact ⟨[], .nil m⟩
  | cons piece rest ih =>
    have hstep := h.storeOrPromote piece
    obtain ⟨reported, hrest⟩ := ih hstep
    exact ⟨_, .cons h (hstep.foldl_storeOrPromote rest) hrest⟩

theorem StoresBulk.reportsPromotions (h : m.StoresBulk pieces reported m')
    (hsafe : m.ArenaSafe exact)
    (hfollow : Piece.Follow addr 0 pieces n) (hn : n ≤ 2 ^ 32) :
    m.ReportsPromotions ⟨addr, n⟩ reported where
  once := h.once
  pages := by
    intro base
    rw [h.promoted]
    constructor
    · rintro ⟨p, rfl, hp, hp'⟩
      obtain ⟨piece, hmem, rfl⟩ := ((h.connected p).mp hp').resolve_left (not_not.mpr hp)
      exact ⟨piece.addr, hfollow.covers_addr hn hmem, (hsafe.blockIdAt_eq_pageId _).trans hp, rfl⟩
    · rintro ⟨a, hcovers, hid, rfl⟩
      obtain ⟨piece, hmem, hpart⟩ := hfollow.exists_covers hn (Nat.zero_le _) hcovers
      have hpage : m.pageAt piece.addr = m.pageAt a := by
        unfold Memory.pageAt
        rw [(hfollow.inPage hmem).ofAddr_eq hpart]
      exact ⟨_, rfl, hsafe.blockIdAt_eq_pageId a ▸ hid,
        (h.connected _).mpr (.inr ⟨piece, hmem, hpage⟩)⟩
  first := by
    intro before base after hsplit
    obtain ⟨earlier, piece, later, rest, rfl, hafter, hbase, hne⟩ :=
      h.first before base after hsplit
    obtain ⟨i, -, hin, hpiece, ⟨hpos, -⟩, hearlier, -⟩ := hfollow.around
    refine ⟨piece.addr, _, rest, hafter, hbase, fun a hcovers hlt => ?_⟩
    dsimp only at hlt
    rw [hpiece, distance_add addr (by omega)] at hlt
    obtain ⟨e, hmem, hpart⟩ := hearlier.exists_covers (by omega) (Nat.zero_le _) hlt
    have hpage : m.pageAt a = m.pageAt e.addr := by
      unfold Memory.pageAt
      rw [(hearlier.inPage hmem).ofAddr_eq hpart]
    rw [hpage]
    exact hne e hmem

/-! ## Everything else -/

theorem notices_load (m : Memory) (input : Bytes) : (left (m.load input)).notices = m.notices := by
  rcases left_load m input with hload | ⟨_, -, _, _, _, hload⟩
  · rw [hload]
  · rw [hload]
    rfl

theorem notices_step (m : Memory) (ht : ¬t.IsStore) : (m.step t).notices = m.notices := by
  cases t with
  | writeWord | copyIn => exact absurd trivial ht
  | map handle start length => exact congrArg Aside.notices (m.aside_mapRegion handle start length)
  | allocate start b => exact congrArg Aside.notices (m.aside_allocate start b)
  | unmap start length => exact congrArg Aside.notices (m.aside_unmap start length)
  | replace old b => exact congrArg Aside.notices (m.aside_replaceBlock old b)
  | loadSystemBios image => exact congrArg Aside.notices (m.aside_loadSystemBios image)
  | load input => exact m.notices_load input
  | clear | reset => exact congrArg Aside.notices m.aside_clear
  | register | readWord | copyOut | setGateA20 | setPagingActive | takeTlbFlush => rfl

/-! ## All transactions -/

/-- On every bus that a run of transactions leaves, restores of arbitrary bytes included: the store
of a word reports the stretches of it that go into code pages and promotes nothing; a bulk store
reports the stretches that go into code pages, those that it promotes included, and each page that
it promotes right before the first store into it; every other transaction reports nothing. -/
theorem code_notices_exact (ramSize : UInt32) (regions : Array Region) (ts : List Transaction) :
    let m := (new ramSize regions).run ts
    (∀ addr width value, 0 < width → width ≤ 2 ^ 32 →
      ∃ reported, (m.writeWord addr width value).notices = m.notices ++ reported ∧
        (m.writeWord addr width value).ReportsStores ⟨addr, width⟩ reported ∧
        promotions reported = []) ∧
    (∀ addr src, src.length ≤ 2 ^ 32 →
      ∃ reported, (m.copyIn addr src).notices = m.notices ++ reported ∧
        (m.copyIn addr src).ReportsStores ⟨addr, src.length⟩ reported ∧
        m.ReportsPromotions ⟨addr, src.length⟩ reported) ∧
    ∀ t : Transaction, ¬t.IsStore → (m.step t).notices = m.notices := by
  intro m
  have h : m.ArenaSafe _ := arenaSafe_run ramSize regions ts
  refine ⟨fun addr width value hpos hwidth => ?_, fun addr src hlength => ?_,
    fun t => m.notices_step⟩
  · have hlength := LittleEndian.length_toBytes width value
    have hfollow := Piece.follow_ofWord addr (hpos.trans_eq hlength.symm)
    rw [hlength] at hfollow
    obtain ⟨hnotices, hkind⟩ := m.reports_writeBytes addr (LittleEndian.toBytes width value)
    exact ⟨_, hnotices, reportsStores_of_follow hfollow hwidth (codeSpans_eq_writes hkind _),
      m.promotions_flatMap _⟩
  · have hfollow := Piece.follow_ofBulk addr 0 src
    rw [add_ofNat_zero, Nat.zero_add] at hfollow
    obtain ⟨reported, hbulk⟩ := h.storesBulk (Piece.ofBulk addr src)
    exact ⟨reported, hbulk.notices, reportsStores_of_follow hfollow hlength hbulk.writes,
      hbulk.reportsPromotions h hfollow hlength⟩

set_option maxRecDepth 10000 in
/-- A word goes from a code page into RAM, byte by byte, and bytes go from the alias of an
unconnected page into the alias of the code page. -/
theorem straddling_stores_reported :
    let m := (new 0 #[]).run [.allocate 0x3000 .lazyCode, .allocate 0x4000 .freshRam]
    let src : Bytes := [1, 2, 3, 4]
    let words : List Notice := [.codeWritten 0x3FFE 1, .codeWritten 0x3FFF 1]
    let bytes : List Notice := [.promoted 0x2000, .codeWritten 0x102FFE 2, .codeWritten 0x103000 2]
    (0 < 4 ∧ 4 ≤ 2 ^ 32 ∧ src.length ≤ 2 ^ 32 ∧ ¬Transaction.clear.IsStore) ∧
      (m.writeWord 0x3FFE 4 0).ReportsStores ⟨0x3FFE, 4⟩ words ∧
      (m.copyIn 0x102FFE src).ReportsStores ⟨0x102FFE, 4⟩ bytes ∧
      m.ReportsPromotions ⟨0x102FFE, 4⟩ bytes ∧ m.clear.notices = [] := by
  intro m src words bytes
  have hlength : src.length ≤ 2 ^ 32 := by decide
  have hclear : ¬Transaction.clear.IsStore := id
  have hnone : m.notices = [] := by decide +kernel
  have hwords : (m.writeWord 0x3FFE 4 0).notices = words := by decide +kernel
  have hbytes : (m.copyIn 0x102FFE src).notices = bytes := by decide +kernel
  obtain ⟨hword, hbulk, helse⟩ :=
    code_notices_exact 0 #[] [.allocate 0x3000 .lazyCode, .allocate 0x4000 .freshRam]
  obtain ⟨reported, hreported, hstores, -⟩ := hword 0x3FFE 4 0 (by decide) (by decide)
  obtain ⟨reported', hreported', hstores', hpromotions⟩ := hbulk 0x102FFE src hlength
  have heq : words = reported := hwords.symm.trans (hreported.trans (congrArg (· ++ _) hnone))
  have heq' : bytes = reported' := hbytes.symm.trans (hreported'.trans (congrArg (· ++ _) hnone))
  rw [heq, heq']
  exact ⟨⟨by decide, by decide, hlength, hclear⟩, hstores, hstores', hpromotions,
    (helse .clear hclear).trans hnone⟩

end Memory
end Mainboard
