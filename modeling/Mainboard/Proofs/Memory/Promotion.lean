import Mainboard.Proofs.Memory.Aside
import Mainboard.Proofs.Memory.BulkCopy

/-!
# Pages between two changes of the mapping

Between two explicit changes of what is mapped where, a page changes in one way only: if nothing is
connected there, a bulk store may make it a code page, and this is reported. A connected page keeps
its position in the arena and the kind of its block, and ROM keeps its bytes, whatever is stored and
cleared under either state of the gate.
-/
namespace Mainboard

namespace Notice

def base? : Notice → Option UInt32
  | .promoted base => some base
  | .codeWritten _ _ => none

def span? : Notice → Option Span
  | .promoted _ => none
  | .codeWritten addr length => some ⟨addr, length⟩

def promotions (reported : List Notice) : List UInt32 := reported.filterMap base?

def writes (reported : List Notice) : List Span := reported.filterMap span?

@[simp] theorem promotions_append (reported reported' : List Notice) :
    promotions (reported ++ reported') = promotions reported ++ promotions reported' :=
  List.filterMap_append

@[simp] theorem writes_append (reported reported' : List Notice) :
    writes (reported ++ reported') = writes reported ++ writes reported' := List.filterMap_append

theorem mem_promotions {reported : List Notice} {base : UInt32} :
    base ∈ promotions reported ↔ .promoted base ∈ reported := by
  unfold promotions
  rw [List.mem_filterMap]
  constructor
  · rintro ⟨notice, hmem, hbase⟩
    cases notice with
    | promoted base' =>
      obtain rfl := Option.some.inj hbase
      exact hmem
    | codeWritten addr length => cases hbase
  · exact fun hmem => ⟨_, hmem, rfl⟩

end Notice

/-- An explicit change of what is mapped where, or a restore. -/
def Transaction.IsRemap : Transaction → Prop
  | .map _ _ _ | .allocate _ _ | .unmap _ _ | .replace _ _ | .loadSystemBios _ | .load _ => True
  | _ => False

instance : DecidablePred Transaction.IsRemap := fun t => by
  cases t <;> first | exact isTrue trivial | exact isFalse id

theorem Page.base_injective : Function.Injective Page.base := by
  have hval : ∀ p : Page, p.base.toNat = p.val * 4096 := by
    intro p
    have hlt : p.val * 4096 < 2 ^ 32 := by omega
    exact UInt32.toNat_ofNat_of_lt' hlt
  intro p q hbase
  have hnat := congrArg UInt32.toNat hbase
  rw [hval, hval] at hnat
  exact Fin.ext (by omega)

namespace Memory

open Notice

/-- What becomes of the pages until the next remap, with the reports that are made meanwhile. -/
structure Evolves (m : Memory) (reported : List Notice) (m' : Memory) : Prop where
  notices : m'.notices = m.notices ++ reported
  pageId : ∀ p, m.pageId p ≠ 0 → m'.pageId p = m.pageId p
  kind : ∀ p, m.pageId p ≠ 0 → (m'.pageBlock p).kind = (m.pageBlock p).kind
  rom : ∀ p data, m.pageBlock p = .rom data → m'.pageBlock p = .rom data
  promoted : ∀ base, base ∈ promotions reported ↔
    ∃ p : Page, base = p.base ∧ m.pageId p = 0 ∧ m'.pageId p ≠ 0
  once : (promotions reported).Nodup
  code : ∀ p, m.pageId p = 0 → m'.pageId p ≠ 0 → (m'.pageBlock p).kind = .code

variable {m m' m'' : Memory} {exact : Prop} {addr : UInt32} {reported reported' : List Notice}
  {t : Transaction} {ts : List Transaction}

namespace Evolves

/-- A page is among the promotions if it is connected now and was not before. -/
theorem base_mem (h : m.Evolves reported m') (p : Page) :
    p.base ∈ promotions reported ↔ m.pageId p = 0 ∧ m'.pageId p ≠ 0 := by
  rw [h.promoted]
  constructor
  · rintro ⟨q, hbase, hq⟩
    rwa [Page.base_injective hbase]
  · exact fun hp => ⟨p, rfl, hp⟩

theorem trans (h : m.Evolves reported m') (h' : m'.Evolves reported' m'') :
    m.Evolves (reported ++ reported') m'' := by
  -- a page that is connected at first stays so, one that is connected meanwhile stays a code page
  have hkept : ∀ p, m.pageId p ≠ 0 → m'.pageId p ≠ 0 := fun p hp => (h.pageId p hp).symm ▸ hp
  refine ⟨?_, fun p hp => ?_, fun p hp => ?_, fun p data hp => h'.rom p data (h.rom p data hp),
    fun base => ?_, ?_, fun p hp hp' => ?_⟩
  · rw [h'.notices, h.notices, List.append_assoc]
  · rw [h'.pageId p (hkept p hp), h.pageId p hp]
  · rw [h'.kind p (hkept p hp), h.kind p hp]
  · rw [promotions_append, List.mem_append, h.promoted, h'.promoted, ← exists_or]
    refine exists_congr fun p => ?_
    by_cases hp : m.pageId p = 0
    · by_cases hp' : m'.pageId p = 0
      · simp [hp, hp']
      · simp [hp, hp', h'.pageId p hp']
    · simp [hp, hkept p hp]
  · rw [promotions_append, List.nodup_append']
    refine ⟨h.once, h'.once, fun base hbase hbase' => ?_⟩
    obtain ⟨p, rfl, -, hp⟩ := (h.promoted base).mp hbase
    exact hp ((h'.base_mem p).mp hbase').1
  · by_cases hmid : m'.pageId p = 0
    · exact h'.code p hmid hp'
    · rw [h'.kind p hmid]
      exact h.code p hp hmid

theorem of_blocks (hplain : m'.index.plain = m.index.plain)
    (hkind : ∀ i, (m'.block i).kind = (m.block i).kind)
    (hrom : ∀ i data, m.block i = .rom data → m'.block i = .rom data)
    (hnotices : m'.notices = m.notices ++ reported) (hreported : promotions reported = []) :
    m.Evolves reported m' := by
  have hid : ∀ p, m'.pageId p = m.pageId p := by
    intro p
    unfold Memory.pageId
    rw [hplain]
  refine ⟨hnotices, fun p _ => hid p, fun p _ => ?_, fun p data hp => ?_, fun base => ?_, ?_,
    fun p hp hp' => ?_⟩
  · unfold pageBlock
    rw [hid, hkind]
  · unfold pageBlock at hp ⊢
    rw [hid]
    exact hrom _ data hp
  · simp [hreported, hid]
  · simp [hreported]
  · exact absurd ((hid p).trans hp) hp'

theorem of_same (hplain : m'.index.plain = m.index.plain) (hblocks : m'.blocks = m.blocks)
    (hnotices : m'.notices = m.notices) : m.Evolves [] m' := by
  have hblock : ∀ i, m'.block i = m.block i := by
    intro i
    unfold block
    rw [hblocks]
  refine of_blocks hplain (fun i => by rw [hblock]) (fun i data hi => by rw [hblock, hi]) ?_ rfl
  rw [hnotices, List.append_nil]

end Evolves

/-- What each step of a fold does to the pages, under what it keeps, the whole fold does. -/
theorem exists_evolves_foldl {α : Type} {P : Memory → Prop} {f : Memory → α → Memory} {xs : List α}
    (hf : ∀ x ∈ xs, ∀ m, P m → P (f m x) ∧ ∃ reported, m.Evolves reported (f m x)) (hm : P m) :
    ∃ reported, m.Evolves reported (xs.foldl f m) := by
  induction xs generalizing m with
  | nil => exact ⟨[], .of_same rfl rfl rfl⟩
  | cons x xs ih =>
    obtain ⟨hP, reported, hstep⟩ := hf x List.mem_cons_self m hm
    obtain ⟨reported', hrest⟩ := ih (fun y hy => hf y (List.mem_cons_of_mem x hy)) hP
    exact ⟨_, hstep.trans hrest⟩

/-! ## Elementary changes -/

theorem notices_connect (m : Memory) (p : Page) (b : Block) :
    (m.connect p b).2.notices = m.notices :=
  congrArg Aside.notices (m.aside_connect p b)

def storeReport (m : Memory) (piece : Piece) : List Notice :=
  if (m.blockAt piece.addr).kind = .code then [.codeWritten piece.addr piece.bytes.length] else []

theorem notices_storePiece (m : Memory) (piece : Piece) :
    (m.storePiece piece).notices = m.notices ++ m.storeReport piece := by
  have hkind :=
    Block.kind_write (m.blockAt piece.addr) m.devices (offsetInPage piece.addr) piece.bytes
  unfold storePiece storeReport
  dsimp only
  rw [← blockAt, hkind]
  split_ifs
  · rfl
  · exact (List.append_nil _).symm

theorem evolves_storePiece (m : Memory) (piece : Piece) :
    m.Evolves (m.storeReport piece) (m.storePiece piece) := by
  refine .of_blocks (by rw [index_storePiece]) (m.kind_storePiece piece) (fun i data hi => ?_)
    (m.notices_storePiece piece) ?_
  · rw [block_storePiece]
    split_ifs with hid
    · rw [blockAt, ← hid, hi]
      rfl
    · exact hi
  · unfold storeReport
    split_ifs <;> rfl

theorem evolves_clearBlock (m : Memory) (id : BlockId) : m.Evolves [] (m.clearBlock id) := by
  refine .of_blocks rfl (fun i => ?_) (fun i data hi => ?_) (List.append_nil _).symm rfl
  · rw [block_clearBlock]
    split_ifs
    · exact Block.kind_clearRange _ _ _ _
    · rfl
  · rw [block_clearBlock]
    split_ifs
    · rw [hi]
      rfl
    · exact hi

theorem ArenaSafe.blockIdAt_eq_pageId (h : m.ArenaSafe exact) (addr : UInt32) :
    m.blockIdAt addr = m.pageId (m.pageAt addr) := by
  rw [blockIdAt_eq h.coherent, h.pageId_eq]

theorem ArenaSafe.blockAt_eq_pageBlock (h : m.ArenaSafe exact) (addr : UInt32) :
    m.blockAt addr = m.pageBlock (m.pageAt addr) := congrArg m.block (h.blockIdAt_eq_pageId addr)

theorem ArenaSafe.evolves_promote (h : m.ArenaSafe exact) (hid : m.blockIdAt addr = 0) :
    m.Evolves [.promoted (m.pageAt addr).base] (m.promote addr) := by
  rw [h.blockIdAt_eq_pageId] at hid
  rw [promote_eq]
  generalize m.pageAt addr = p at hid
  have hfresh : (m.connect p .lazyCode).1 ≠ 0 := (h.fresh_alloc .lazyCode).ne_zero
  have hpageId := h.pageId_connect hid (b := .lazyCode) rfl rfl
  have hblock := h.pageBlock_connect hid (b := .lazyCode) rfl rfl
  have hsame : ∀ {q}, q ≠ p → (m.connect p .lazyCode).2.pageBlock q = m.pageBlock q :=
    fun hq => (h.samePage_connect hid rfl rfl hq).pageBlock_eq
  have hnotices := m.notices_connect p .lazyCode
  generalize m.connect p .lazyCode = connected at *
  have hne : ∀ {q}, m.pageId q ≠ 0 → q ≠ p := fun hq heq => hq (heq ▸ hid)
  have hnew : ∀ {q}, m.pageId q = 0 → connected.2.pageId q ≠ 0 → q = p := by
    intro q hq hq'
    by_contra hqp
    rw [hpageId, if_neg hqp] at hq'
    exact hq' hq
  refine ⟨congrArg (· ++ _) hnotices, fun q hq => ?_,
    fun q hq => congrArg Block.kind (hsame (hne hq)),
    fun q data hq => ?_, fun base => ?_, List.nodup_singleton _, fun q hq hq' => ?_⟩
  · exact (hpageId q).trans (if_neg (hne hq))
  · have hconnected : m.pageId q ≠ 0 := by
      intro hzero
      rw [pageBlock, hzero, h.sentinel] at hq
      cases hq
    exact (hsame (hne hconnected)).trans hq
  · have hpromotions : promotions [.promoted p.base] = [p.base] := rfl
    rw [hpromotions, List.mem_singleton]
    constructor
    · rintro rfl
      exact ⟨p, rfl, hid, ((hpageId p).trans (if_pos rfl)).trans_ne hfresh⟩
    · rintro ⟨q, rfl, hq, hq'⟩
      rw [hnew hq hq']
  · rw [hnew hq hq']
    exact congrArg Block.kind hblock

/-! ## Bulk stores -/

def ensureReport (m : Memory) (addr : UInt32) : List Notice :=
  if m.blockIdAt addr = 0 then [.promoted (m.pageAt addr).base] else []

theorem ArenaSafe.ensure (h : m.ArenaSafe exact) (addr : UInt32) :
    (m.ensure addr).ArenaSafe exact := by
  unfold Memory.ensure
  split_ifs with hid
  · exact (stable_arenaSafe (fun _ _ => True) exact).promote (fun _ _ _ => trivial) h hid
  · exact h

theorem ArenaSafe.evolves_ensure (h : m.ArenaSafe exact) (addr : UInt32) :
    m.Evolves (m.ensureReport addr) (m.ensure addr) := by
  unfold ensureReport Memory.ensure
  split_ifs with hid
  · exact h.evolves_promote hid
  · exact .of_same rfl rfl rfl

/-- What a piece of a bulk store reports: the promotion of its page before the store into it. -/
def pieceReport (m : Memory) (piece : Piece) : List Notice :=
  m.ensureReport piece.addr ++ (m.ensure piece.addr).storeReport piece

theorem ArenaSafe.evolves_storeOrPromote (h : m.ArenaSafe exact) (piece : Piece) :
    m.Evolves (m.pieceReport piece) (m.storeOrPromote piece) :=
  (h.evolves_ensure piece.addr).trans ((m.ensure piece.addr).evolves_storePiece piece)

theorem ArenaSafe.storeOrPromote (h : m.ArenaSafe exact) (piece : Piece) :
    (m.storeOrPromote piece).ArenaSafe exact := (h.ensure piece.addr).storePiece piece

/-! ## Transactions and runs -/

theorem evolves_writeBytes (m : Memory) (addr : UInt32) (src : Bytes) :
    ∃ reported, m.Evolves reported (m.writeBytes addr src) :=
  exists_evolves_foldl (P := fun _ => True)
    (fun piece _ m _ => ⟨trivial, _, m.evolves_storePiece piece⟩) trivial

theorem ArenaSafe.evolves_copyIn (h : m.ArenaSafe exact) (addr : UInt32) (src : Bytes) :
    ∃ reported, m.Evolves reported (m.copyIn addr src) :=
  exists_evolves_foldl
    (fun piece _ _ h => ⟨h.storeOrPromote piece, _, h.evolves_storeOrPromote piece⟩) h

theorem evolves_clear (m : Memory) : ∃ reported, m.Evolves reported m.clear :=
  exists_evolves_foldl (P := fun _ => True) (fun id _ m _ => ⟨trivial, _, m.evolves_clearBlock id⟩)
    trivial

theorem ArenaSafe.evolves_step (h : m.ArenaSafe exact) (ht : ¬t.IsRemap) :
    ∃ reported, m.Evolves reported (m.step t) := by
  cases t with
  | map | allocate | unmap | replace | loadSystemBios | load => exact absurd trivial ht
  | writeWord addr width value => exact m.evolves_writeBytes addr _
  | copyIn addr src => exact h.evolves_copyIn addr src
  | clear => exact m.evolves_clear
  | reset =>
    obtain ⟨reported, hclear⟩ := m.evolves_clear
    exact ⟨_, hclear.trans (.of_same rfl rfl rfl)⟩
  | register | readWord | copyOut | setGateA20 | setPagingActive | takeTlbFlush =>
    exact ⟨[], .of_same rfl rfl rfl⟩

/-- However the bus is used until the next remap: the pages that were connected are what they were,
and the others that are connected by then are the promoted ones. -/
theorem ArenaSafe.evolves_run (h : m.ArenaSafe False) (hts : ∀ t ∈ ts, ¬t.IsRemap) :
    ∃ reported, m.Evolves reported (m.run ts) :=
  exists_evolves_foldl (fun t ht _ h => ⟨h.run [t], h.evolves_step (hts t ht)⟩) h

end Memory
end Mainboard
