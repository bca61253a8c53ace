import Mainboard.Proofs.Memory.Accounts
import Mainboard.Proofs.Memory.MappedCount

/-!
# Replacing a block

A block is replaced in two sweeps: the new one takes a position of the arena, and then every slot
that names the old one, in both tables and in their quick parts, is made to name the new one. The
new block may get the very position that a caller wants to be replaced, if that one has been given
up or never been given out. Nothing names it then, so nothing is found to be replaced and the
position is given up again.
-/
namespace Mainboard

namespace PageTable

/-- Neither part of a table names the replaced block after a substitution. -/
theorem lookup_substitute (t : PageTable) {old : BlockId} (hold : old ≠ 0)
    (new : BlockId) (p : Page) :
    (t.substitute old new).lookup p = if t.lookup p = old then new else t.lookup p := by
  unfold lookup
  rw [quick?_substitute, sparse_substitute t hold]
  cases t.quick? p <;> rfl

end PageTable

namespace Memory

/-- Under both states of the gate every address goes over from the position it resolved to, to the
image of that position, and so does each answer of the quick parts and of the groups. -/
structure Renamed (m : Memory) (f : BlockId → BlockId) (m' : Memory) : Prop where
  blockIdAt : ∀ gate addr,
    (m'.setGateA20 gate).blockIdAt addr = f ((m.setGateA20 gate).blockIdAt addr)
  quick : ∀ gate addr,
    (m'.setGateA20 gate).quickBlockIdAt? addr = ((m.setGateA20 gate).quickBlockIdAt? addr).map f
  sparse : ∀ gate addr,
    (m'.setGateA20 gate).sparseBlockIdAt addr = f ((m.setGateA20 gate).sparseBlockIdAt addr)

/-- Under both states of the gate every address resolves to the same position, with the same block
there and the same byte. The gate, the count of pages and the regions are the same as well. -/
structure SameView (m m' : Memory) : Prop where
  renamed : m.Renamed (fun i => i) m'
  blockAt : ∀ gate addr, (m'.setGateA20 gate).blockAt addr = (m.setGateA20 gate).blockAt addr
  byteAt : ∀ gate addr, (m'.setGateA20 gate).byteAt addr = (m.setGateA20 gate).byteAt addr
  gateA20 : m'.gateA20 = m.gateA20
  mappedCount : m'.mappedCount = m.mappedCount
  devices : m'.devices = m.devices

/-- The block at `id` stands wherever the one at `old` stood, which is nowhere any more. All other
addresses keep what they had, and `old` is the position to be used next. -/
structure Replaces (m : Memory) (old : BlockId) (b : Block) (id : BlockId) (m' : Memory) :
    Prop where
  unheld : ∀ p, m.pageId p ≠ id
  renamed : m.Renamed (fun i => if i = old then id else i) m'
  block : m'.block id = b
  here : ∀ gate addr, (m.setGateA20 gate).blockIdAt addr = old →
    (m'.setGateA20 gate).blockAt addr = b
  elsewhere : ∀ gate addr, (m.setGateA20 gate).blockIdAt addr ≠ old →
    (m'.setGateA20 gate).blockAt addr = (m.setGateA20 gate).blockAt addr ∧
      (m'.setGateA20 gate).byteAt addr = (m.setGateA20 gate).byteAt addr
  gone : ∀ gate addr, (m'.setGateA20 gate).blockIdAt addr ≠ old
  free : m'.free.head? = some old ∧ m'.block old = .unconnected
  gateA20 : m'.gateA20 = m.gateA20
  mappedCount : m'.mappedCount = m.mappedCount
  devices : m'.devices = m.devices

variable {m m' : Memory} {exact : Prop} {old id : BlockId} {b : Block} {f g : BlockId → BlockId}

/-! ## Renaming -/

/-- An address resolves to the position of a page under either state of the gate. -/
theorem blockIdAt_setGateA20 (h : m.index.Coherent) (gate : Bool) (addr : UInt32) :
    (m.setGateA20 gate).blockIdAt addr =
      m.pageId (if gate then .ofAddr addr else (Page.ofAddr addr).withoutA20) :=
  (h.setGate gate).lookup_active (.ofAddr addr)

theorem sparse_eq_blockIdAt (h : m.index.Coherent) (gate : Bool) (addr : UInt32) :
    (m.setGateA20 gate).sparseBlockIdAt addr = (m.setGateA20 gate).blockIdAt addr :=
  ((h.setGate gate).active.lookup _).symm

theorem blockIdAt_of_quick (h : m.index.Coherent) {gate : Bool} {addr : UInt32}
    (hid : (m.setGateA20 gate).quickBlockIdAt? addr = some id) :
    id = (m.setGateA20 gate).blockIdAt addr :=
  ((h.setGate gate).active.agree _ id hid).trans (sparse_eq_blockIdAt h gate addr)

theorem Renamed.congr (hm : m.Renamed f m') (h : m.index.Coherent)
    (hfg : ∀ p, f (m.pageId p) = g (m.pageId p)) : m.Renamed g m' := by
  have hanswer : ∀ gate addr, f ((m.setGateA20 gate).blockIdAt addr) =
      g ((m.setGateA20 gate).blockIdAt addr) := by
    intro gate addr
    rw [blockIdAt_setGateA20 h, hfg]
  refine ⟨fun gate addr => ?_, fun gate addr => ?_, fun gate addr => ?_⟩
  · rw [hm.blockIdAt, hanswer]
  · rw [hm.quick]
    refine Option.map_congr fun id hid => ?_
    rw [blockIdAt_of_quick h hid, hanswer]
  · rw [hm.sparse, sparse_eq_blockIdAt h, hanswer]

theorem renamed_substitute (hold : old ≠ 0) (hindex : m'.index = m.index.substitute old id) :
    m.Renamed (fun i => if i = old then id else i) m' := by
  have hactive : ∀ gate, (m'.setGateA20 gate).index.active =
      (m.setGateA20 gate).index.active.substitute old id := by
    intro gate
    unfold setGateA20
    dsimp only
    rw [hindex]
    cases gate <;> rfl
  refine ⟨fun gate addr => ?_, fun gate addr => ?_, fun gate addr => ?_⟩
  · unfold Memory.blockIdAt
    rw [hactive]
    exact PageTable.lookup_substitute _ hold id _
  · unfold quickBlockIdAt?
    rw [hactive]
    exact PageTable.quick?_substitute _ old id _
  · unfold sparseBlockIdAt
    rw [hactive]
    exact PageTable.sparse_substitute _ hold id _

theorem byteAt_congr {addr : UInt32} (hblock : m'.blockAt addr = m.blockAt addr)
    (hdevices : m'.devices = m.devices) : m'.byteAt addr = m.byteAt addr := by
  unfold byteAt readSpan
  rw [hblock, hdevices]

/-! ## The two outcomes -/

theorem ArenaSafe.count_eq_zero_iff (h : m.ArenaSafe exact) (hold : old ≠ 0) :
    m.index.plain.count old = 0 ↔ ∀ p, m.pageId p ≠ old := by
  rw [h.coherent.plain.count_eq_card hold, Finset.card_eq_zero, h.coherent.plain.holders_eq_empty]
  exact forall_congr' fun p => by rw [h.pageId_eq]

/-- The bus after both sweeps, with counts to be settled and a position to be given up. -/
def sweep (m : Memory) (old : BlockId) (b : Block) (refs : Array Nat) (spare : BlockId) : Memory :=
  ({ (m.alloc b).2 with index := m.index.substitute old (m.alloc b).1, refs := refs } :
    Memory).discard spare

/-- If no page holds the block that is to be replaced, the new one is taken out of the arena again.
-/
theorem ArenaSafe.replaceBlock_of_unheld (h : m.ArenaSafe exact) (hb : b.isConnected = true)
    (hsize : b.size = blockSize) (hold : old ≠ 0) (hunheld : ∀ p, m.pageId p ≠ old) :
    m.replaceBlock old b = .ok none (m.sweep old b (m.alloc b).2.refs (m.alloc b).1) := by
  have hcount := (h.count_eq_zero_iff hold).mpr hunheld
  unfold Memory.replaceBlock
  rw [if_neg (not_not.mpr hb), if_neg (not_not.mpr hsize), if_neg hold]
  dsimp only
  rw [index_alloc, if_pos hcount]
  rfl

/-- Otherwise the old one is given up, since its count has been set to the one that is released. -/
theorem ArenaSafe.replaceBlock_of_held (h : m.ArenaSafe exact) (hb : b.isConnected = true)
    (hsize : b.size = blockSize) (hold : old ≠ 0) (hheld : ∃ p, m.pageId p = old) :
    ∃ refs, m.replaceBlock old b = .ok (some (m.alloc b).1) (m.sweep old b refs old) := by
  obtain ⟨p, hp⟩ := hheld
  have hcount : m.index.plain.count old ≠ 0 :=
    fun hzero => (h.count_eq_zero_iff hold).mp hzero p hp
  have hlt : old < (m.alloc b).2.refs.size := by
    have hsafe := h.alloc b
    have husable := hsafe.usable p
    rw [index_alloc, ← h.pageId_eq, hp] at husable
    rw [hsafe.size_refs]
    exact (husable hold).lt
  have hleft : (((m.alloc b).2.refs.setIfInBounds (m.alloc b).1
      (m.index.plain.count old)).setIfInBounds old 1).getD old 0 - 1 = 0 := by
    rw [getD_setIfInBounds, Array.size_setIfInBounds, if_pos ⟨rfl, hlt⟩]
  unfold Memory.replaceBlock
  rw [if_neg (not_not.mpr hb), if_neg (not_not.mpr hsize), if_neg hold]
  dsimp only
  rw [index_alloc, if_neg hcount]
  unfold Memory.release
  dsimp only
  rw [if_neg hold, hleft, if_pos rfl]
  exact ⟨_, rfl⟩

theorem renamed_sweep (m : Memory) (hold : old ≠ 0) (b : Block) (refs : Array Nat)
    (spare : BlockId) :
    m.Renamed (fun i => if i = old then (m.alloc b).1 else i) (m.sweep old b refs spare) :=
  renamed_substitute hold rfl

@[simp] theorem gateA20_sweep (m : Memory) (old : BlockId) (b : Block) (refs : Array Nat)
    (spare : BlockId) :
    (m.sweep old b refs spare).gateA20 = m.gateA20 := rfl

@[simp] theorem devices_sweep (m : Memory) (old : BlockId) (b : Block) (refs : Array Nat)
    (spare : BlockId) :
    (m.sweep old b refs spare).devices = m.devices :=
  m.devices_alloc b

@[simp] theorem mappedCount_sweep (m : Memory) (old : BlockId) (b : Block) (refs : Array Nat)
    (spare : BlockId) : (m.sweep old b refs spare).mappedCount = m.mappedCount :=
  m.mappedCount_alloc b

theorem ArenaSafe.block_sweep (h : m.ArenaSafe exact) (old : BlockId) (b : Block) (refs : Array Nat)
    (spare i : BlockId) : (m.sweep old b refs spare).block i =
      if i = spare then .unconnected else if i = (m.alloc b).1 then b else m.block i := by
  unfold sweep
  rw [block_discard_eq]
  exact if_congr Iff.rfl rfl (h.block_alloc b i)

theorem ArenaSafe.pageId_ne_alloc (h : m.ArenaSafe exact) (b : Block) (p : Page) :
    m.pageId p ≠ (m.alloc b).1 := by
  have hunheld := (h.fresh_alloc b).unheld p
  rwa [index_alloc, ← h.pageId_eq] at hunheld

theorem ArenaSafe.blockIdAt_ne_alloc (h : m.ArenaSafe exact) (b : Block) (gate : Bool)
    (addr : UInt32) :
    (m.setGateA20 gate).blockIdAt addr ≠ (m.alloc b).1 := by
  rw [blockIdAt_setGateA20 h.coherent]
  exact h.pageId_ne_alloc b _

theorem sameView_self (m : Memory) : m.SameView m where
  renamed := ⟨fun _ _ => rfl, fun _ _ => Option.map_id'.symm, fun _ _ => rfl⟩
  blockAt _ _ := rfl
  byteAt _ _ := rfl
  gateA20 := rfl
  mappedCount := rfl
  devices := rfl

theorem ArenaSafe.sameView_sweep (h : m.ArenaSafe exact) (hold : old ≠ 0)
    (hunheld : ∀ p, m.pageId p ≠ old) (b : Block) (refs : Array Nat) :
    m.SameView (m.sweep old b refs (m.alloc b).1) := by
  have hrenamed := (m.renamed_sweep hold b refs (m.alloc b).1).congr h.coherent
    (g := fun i => i) fun p => if_neg (hunheld p)
  have hblock : ∀ gate addr, ((m.sweep old b refs (m.alloc b).1).setGateA20 gate).blockAt addr =
      (m.setGateA20 gate).blockAt addr := by
    intro gate addr
    have hne := h.blockIdAt_ne_alloc b gate addr
    unfold blockAt
    rw [hrenamed.blockIdAt]
    exact (h.block_sweep old b refs _ _).trans ((if_neg hne).trans (if_neg hne))
  have hdevices := m.devices_sweep old b refs (m.alloc b).1
  exact ⟨hrenamed, hblock, fun gate addr => byteAt_congr (hblock gate addr) hdevices,
    m.gateA20_sweep .., m.mappedCount_sweep .., hdevices⟩

theorem ArenaSafe.replaces_sweep (h : m.ArenaSafe exact) (hold : old ≠ 0)
    (hheld : ∃ p, m.pageId p = old) (b : Block) (refs : Array Nat) :
    m.Replaces old b (m.alloc b).1 (m.sweep old b refs old) := by
  have hne : (m.alloc b).1 ≠ old := by
    rintro rfl
    obtain ⟨p, hp⟩ := hheld
    exact h.pageId_ne_alloc b p hp
  have hrenamed := m.renamed_sweep hold b refs old
  have hblock := h.block_sweep old b refs old
  have hdevices := m.devices_sweep old b refs old
  have helse : ∀ gate addr, (m.setGateA20 gate).blockIdAt addr ≠ old →
      ((m.sweep old b refs old).setGateA20 gate).blockAt addr =
        (m.setGateA20 gate).blockAt addr := by
    intro gate addr hid
    unfold blockAt
    rw [hrenamed.blockIdAt, if_neg hid]
    exact (hblock _).trans ((if_neg hid).trans (if_neg (h.blockIdAt_ne_alloc b gate addr)))
  refine ⟨h.pageId_ne_alloc b, hrenamed, ?_, fun gate addr hid => ?_, fun gate addr hid => ?_,
    fun gate addr => ?_, ⟨rfl, ?_⟩, m.gateA20_sweep .., m.mappedCount_sweep .., hdevices⟩
  · rw [hblock, if_neg hne, if_pos rfl]
  · unfold blockAt
    rw [hrenamed.blockIdAt, if_pos hid]
    exact (hblock _).trans ((if_neg hne).trans (if_pos rfl))
  · exact ⟨helse gate addr hid, byteAt_congr (helse gate addr hid) hdevices⟩
  · rw [hrenamed.blockIdAt]
    split_ifs with hid
    · exact hne
    · exact hid
  · rw [hblock, if_pos rfl]

theorem replaceBlock_zero (hb : b.isConnected = true) (hsize : b.size = blockSize) :
    m.replaceBlock 0 b = .ok none m := by
  unfold replaceBlock
  rw [if_neg (not_not.mpr hb), if_neg (not_not.mpr hsize), if_pos rfl]

/-- On every bus that a run of transactions leaves, restores of arbitrary bytes included, and for
every position, whether it is in use, given up or has never been given out: if no page holds it or
it is the unconnected one, a replacement answers that it has found nothing, and each address keeps
its block and its contents. Otherwise it answers the position of the new block, which then stands at
all pages of the old one and nowhere else, and the old position is the next to be used. -/
theorem replacement_exact (ramSize : UInt32) (regions : Array Region) (ts : List Transaction)
    (old : BlockId) {b : Block} (hb : b.isConnected = true) (hsize : b.size = 4096) :
    let m := (new ramSize regions).run ts
    ((old = 0 ∨ ∀ p, m.pageId p ≠ old) → ∃ m', m.replaceBlock old b = .ok none m' ∧ m.SameView m') ∧
    (old ≠ 0 → (∃ p, m.pageId p = old) →
      ∃ id m', m.replaceBlock old b = .ok (some id) m' ∧ m.Replaces old b id m') := by
  intro m
  have h : m.ArenaSafe _ := arenaSafe_run ramSize regions ts
  constructor
  · intro hnone
    by_cases hold : old = 0
    · rw [hold]
      exact ⟨m, replaceBlock_zero hb hsize, m.sameView_self⟩
    · have hunheld := hnone.resolve_left hold
      exact ⟨_, h.replaceBlock_of_unheld hb hsize hold hunheld, h.sameView_sweep hold hunheld b _⟩
  · intro hold hheld
    obtain ⟨refs, hreplace⟩ := h.replaceBlock_of_held hb hsize hold hheld
    exact ⟨_, _, hreplace, h.replaces_sweep hold hheld b refs⟩

set_option maxRecDepth 10000 in
/-- A restore has two pages share a code block. Both of them show the block that replaces it, and so
does the address of the second one with bit 20 set while the gate is disabled. -/
theorem shared_block_replaced :
    let m := (new 0 #[]).run [.load (codePageSnapshot [5, 6])]
    (Block.freshRam.isConnected = true ∧ Block.freshRam.size = 4096) ∧
    ∃ id m', m.replaceBlock 1 .freshRam = .ok (some id) m' ∧ m.Replaces 1 .freshRam id m' ∧
      (m'.setGateA20 true).blockIdAt 0x5000 = id ∧ (m'.setGateA20 true).blockIdAt 0x6000 = id ∧
      (m'.setGateA20 false).blockAt 0x106000 = .freshRam := by
  intro m
  have hconnected : Block.freshRam.isConnected = true := rfl
  have hsize : Block.freshRam.size = 4096 := rfl
  have hpages : m.pageId 5 = 1 ∧ m.pageId 6 = 1 := by decide +kernel
  have hids :
      ∀ gate addr, (if gate then Page.ofAddr addr else (Page.ofAddr addr).withoutA20) ∈ [5, 6] →
      (m.setGateA20 gate).blockIdAt addr = 1 := by
    intro gate addr hpage
    rw [blockIdAt_setGateA20 (coherent_run 0 #[] _)]
    rcases List.mem_pair.mp hpage with hp | hp <;> rw [hp]
    · exact hpages.1
    · exact hpages.2
  obtain ⟨id, m', hreplace, hm'⟩ := (replacement_exact 0 #[] [.load (codePageSnapshot [5, 6])] 1
    hconnected hsize).2 Nat.one_ne_zero ⟨5, hpages.1⟩
  refine ⟨⟨hconnected, hsize⟩, id, m', hreplace, hm', ?_, ?_,
    hm'.here false _ (hids _ _ (by decide))⟩
  · rw [hm'.renamed.blockIdAt, hids _ _ (by decide), if_pos rfl]
  · rw [hm'.renamed.blockIdAt, hids _ _ (by decide), if_pos rfl]

end Memory
end Mainboard
