import Mainboard.Proofs.Memory.Aside
import Mainboard.Proofs.Memory.Coherence

/-!
# Properties that every transaction keeps

A transaction is made of a few elementary changes: a page is connected or disconnected, a block
is substituted, stored into or cleared, a region is registered, flags are set. A property of buses
is stable if each of these keeps it; a stable property is kept by every transaction but a restore,
which replaces the bus and is a case of its own. The inductions over runs are made once, here.
-/
namespace Mainboard

/-- Blocks that a bus makes by itself. -/
inductive Block.Made (t : RegionTable) : Block → Prop
  | lazyCode : Made t .lazyCode
  | rom {data : Bytes} : Made t (.rom data)
  | window {region handle i : Nat} : t.registered[region]? = some handle → i < 1048576 →
      (i + 1) * blockSize ≤ (t.region handle).size →
      Made t (.window region (UInt64.ofNat (i * blockSize)))

/-- The blocks that a transaction hands to the bus satisfy a property. -/
def Transaction.Hands (A : RegionTable → Block → Prop) (t : RegionTable) : Transaction → Prop
  | .allocate _ b => A t b
  | .replace _ b => A t b
  | _ => True

namespace RegionTable

theorem getElem?_register (t : RegionTable) (handle : Nat) :
    (t.register handle).2.registered[(t.register handle).1]? = some handle := by
  unfold register
  cases h : t.registered.idxOf? handle with
  | none => simp
  | some i =>
    have hlist : t.registered.toList.toArray = t.registered := Array.toArray_toList
    rw [← hlist, List.idxOf?_toArray] at h
    obtain ⟨hi, heq, -⟩ := List.idxOf?_eq_some_iff.mp h
    rw [Array.getElem?_eq_some_iff]
    exact ⟨by simpa using hi, by simpa using heq⟩

@[simp] theorem regions_register (t : RegionTable) (handle : Nat) :
    (t.register handle).2.regions = t.regions := by
  unfold register
  split <;> rfl

@[simp] theorem region_register (t : RegionTable) (handle h : Nat) :
    (t.register handle).2.region h = t.region h := by
  simp [region]

end RegionTable

namespace Memory

variable (m : Memory) (p : Page) (b : Block) (id : BlockId)

/-! ## What the elementary changes leave alone -/

@[simp] theorem index_alloc : (m.alloc b).2.index = m.index := by
  unfold alloc
  split <;> rfl

@[simp] theorem devices_alloc : (m.alloc b).2.devices = m.devices := by
  unfold alloc
  split <;> rfl

@[simp] theorem index_release : (m.release id).index = m.index := by
  unfold release discard
  dsimp only
  split_ifs <;> rfl

@[simp] theorem devices_release : (m.release id).devices = m.devices := by
  unfold release discard
  dsimp only
  split_ifs <;> rfl

@[simp] theorem index_install : (m.install p id).index = m.index.set p id := by
  unfold install
  dsimp only
  rw [index_release]
  split_ifs <;> rfl

@[simp] theorem devices_install : (m.install p id).devices = m.devices := by
  unfold install
  dsimp only
  rw [devices_release]
  split_ifs <;> rfl

@[simp] theorem index_connect : (m.connect p b).2.index = m.index.set p (m.connect p b).1 := by
  simp [connect, countUp]

@[simp] theorem devices_connect : (m.connect p b).2.devices = m.devices := by
  simp [connect, countUp]

@[simp] theorem devices_disconnect : (m.disconnect p).devices = m.devices := by
  unfold disconnect
  split_ifs
  · rfl
  · simp [countDown]

@[simp] theorem devices_disconnectAll (pages : List Page) :
    (m.disconnectAll pages).devices = m.devices := foldl_eq_of_step devices_disconnect pages m

@[simp] theorem devices_openWindows (region : Nat) (pages : List Page) :
    (m.openWindows region pages).devices = m.devices :=
  foldl_eq_of_step (fun n (e : Page × Nat) => n.devices_connect e.1 _) _ m

theorem regions_mapRegion (handle : Nat) (start : UInt32) (length : Nat) :
    (left (m.mapRegion handle start length)).devices.regions = m.devices.regions := by
  unfold mapRegion
  cases rangeError? start length with
  | some e => rfl
  | none =>
    dsimp only
    split_ifs
    · rfl
    · simp [left, registerRegion]

@[simp] theorem index_clearBlock : (m.clearBlock id).index = m.index := rfl

theorem storePiece_eq (piece : Piece) : ∃ notices, m.storePiece piece =
    { m with
      blocks := m.blocks.setIfInBounds (m.blockIdAt piece.addr)
        ((m.blockAt piece.addr).write m.devices (offsetInPage piece.addr) piece.bytes).1
      devices := ((m.blockAt piece.addr).write m.devices (offsetInPage piece.addr) piece.bytes).2
      notices := notices } := by
  unfold storePiece notify
  dsimp only
  split_ifs
  · exact ⟨_, rfl⟩
  · exact ⟨m.notices, rfl⟩

@[simp] theorem index_storePiece (piece : Piece) : (m.storePiece piece).index = m.index := by
  obtain ⟨_, h⟩ := m.storePiece_eq piece
  rw [h]

theorem ofAddr_effective (addr : UInt32) : Page.ofAddr (m.effective addr) =
    if m.index.gateA20 then Page.ofAddr addr else (Page.ofAddr addr).withoutA20 := by
  unfold effective gateA20
  split_ifs
  · rfl
  · exact Page.ofAddr_and_a20Mask addr

theorem writeBytes_induction {P : Memory → Prop} (hstep : ∀ m piece, P m → P (m.storePiece piece))
    {m : Memory} (hm : P m) (addr : UInt32) (src : Bytes) : P (m.writeBytes addr src) := by
  unfold writeBytes
  generalize Piece.ofWord addr src = pieces
  induction pieces generalizing m with
  | nil => exact hm
  | cons piece rest ih => exact ih (hstep m piece hm)

theorem sparse_connect (q : Page) : (m.connect p b).2.index.plain.sparse q =
    if q = p then (m.connect p b).1 else m.index.plain.sparse q := by
  rw [index_connect]
  exact PageTable.sparse_store _ _ _ _

variable {m}

theorem left_replaceBlock {old : BlockId} {b : Block} (hb : b.isConnected = true)
    (hsize : b.size = blockSize) (hold : old ≠ 0) :
    left (m.replaceBlock old b) =
      let n := (m.alloc b).2
      let id := (m.alloc b).1
      if n.index.plain.count old = 0 then
        ({ n with index := n.index.substitute old id } : Memory).discard id
      else
        ({ n with
            index := n.index.substitute old id
            refs := (n.refs.setIfInBounds id (n.index.plain.count old)).setIfInBounds old 1 } :
          Memory).release old := by
  unfold replaceBlock
  rw [if_neg (not_not.mpr hb), if_neg (not_not.mpr hsize), if_neg hold]
  dsimp only
  split_ifs <;> rfl

theorem sparse_disconnect (h : m.index.Coherent) (q : Page) :
    (m.disconnect p).index.plain.sparse q = if q = p then 0 else m.index.plain.sparse q := by
  unfold disconnect
  split_ifs with hp hq hq
  · rw [hq, ← h.plain.lookup, hp]
  · rfl
  · simp [countDown, PageIndex.set, PageTable.sparse_store, hq]
  · simp [countDown, PageIndex.set, PageTable.sparse_store, hq]

end Memory

namespace Memory

/-- Two buses that differ at most in the gate, the link to a processor and what has been noted. -/
structure SameStore (m m' : Memory) : Prop where
  blocks : m'.blocks = m.blocks
  refs : m'.refs = m.refs
  free : m'.free = m.free
  plain : m'.index.plain = m.index.plain
  masked : m'.index.masked = m.index.masked
  ramSize : m'.ramSize = m.ramSize
  regions : m'.devices.regions = m.devices.regions
  registered : m'.devices.registered = m.devices.registered
  mappedCount : m'.mappedCount = m.mappedCount

/-- What the elementary changes keep, if the blocks handed in satisfy `A`. A page is connected only
after it has been disconnected. -/
structure Stable (A : RegionTable → Block → Prop) (P : Memory → Prop) : Prop where
  coherent : ∀ {m}, P m → m.index.Coherent
  frame : ∀ {m m'}, P m → m.SameStore m' → P m'
  register : ∀ {m} (handle : Nat), P m → P (m.registerRegion handle).2
  connect : ∀ {m p b}, P m → m.index.plain.sparse p = 0 → b.isConnected = true →
    b.size = blockSize → A m.devices b → P (m.connect p b).2
  disconnect : ∀ {m} (p : Page), P m → P (m.disconnect p)
  replaceBlock : ∀ {m old b}, P m → b.isConnected = true → b.size = blockSize → old ≠ 0 →
    A m.devices b → P (left (m.replaceBlock old b))
  storePiece : ∀ {m} (piece : Piece), P m → P (m.storePiece piece)
  clearBlock : ∀ {m} (id : BlockId), P m → P (m.clearBlock id)

namespace Stable

variable {A : RegionTable → Block → Prop} {P : Memory → Prop} {m : Memory}

/-! ## Changes of the mapping -/

theorem disconnectAll (hs : Stable A P) (hm : P m) (pages : List Page) :
    P (m.disconnectAll pages) ∧ ∀ q, (m.disconnectAll pages).index.plain.sparse q =
      if q ∈ pages then 0 else m.index.plain.sparse q := by
  unfold Memory.disconnectAll
  induction pages generalizing m with
  | nil => exact ⟨hm, by simp⟩
  | cons p ps ih =>
    obtain ⟨hP, hsparse⟩ := ih (hs.disconnect p hm)
    refine ⟨hP, fun q => ?_⟩
    rw [List.foldl_cons, hsparse, sparse_disconnect p (hs.coherent hm)]
    by_cases h₁ : q ∈ ps <;> by_cases h₂ : q = p <;> simp [h₁, h₂]

/-- Connecting distinct pages that are all disconnected, one after the other. -/
theorem connectEach (hs : Stable A P) (block : Nat → Block) (places : List (Page × Nat))
    (hm : P m) (hfree : ∀ e ∈ places, m.index.plain.sparse e.1 = 0)
    (hnodup : (places.map Prod.fst).Nodup)
    (hblock : ∀ e ∈ places, (block e.2).isConnected = true ∧ (block e.2).size = blockSize ∧
      A m.devices (block e.2)) :
    P (places.foldl (fun m e => (m.connect e.1 (block e.2)).2) m) := by
  induction places generalizing m with
  | nil => exact hm
  | cons e rest ih =>
    rw [List.map_cons, List.nodup_cons] at hnodup
    obtain ⟨hconn, hsize, hA⟩ := hblock e List.mem_cons_self
    have hP := hs.connect hm (hfree e List.mem_cons_self) hconn hsize hA
    refine ih hP ?_ hnodup.2 ?_
    · intro f hf
      have hne : f.1 ≠ e.1 := fun h => hnodup.1 (h ▸ List.mem_map_of_mem hf)
      rw [sparse_connect, if_neg hne]
      exact hfree f (List.mem_cons_of_mem _ hf)
    · intro f hf
      rw [devices_connect]
      exact hblock f (List.mem_cons_of_mem _ hf)

theorem allocate (hs : Stable A P) (hm : P m) (start : UInt32) {b : Block}
    (hA : A m.devices b) : P (left (m.allocate start b)) := by
  unfold Memory.allocate
  dsimp only
  split_ifs with halign hsize hconn
  · exact hm
  · have hfree : (m.disconnect (.ofAddr start)).index.plain.sparse (.ofAddr start) = 0 := by
      simp [sparse_disconnect _ (hs.coherent hm)]
    exact hs.connect (hs.disconnect _ hm) hfree hconn (not_not.mp hsize) (by simpa using hA)
  · exact hs.disconnect _ hm
  · exact hm

theorem devices_allocate (m : Memory) (start : UInt32) (b : Block) :
    (left (m.allocate start b)).devices = m.devices := by
  unfold Memory.allocate
  split_ifs <;> simp [left]

theorem allocateAll (hs : Stable A P) (places : List (UInt32 × Block)) (hm : P m)
    (hA : ∀ e ∈ places, A m.devices e.2) : P (left (m.allocateAll places)) := by
  induction places generalizing m with
  | nil => exact hm
  | cons e rest ih =>
    have hP := hs.allocate hm e.1 (hA e List.mem_cons_self)
    have hdev := devices_allocate m e.1 e.2
    unfold Memory.allocateAll
    cases hres : m.allocate e.1 e.2 with
    | error err m' =>
      rw [hres] at hP
      exact hP
    | ok i m' =>
      rw [hres] at hP hdev
      refine ih hP fun f hf => ?_
      change m'.devices = m.devices at hdev
      rw [hdev]
      exact hA f (List.mem_cons_of_mem _ hf)

theorem unmap (hs : Stable A P) (hm : P m) (start : UInt32) (length : Nat) :
    P (left (m.unmap start length)) := by
  unfold Memory.unmap
  cases rangeError? start length with
  | some e => exact hm
  | none => exact (hs.disconnectAll hm _).1

theorem replace (hs : Stable A P) (hm : P m) {old : BlockId} {b : Block}
    (hA : A m.devices b) : P (left (m.replaceBlock old b)) := by
  by_cases hconn : b.isConnected = true
  · by_cases hsize : b.size = blockSize
    · by_cases hold : old = 0
      · simpa [Memory.replaceBlock, hconn, hsize, hold, left] using hm
      · exact hs.replaceBlock hm hconn hsize hold hA
    · simpa [Memory.replaceBlock, hconn, hsize, left] using hm
  · simpa [Memory.replaceBlock, hconn, left] using hm

end Stable

/-! ## Ranges of pages -/

theorem rangeError?_eq_none {start : UInt32} {length : Nat}
    (h : rangeError? start length = none) :
    offsetInPage start = 0 ∧ length % blockSize = 0 ∧ start.toNat + length ≤ addressSpaceEnd := by
  unfold rangeError? at h
  split_ifs at h with h₁ h₂ h₃
  exact ⟨by simpa [isPageAligned] using h₁, not_not.mp h₂, not_lt.mp h₃⟩

theorem nodup_range {start : UInt32} {length : Nat} (h : rangeError? start length = none) :
    (Page.range start length).Nodup := by
  obtain ⟨-, -, hend⟩ := rangeError?_eq_none h
  unfold addressSpaceEnd at hend
  refine List.Nodup.map_on ?_ List.nodup_range
  intro i hi j hj hij
  simp only [List.mem_range] at hi hj
  simp only [Page.ofNumber, Fin.mk.injEq] at hij
  omega

namespace Stable

variable {A : RegionTable → Block → Prop} {P : Memory → Prop} {m : Memory}

theorem mapRegion (hs : Stable A P) (hmade : ∀ t b, b.Made t → A t b) (hm : P m)
    (handle : Nat) (start : UInt32) (length : Nat) :
    P (left (m.mapRegion handle start length)) := by
  unfold Memory.mapRegion
  cases hrange : rangeError? start length with
  | some e => exact hm
  | none =>
    dsimp only
    split_ifs with hsize
    · exact hm
    · have hreg := hs.register handle hm
      obtain ⟨hP, hsparse⟩ := hs.disconnectAll hreg (Page.range start length)
      have hzip := List.zipIdx_map_fst 0 (Page.range start length)
      refine hs.connectEach (fun i => .window _ (UInt64.ofNat (i * blockSize))) _ hP ?_ ?_ ?_
      · intro e he
        have hmem : e.1 ∈ Page.range start length := hzip ▸ List.mem_map_of_mem he
        rw [hsparse, if_pos hmem]
      · rw [hzip]
        exact nodup_range hrange
      · intro e he
        obtain ⟨-, hlen, hend⟩ := rangeError?_eq_none hrange
        have hi : e.2 < length / 4096 := by
          have := List.snd_lt_of_mem_zipIdx he
          simpa [Page.range] using this
        unfold addressSpaceEnd at hend
        unfold blockSize at hlen
        have hregistered := m.devices.getElem?_register handle
        refine ⟨rfl, rfl, hmade _ _ ?_⟩
        rw [devices_disconnectAll]
        refine .window hregistered (by omega) ?_
        simp only [registerRegion, RegionTable.region_register, blockSize]
        omega

theorem loadSystemBios (hs : Stable A P) (hmade : ∀ t b, b.Made t → A t b) (hm : P m)
    (image : Bytes) : P (left (m.loadSystemBios image)) := by
  unfold Memory.loadSystemBios
  split_ifs
  · exact hm
  · refine hs.allocateAll _ hm ?_
    have hrom : ∀ (pages : List Bytes) (start : UInt32),
        ∀ e ∈ placeFrom start (pages.map .rom), ∃ data, e.2 = .rom data := by
      intro pages
      induction pages with
      | nil => simp [placeFrom]
      | cons data rest ih =>
        intro start e he
        rcases List.mem_cons.mp he with rfl | he
        · exact ⟨data, rfl⟩
        · exact ih _ e he
    intro e he
    obtain ⟨data, hdata⟩ := hrom _ _ e he
    rw [hdata]
    exact hmade _ _ .rom

/-! ## Changes of the contents -/

theorem writeBytes (hs : Stable A P) (hm : P m) (addr : UInt32) (src : Bytes) :
    P (m.writeBytes addr src) :=
  writeBytes_induction (fun _ piece h => hs.storePiece piece h) hm addr src

theorem promote (hs : Stable A P) (hmade : ∀ t b, b.Made t → A t b) (hm : P m) {addr : UInt32}
    (h : m.blockIdAt addr = 0) : P (m.promote addr) := by
  have hc := hs.coherent hm
  have hfree : m.index.plain.sparse (.ofAddr (m.effective addr)) = 0 := by
    rw [ofAddr_effective, ← hc.plain.lookup, ← hc.lookup_active]
    exact h
  have hP := hs.connect hm hfree rfl rfl (hmade _ _ .lazyCode)
  exact hs.frame hP ⟨rfl, rfl, rfl, rfl, rfl, rfl, rfl, rfl, rfl⟩

theorem storeOrPromote (hs : Stable A P) (hmade : ∀ t b, b.Made t → A t b) (hm : P m)
    (piece : Piece) :
    P (m.storeOrPromote piece) := by
  unfold Memory.storeOrPromote
  dsimp only
  split_ifs with h
  · exact hs.storePiece piece (hs.promote hmade hm h)
  · exact hs.storePiece piece hm

theorem copyIn (hs : Stable A P) (hmade : ∀ t b, b.Made t → A t b) (hm : P m) (addr : UInt32)
    (src : Bytes) : P (m.copyIn addr src) := by
  unfold Memory.copyIn
  generalize Piece.ofBulk addr src = pieces
  induction pieces generalizing m with
  | nil => exact hm
  | cons piece rest ih => exact ih (hs.storeOrPromote hmade hm piece)

theorem clear (hs : Stable A P) (hm : P m) : P m.clear := by
  unfold Memory.clear
  generalize List.range' 1 (m.blocks.size - 1) = ids
  induction ids generalizing m with
  | nil => exact hm
  | cons id rest ih => exact ih (hs.clearBlock id hm)

/-! ## Transactions and runs -/

theorem step (hs : Stable A P) (hmade : ∀ t b, b.Made t → A t b) (hm : P m) (t : Transaction)
    (hands : t.Hands A m.devices) (hload : ∀ input, t = .load input → P (left (m.load input))) :
    P (m.step t) := by
  have frame : ∀ {m'}, m.SameStore m' → P m' := hs.frame hm
  cases t with
  | register handle => exact hs.register handle hm
  | map handle start length => exact hs.mapRegion hmade hm handle start length
  | allocate start b => exact hs.allocate hm start hands
  | unmap start length => exact hs.unmap hm start length
  | replace old b => exact hs.replace hm hands
  | loadSystemBios image => exact hs.loadSystemBios hmade hm image
  | readWord addr width => exact frame ⟨rfl, rfl, rfl, rfl, rfl, rfl, rfl, rfl, rfl⟩
  | copyOut addr length => exact frame ⟨rfl, rfl, rfl, rfl, rfl, rfl, rfl, rfl, rfl⟩
  | writeWord addr width value => exact hs.writeBytes hm addr _
  | copyIn addr src => exact hs.copyIn hmade hm addr src
  | setGateA20 enabled => exact frame ⟨rfl, rfl, rfl, rfl, rfl, rfl, rfl, rfl, rfl⟩
  | setPagingActive active => exact frame ⟨rfl, rfl, rfl, rfl, rfl, rfl, rfl, rfl, rfl⟩
  | takeTlbFlush => exact frame ⟨rfl, rfl, rfl, rfl, rfl, rfl, rfl, rfl, rfl⟩
  | clear => exact hs.clear hm
  | reset => exact hs.frame (hs.clear hm) ⟨rfl, rfl, rfl, rfl, rfl, rfl, rfl, rfl, rfl⟩
  | load input => exact hload input rfl

/-- A stable property holds after every run whose restores keep it as well. -/
theorem run (hs : Stable (fun _ _ => True) P) (ts : List Transaction)
    (hload : ∀ {m} input, .load input ∈ ts → P m → P (left (m.load input))) (hm : P m) :
    P (m.run ts) := by
  induction ts generalizing m with
  | nil => exact hm
  | cons t ts ih =>
    have hands : t.Hands (fun _ _ => True) m.devices := by cases t <;> trivial
    refine ih (fun input hmem => hload input (List.mem_cons_of_mem _ hmem)) ?_
    refine hs.step (fun _ _ _ => trivial) hm t hands fun input ht => ?_
    exact hload input (ht ▸ List.mem_cons_self) hm

end Stable
end Memory
end Mainboard
