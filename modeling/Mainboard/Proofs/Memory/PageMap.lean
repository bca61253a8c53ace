import Mainboard.Proofs.Memory.Stock

/-!
# What pages show after a change of the mapping

Mapping a region, installing a block and unmapping replace what a range of pages shows and leave all
other pages alone. Pages of the range are disconnected first, which gives up positions of the arena,
and the new blocks take these positions again. No other page resolves to a position that is given
up, so it does not matter which of them a new block gets.
-/
namespace Mainboard

def Block.Anchored (t : RegionTable) : Block → Prop
  | .window region _ => region < t.registered.size
  | _ => True

theorem Block.read_of_extended {b : Block} {t t' : RegionTable} (hb : b.Anchored t)
    (hregions : t'.regions = t.regions)
    (hregistered : ∀ {i handle : Nat}, t.registered[i]? = some handle →
      t'.registered[i]? = some handle)
    (offset n : Nat) : b.read t' offset n = b.read t offset n := by
  cases b with
  | window region base =>
    have hget := Array.getElem?_eq_getElem (show region < t.registered.size from hb)
    unfold read
    dsimp only [target?]
    rw [hget, hregistered hget]
    dsimp only
    rw [RegionTable.region, hregions]
    rfl
  | code storage => cases storage <;> rfl
  | _ => rfl

namespace Memory

def pageId (m : Memory) (p : Page) : BlockId := m.index.plain.lookup p

def pageBlock (m : Memory) (p : Page) : Block := m.block (m.pageId p)

/-- A page resolves to the same position as before, and the block there is the same. -/
structure SamePage (m m' : Memory) (p : Page) : Prop where
  pageId_eq : m'.pageId p = m.pageId p
  pageBlock_eq : m'.pageBlock p = m.pageBlock p

/-- A page is the same, and so is what is read from it. -/
structure Keeps (m m' : Memory) (p : Page) : Prop extends m.SamePage m' p where
  read_eq : (m.pageBlock p).Anchored m.devices → ∀ offset n,
    (m'.pageBlock p).read m'.devices offset n = (m.pageBlock p).read m.devices offset n

/-- The pages from `first` on, `count` of them, show what they should, each told by its place in the
range with its position and its block. All other pages are kept. -/
structure Remaps (m m' : Memory) (first count : Nat) (shows : Nat → BlockId → Block → Prop) :
    Prop where
  inside : ∀ (p : Page) (i : Nat), i < count → p.val = first + i →
    shows i (m'.pageId p) (m'.pageBlock p)
  outside : ∀ p : Page, (∀ i < count, p.val ≠ first + i) → m.Keeps m' p

variable {m m' : Memory} {exact : Prop} {p q : Page} {b : Block}

/-! ## Pages that are left alone -/

theorem ArenaSafe.pageId_eq (h : m.ArenaSafe exact) (p : Page) :
    m.pageId p = m.index.plain.sparse p :=
  h.coherent.plain.lookup p

theorem SamePage.trans {m'' : Memory} (h : m.SamePage m' p) (h' : m'.SamePage m'' p) :
    m.SamePage m'' p :=
  ⟨h'.pageId_eq.trans h.pageId_eq, h'.pageBlock_eq.trans h.pageBlock_eq⟩

theorem samePage_of_eq (hid : m'.pageId p = m.pageId p)
    (hblock : m'.block (m.pageId p) = m.block (m.pageId p)) : m.SamePage m' p := by
  refine ⟨hid, ?_⟩
  unfold pageBlock
  rw [hid, hblock]

theorem ArenaSafe.samePage_of_given_up (h : m.ArenaSafe exact) (h' : m'.ArenaSafe exact)
    (hid : m'.pageId p = m.pageId p)
    (hblock : ∀ id, m'.block id = m.block id ∨ m'.block id = .unconnected) : m.SamePage m' p := by
  apply samePage_of_eq hid
  by_cases hzero : m.pageId p = 0
  · rw [hzero, h.sentinel, h'.sentinel]
  · have husable : m'.Usable (m.pageId p) := by
      rw [← hid, h'.pageId_eq] at hzero ⊢
      exact h'.usable p hzero
    rcases hblock (m.pageId p) with hsame | hgone
    · exact hsame
    · have hconnected := husable.1
      rw [hgone] at hconnected
      cases hconnected

/-! ## Disconnecting -/

theorem ArenaSafe.pageId_disconnect (h : m.ArenaSafe exact) (p q : Page) :
    (m.disconnect p).pageId q = if q = p then 0 else m.pageId q := by
  rw [(h.disconnect p).pageId_eq, h.pageId_eq, sparse_disconnect p h.coherent]

theorem ArenaSafe.samePage_disconnect (h : m.ArenaSafe exact) (hne : q ≠ p) :
    m.SamePage (m.disconnect p) q := by
  apply h.samePage_of_given_up (h.disconnect p)
  · rw [h.pageId_disconnect, if_neg hne]
  · intro id
    unfold Memory.disconnect
    split_ifs
    · exact Or.inl rfl
    · exact block_install _ p 0 id

theorem ArenaSafe.disconnectAll (h : m.ArenaSafe exact) (pages : List Page) :
    (m.disconnectAll pages).ArenaSafe exact ∧ (∀ p ∈ pages, (m.disconnectAll pages).pageId p = 0) ∧
      ∀ p ∉ pages, m.SamePage (m.disconnectAll pages) p := by
  unfold Memory.disconnectAll
  induction pages generalizing m with
  | nil => exact ⟨h, by simp, fun _ _ => ⟨rfl, rfl⟩⟩
  | cons p rest ih =>
    obtain ⟨hsafe, hin, hout⟩ := ih (h.disconnect p)
    refine ⟨hsafe, fun q hq => ?_, fun q hq => ?_⟩
    · by_cases hrest : q ∈ rest
      · exact hin q hrest
      · have hqp : q = p := (List.mem_cons.mp hq).resolve_right hrest
        rw [List.foldl_cons, (hout q hrest).pageId_eq, h.pageId_disconnect, if_pos hqp]
    · rw [List.mem_cons, not_or] at hq
      exact (h.samePage_disconnect hq.1).trans (hout q hq.2)

/-! ## Connecting -/

theorem ArenaSafe.block_connect (h : m.ArenaSafe exact) (hp : m.pageId p = 0) (b : Block)
    (id : BlockId) :
    (m.connect p b).2.block id = if id = (m.connect p b).1 then b else m.block id := by
  have hfree : (m.alloc b).2.index.plain.sparse p = 0 := by
    rw [index_alloc, ← h.pageId_eq]
    exact hp
  have hconnect : (m.connect p b).2.block id = (m.alloc b).2.block id := by
    unfold Memory.connect
    dsimp only
    rw [install_of_free hfree (h.fresh_alloc b).ne_zero]
    rfl
  rw [hconnect]
  exact h.block_alloc b id

theorem ArenaSafe.pageId_connect (h : m.ArenaSafe exact) (hp : m.pageId p = 0)
    (hb : b.isConnected = true) (hsize : b.size = blockSize) (q : Page) :
    (m.connect p b).2.pageId q = if q = p then (m.connect p b).1 else m.pageId q := by
  rw [(h.connect (h.pageId_eq p ▸ hp) hb hsize).pageId_eq, h.pageId_eq, sparse_connect]

theorem ArenaSafe.pageBlock_connect (h : m.ArenaSafe exact) (hp : m.pageId p = 0)
    (hb : b.isConnected = true) (hsize : b.size = blockSize) :
    (m.connect p b).2.pageBlock p = b := by
  unfold pageBlock
  rw [h.pageId_connect hp hb hsize, if_pos rfl, h.block_connect hp, if_pos rfl]

theorem ArenaSafe.samePage_connect (h : m.ArenaSafe exact) (hp : m.pageId p = 0)
    (hb : b.isConnected = true) (hsize : b.size = blockSize) (hne : q ≠ p) :
    m.SamePage (m.connect p b).2 q := by
  have hunheld : m.pageId q ≠ (m.connect p b).1 := by
    have hfresh := (h.fresh_alloc b).unheld q
    rwa [index_alloc, ← h.pageId_eq] at hfresh
  apply samePage_of_eq
  · rw [h.pageId_connect hp hb hsize, if_neg hne]
  · rw [h.block_connect hp, if_neg hunheld]

/-- Connecting distinct pages that are all disconnected, one after the other. -/
theorem ArenaSafe.connectEach (block : Nat → Block) (places : List (Page × Nat))
    (h : m.ArenaSafe exact)
    (hfree : ∀ e ∈ places, m.pageId e.1 = 0) (hnodup : (places.map Prod.fst).Nodup)
    (hblock : ∀ i, (block i).isConnected = true ∧ (block i).size = blockSize) :
    (∀ e ∈ places, (places.foldl (fun m e => (m.connect e.1 (block e.2)).2) m).pageBlock e.1 =
        block e.2) ∧
      ∀ p ∉ places.map Prod.fst,
        m.SamePage (places.foldl (fun m e => (m.connect e.1 (block e.2)).2) m) p := by
  induction places generalizing m with
  | nil => exact ⟨by simp, fun _ _ => ⟨rfl, rfl⟩⟩
  | cons e rest ih =>
    rw [List.map_cons, List.nodup_cons] at hnodup
    obtain ⟨hconn, hsize⟩ := hblock e.2
    have hp := hfree e List.mem_cons_self
    have hne : ∀ f ∈ rest, f.1 ≠ e.1 :=
      fun f hf heq => hnodup.1 (heq ▸ List.mem_map_of_mem hf)
    have hrest : ∀ f ∈ rest, (m.connect e.1 (block e.2)).2.pageId f.1 = 0 := by
      intro f hf
      rw [h.pageId_connect hp hconn hsize, if_neg (hne f hf)]
      exact hfree f (List.mem_cons_of_mem _ hf)
    obtain ⟨hin, hout⟩ := ih (h.connect (h.pageId_eq _ ▸ hp) hconn hsize) hrest hnodup.2
    refine ⟨fun f hf => ?_, fun q hq => ?_⟩
    · rcases List.mem_cons.mp hf with rfl | hf
      · -- later pages of the range do not disturb the first one
        exact (hout f.1 hnodup.1).pageBlock_eq.trans (h.pageBlock_connect hp hconn hsize)
      · exact hin f hf
    · rw [List.map_cons, List.mem_cons, not_or] at hq
      exact (h.samePage_connect hp hconn hsize hq.1).trans (hout q hq.2)

/-! ## The three changes -/

/-- A page that stays the same reads the same as long as regions are only registered. -/
theorem SamePage.keeps (h : m.SamePage m' p) (hregions : m'.devices.regions = m.devices.regions)
    (hregistered : ∀ {i handle : Nat}, m.devices.registered[i]? = some handle →
      m'.devices.registered[i]? = some handle) : m.Keeps m' p where
  toSamePage := h
  read_eq := by
    intro hanchored offset n
    rw [h.pageBlock_eq]
    exact Block.read_of_extended hanchored hregions hregistered offset n

theorem SamePage.keeps_of_devices (h : m.SamePage m' p) (hdevices : m'.devices = m.devices) :
    m.Keeps m' p := by
  apply h.keeps
  · rw [hdevices]
  · rw [hdevices]
    exact id

theorem rangeError?_eq_none_iff {start : UInt32} {length : Nat} :
    rangeError? start length = none ↔
      start.toNat % 4096 = 0 ∧ length % 4096 = 0 ∧ start.toNat + length ≤ 4294967296 := by
  constructor
  · exact rangeError?_eq_none
  · rintro ⟨halign, hlength, hend⟩
    have haligned : isPageAligned start = true := decide_eq_true halign
    have hwhole : length % blockSize = 0 := hlength
    have hinside : ¬start.toNat + length > addressSpaceEnd := not_lt.mpr hend
    unfold rangeError?
    rw [if_neg (not_not.mpr haligned), if_neg (not_not.mpr hwhole), if_neg hinside]

/-- The pages of a range that ends within the address space are numbered without a gap. -/
theorem getElem?_range {start : UInt32} {length : Nat} (hrange : rangeError? start length = none)
    (i : Nat) :
    (Page.range start length)[i]? = some p ↔
      i < length / 4096 ∧ p.val = start.toNat / 4096 + i := by
  obtain ⟨-, -, hend⟩ := rangeError?_eq_none_iff.mp hrange
  unfold Page.range
  rw [List.getElem?_map]
  by_cases hi : i < length / 4096
  · have hval : (Page.ofNumber (start.toNat / 4096 + i)).val = start.toNat / 4096 + i :=
      Nat.mod_eq_of_lt (by omega)
    rw [List.getElem?_range hi, Option.map_some, Option.some_inj, Fin.ext_iff, hval]
    constructor
    · exact fun heq => ⟨hi, heq.symm⟩
    · exact fun heq => heq.2.symm
  · simp [hi]

theorem remaps_of_range {start : UInt32} {length : Nat} (hrange : rangeError? start length = none)
    {shows : Nat → BlockId → Block → Prop}
    (hin : ∀ p i, (Page.range start length)[i]? = some p → shows i (m'.pageId p) (m'.pageBlock p))
    (hout : ∀ p ∉ Page.range start length, m.Keeps m' p) :
    m.Remaps m' (start.toNat / 4096) (length / 4096) shows where
  inside p i hi hp := hin p i ((getElem?_range hrange i).mpr ⟨hi, hp⟩)
  outside p hp := by
    apply hout
    intro hmem
    obtain ⟨i, hi⟩ := List.mem_iff_getElem?.mp hmem
    obtain ⟨hlt, hval⟩ := (getElem?_range hrange i).mp hi
    exact hp i hlt hval

/-! ### Unmapping -/

theorem unmap_eq_ok_iff {start : UInt32} {length : Nat} :
    m.unmap start length = .ok () m' ↔
      rangeError? start length = none ∧ m' = m.disconnectAll (Page.range start length) := by
  unfold unmap
  cases rangeError? start length with
  | some e => simp
  | none => simp [eq_comm]

theorem ArenaSafe.remaps_unmap (h : m.ArenaSafe exact) {start : UInt32} {length : Nat}
    (hm : m.unmap start length = .ok () m') :
    m.Remaps m' (start.toNat / 4096) (length / 4096) fun _ id b => id = 0 ∧ b = .unconnected := by
  obtain ⟨hrange, rfl⟩ := unmap_eq_ok_iff.mp hm
  obtain ⟨hsafe, hin, hout⟩ := h.disconnectAll (Page.range start length)
  apply remaps_of_range hrange
  · intro p i hi
    have hzero := hin p (List.mem_of_getElem? hi)
    refine ⟨hzero, ?_⟩
    unfold pageBlock
    rw [hzero, hsafe.sentinel]
  · intro p hp
    exact (hout p hp).keeps_of_devices (m.devices_disconnectAll _)

/-! ### Mapping -/

theorem mapRegion_eq_ok_iff {handle : Nat} {start : UInt32} {length : Nat} :
    m.mapRegion handle start length = .ok () m' ↔
      rangeError? start length = none ∧ length ≤ (m.devices.region handle).size ∧
        m' = ((m.registerRegion handle).2.disconnectAll (Page.range start length)).openWindows
          (m.registerRegion handle).1 (Page.range start length) := by
  unfold mapRegion
  cases rangeError? start length with
  | some e => simp
  | none =>
    dsimp only
    split_ifs with hsize
    · simp [not_le.mpr hsize]
    · simp [not_lt.mp hsize, eq_comm]

theorem openWindows_eq (m : Memory) (region : Nat) (pages : List Page) :
    m.openWindows region pages = pages.zipIdx.foldl
      (fun m e => (m.connect e.1 (.window region (UInt64.ofNat (e.2 * blockSize)))).2) m := rfl

/-- The pages of the range become windows onto the region, which is registered then. -/
theorem ArenaSafe.remaps_mapRegion (h : m.ArenaSafe exact) {handle : Nat} {start : UInt32}
    {length : Nat} (hm : m.mapRegion handle start length = .ok () m') :
    ∃ region, m'.devices.registered[region]? = some handle ∧
      m.Remaps m' (start.toNat / 4096) (length / 4096) fun i _ b =>
        b = .window region (UInt64.ofNat (i * 4096)) := by
  obtain ⟨hrange, -, rfl⟩ := mapRegion_eq_ok_iff.mp hm
  let pages := Page.range start length
  let region := (m.registerRegion handle).1
  let m₁ := (m.registerRegion handle).2
  have hregister : ∀ p, m.SamePage m₁ p := fun p => ⟨rfl, rfl⟩
  have h₁ : m₁.ArenaSafe exact := (stable_arenaSafe (fun _ _ => True) exact).register handle h
  obtain ⟨h₂, hfree, hkept⟩ := h₁.disconnectAll pages
  have hfst : pages.zipIdx.map Prod.fst = pages := List.zipIdx_map_fst 0 pages
  have hzero : ∀ e ∈ pages.zipIdx, (m₁.disconnectAll pages).pageId e.1 = 0 := by
    intro e he
    exact hfree e.1 (hfst ▸ List.mem_map_of_mem he)
  obtain ⟨hin, hout⟩ := h₂.connectEach (fun i => .window region (UInt64.ofNat (i * blockSize)))
    pages.zipIdx hzero (hfst.symm ▸ nodup_range hrange) fun _ => ⟨rfl, rfl⟩
  rw [← openWindows_eq] at hin hout
  have hdevices : ((m₁.disconnectAll pages).openWindows region pages).devices =
      (m.devices.register handle).2 := by
    rw [devices_openWindows, devices_disconnectAll]
    rfl
  refine ⟨region, ?_, remaps_of_range hrange ?_ ?_⟩
  · rw [hdevices]
    exact m.devices.getElem?_register handle
  · intro p i hi
    exact hin (p, i) (List.mk_mem_zipIdx_iff_getElem?.mpr hi)
  · intro p hp
    have hsame : m.SamePage ((m₁.disconnectAll pages).openWindows region pages) p :=
      ((hregister p).trans (hkept p hp)).trans (hout p (hfst.symm ▸ hp))
    apply hsame.keeps
    · rw [hdevices, RegionTable.regions_register]
    · rw [hdevices]
      exact (m.devices.extends_register handle).registered

/-! ### Installing a block -/

theorem allocate_eq_ok_iff {start : UInt32} {id : BlockId} :
    m.allocate start b = .ok id m' ↔ start.toNat % 4096 = 0 ∧ b.size = blockSize ∧
      (id, m') = if b.isConnected then (m.disconnect (.ofAddr start)).connect (.ofAddr start) b
        else (0, m.disconnect (.ofAddr start)) := by
  have haligned : isPageAligned start = true ↔ start.toNat % 4096 = 0 := decide_eq_true_iff
  unfold allocate
  dsimp only
  by_cases halign : isPageAligned start = true
  · rw [if_neg (not_not.mpr halign)]
    by_cases hsize : b.size = blockSize
    · rw [if_neg (not_not.mpr hsize)]
      split_ifs <;> simp [haligned.mp halign, hsize, Prod.ext_iff, eq_comm]
    · rw [if_pos hsize]
      simp [hsize]
  · rw [if_pos halign]
    simp [mt haligned.mpr halign]

theorem allocate_page (m : Memory) {start : UInt32} (halign : start.toNat % 4096 = 0)
    (hsize : b.size = blockSize) :
    ∃ id, m.allocate start b = .ok id (m.step (.allocate start b)) := by
  obtain ⟨id, m', hm⟩ : ∃ id m', m.allocate start b = .ok id m' := by
    simp only [allocate_eq_ok_iff, exists_and_left]
    exact ⟨halign, hsize, _, _, rfl⟩
  have hstep : m.step (.allocate start b) = m' := congrArg left hm
  exact ⟨id, hstep ▸ hm⟩

theorem remaps_page {shows : BlockId → Block → Prop} (hin : shows (m'.pageId p) (m'.pageBlock p))
    (hout : ∀ q ≠ p, m.Keeps m' q) : m.Remaps m' p.val 1 fun _ => shows where
  inside q i hi hq := by
    obtain rfl := Nat.lt_one_iff.mp hi
    rw [Fin.ext hq]
    exact hin
  outside q hq := hout q fun heq => hq 0 Nat.one_pos (congrArg Fin.val heq)

/-- The page resolves to the answered position and shows the block; for the unconnected block that
is the unconnected position. -/
theorem ArenaSafe.remaps_allocate (h : m.ArenaSafe exact) {start : UInt32} {id : BlockId}
    (hm : m.allocate start b = .ok id m') :
    m.Remaps m' (start.toNat / 4096) 1 fun _ i shown =>
      i = id ∧ shown = b ∧ (b = .unconnected → id = 0) := by
  obtain ⟨-, hsize, hresult⟩ := allocate_eq_ok_iff.mp hm
  let p := Page.ofAddr start
  have hsafe := h.disconnect p
  have hzero : (m.disconnect p).pageId p = 0 := by
    rw [h.pageId_disconnect, if_pos rfl]
  apply remaps_page (p := p)
  · by_cases hconn : b.isConnected = true
    · rw [if_pos hconn] at hresult
      obtain ⟨rfl, rfl⟩ := Prod.mk.inj hresult
      refine ⟨?_, hsafe.pageBlock_connect hzero hconn hsize, ?_⟩
      · exact (hsafe.pageId_connect hzero hconn hsize p).trans (if_pos rfl)
      · rintro rfl
        cases hconn
    · rw [if_neg hconn] at hresult
      obtain ⟨rfl, rfl⟩ := Prod.mk.inj hresult
      refine ⟨hzero, ?_, fun _ => rfl⟩
      unfold pageBlock
      rw [hzero, hsafe.sentinel, Block.eq_unconnected (Bool.eq_false_iff.mpr hconn)]
  · intro q hq
    have hsame := h.samePage_disconnect hq
    by_cases hconn : b.isConnected = true
    · rw [if_pos hconn] at hresult
      obtain ⟨rfl, rfl⟩ := Prod.mk.inj hresult
      refine (hsame.trans (hsafe.samePage_connect hzero hconn hsize hq)).keeps_of_devices ?_
      rw [devices_connect, devices_disconnect]
    · rw [if_neg hconn] at hresult
      obtain ⟨rfl, rfl⟩ := Prod.mk.inj hresult
      exact hsame.keeps_of_devices (m.devices_disconnect p)

/-! ### Installing blocks one after the other -/

theorem allocateAll_eq_ok (m : Memory) {places : List (UInt32 × Block)}
    (h : ∀ e ∈ places, e.1.toNat % 4096 = 0 ∧ e.2.size = blockSize) :
    m.allocateAll places = .ok () (m.run (places.map fun e => .allocate e.1 e.2)) := by
  induction places generalizing m with
  | nil => rfl
  | cons e rest ih =>
    obtain ⟨halign, hsize⟩ := h e List.mem_cons_self
    obtain ⟨id, hm⟩ := m.allocate_page halign hsize
    unfold allocateAll
    rw [hm]
    exact ih _ fun f hf => h f (List.mem_cons_of_mem e hf)

theorem ArenaSafe.pageBlock_allocate (h : m.ArenaSafe exact) {start : UInt32}
    (halign : start.toNat % 4096 = 0) (hsize : b.size = blockSize) (q : Page) :
    (m.step (.allocate start b)).pageBlock q =
      if q = .ofAddr start then b else m.pageBlock q := by
  obtain ⟨id, hm⟩ := m.allocate_page halign hsize
  have hremaps := h.remaps_allocate hm
  split_ifs with hq
  · exact (hremaps.inside q 0 Nat.one_pos (congrArg Fin.val hq)).2.1
  · refine (hremaps.outside q fun i hi hval => hq (Fin.ext ?_)).pageBlock_eq
    rw [Nat.lt_one_iff.mp hi] at hval
    exact hval

/-- After blocks have been installed one after the other, a page shows the last one installed at it.
-/
theorem ArenaSafe.pageBlock_allocations (h : m.ArenaSafe exact) (places : List (UInt32 × Block))
    (hplaces : ∀ e ∈ places, e.1.toNat % 4096 = 0 ∧ e.2.size = blockSize) (p : Page) :
    (m.run (places.map fun e => .allocate e.1 e.2)).pageBlock p =
      places.foldl (fun shown e => if p = .ofAddr e.1 then e.2 else shown) (m.pageBlock p) := by
  induction places generalizing m with
  | nil => rfl
  | cons e rest ih =>
    obtain ⟨halign, hsize⟩ := hplaces e List.mem_cons_self
    have hsafe : (m.step (.allocate e.1 e.2)).ArenaSafe exact :=
      (stable_arenaSafe (fun _ _ => True) exact).allocate h e.1 trivial
    rw [List.map_cons, run_cons, ih hsafe fun f hf => hplaces f (List.mem_cons_of_mem e hf),
      h.pageBlock_allocate halign hsize, List.foldl_cons]

theorem ArenaSafe.pageBlock_allocations_elsewhere (h : m.ArenaSafe exact)
    {places : List (UInt32 × Block)}
    (hplaces : ∀ e ∈ places, e.1.toNat % 4096 = 0 ∧ e.2.size = blockSize)
    (helse : ∀ e ∈ places, p ≠ .ofAddr e.1) :
    (m.run (places.map fun e => .allocate e.1 e.2)).pageBlock p = m.pageBlock p := by
  rw [h.pageBlock_allocations places hplaces]
  exact List.foldlRecOn (motive := (· = m.pageBlock p)) places _ rfl fun shown hshown e he =>
    (if_neg (helse e he)).trans hshown

/-- If all blocks that are installed at a page are the same one, the page shows it. -/
theorem ArenaSafe.pageBlock_allocations_here (h : m.ArenaSafe exact)
    {places : List (UInt32 × Block)}
    (hplaces : ∀ e ∈ places, e.1.toNat % 4096 = 0 ∧ e.2.size = blockSize)
    (hhere : ∃ e ∈ places, p = .ofAddr e.1) (hsame : ∀ e ∈ places, p = .ofAddr e.1 → e.2 = b) :
    (m.run (places.map fun e => .allocate e.1 e.2)).pageBlock p = b := by
  rw [h.pageBlock_allocations places hplaces]
  obtain ⟨e, he, hp⟩ := hhere
  obtain ⟨before, after, rfl⟩ := List.append_of_mem he
  rw [List.foldl_append, List.foldl_cons, if_pos hp, hsame e he hp]
  refine List.foldlRecOn (motive := (· = b)) after _ rfl fun shown hshown f hf => ?_
  split_ifs with hpage
  · exact hsame f (List.mem_append_right _ (List.mem_cons_of_mem e hf)) hpage
  · exact hshown

end Memory
end Mainboard
