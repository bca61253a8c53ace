import Mainboard.Proofs.Memory.QuickPart

/-!
# What a failed restore leaves

A restore that fails in the container, the flags it stages or the two lists leaves the bus as it
was. The count of connected pages and the last two flags are read only after the staged data has
been put in place, so a restore that fails there leaves the staged bus. This goes unseen only if
what was put in place is what was there before.
-/
namespace Mainboard
namespace Memory

variable {m m' n : Memory} {c : Container} {e : SnapshotError}

/-- All that can be seen of a bus is the same. -/
structure SameBus (m m' : Memory) : Prop where
  blockIdAt : ∀ addr, m'.blockIdAt addr = m.blockIdAt addr
  quickBlockIdAt? : ∀ addr, m'.quickBlockIdAt? addr = m.quickBlockIdAt? addr
  sparseBlockIdAt : ∀ addr, m'.sparseBlockIdAt addr = m.sparseBlockIdAt addr
  plainBlockIdAt : ∀ addr, m'.plainBlockIdAt addr = m.plainBlockIdAt addr
  block : ∀ id, m'.block id = m.block id
  devices : m'.devices = m.devices
  gateA20 : m'.gateA20 = m.gateA20
  ramSize : m'.ramSize = m.ramSize
  mappedCount : m'.mappedCount = m.mappedCount
  pagingActive : m'.pagingActive = m.pagingActive
  tlbFlush : m'.tlbFlush = m.tlbFlush

theorem sameBus_self (m : Memory) : m.SameBus m :=
  ⟨fun _ => rfl, fun _ => rfl, fun _ => rfl, fun _ => rfl, fun _ => rfl, rfl, rfl, rfl,
    rfl, rfl, rfl⟩

structure Staged.Shows (s : Staged) (m : Memory) : Prop where
  ramSize : s.ramSize = m.ramSize
  gateA20 : s.gateA20 = m.gateA20
  pages : ∀ p, (s.entries.reverse.lookup p).getD 0 = m.index.plain.lookup p
  blocks : ∀ id, (Block.unconnected :: s.blocks).getD id .unconnected = m.block id

/-- The count of connected pages that a restore reaches, which is the old one if its field is
malformed. -/
def countAfter (m : Memory) (c : Container) : UInt32 :=
  match c.u32 Tag.mappedCount with
  | .ok count => count.getD 0
  | .error _ => m.mappedCount

/-- The flag for paging that a restore reaches, which is the old one if its field or the one before
it is malformed. -/
def pagingAfter (m : Memory) (c : Container) : Bool :=
  match c.u32 Tag.mappedCount, c.bool Tag.pagingActive with
  | .ok _, .ok paging => paging.getD false
  | _, _ => m.pagingActive

theorem adoptFlags_error (h : m.adoptFlags c = .error e m') :
    m' = { m with mappedCount := m.countAfter c, pagingActive := m.pagingAfter c } := by
  unfold adoptFlags at h
  unfold countAfter pagingAfter
  cases hcount : c.u32 Tag.mappedCount with
  | error e =>
    rw [hcount] at h
    cases h
    rfl
  | ok count =>
    rw [hcount] at h
    dsimp only at h
    cases hpaging : c.bool Tag.pagingActive with
    | error e =>
      rw [hpaging] at h
      cases h
      rfl
    | ok paging =>
      rw [hpaging] at h
      dsimp only at h
      cases hflush : c.bool Tag.tlbFlush with
      | error e =>
        rw [hflush] at h
        cases h
        rfl
      | ok flush =>
        rw [hflush] at h
        cases h

/-- The fields that are read last are well-formed or absent. -/
structure LastFieldsValid (c : Container) : Prop where
  mappedCount : ∃ count, c.u32 Tag.mappedCount = .ok count
  pagingActive : ∃ paging, c.bool Tag.pagingActive = .ok paging
  tlbFlush : ∃ flush, c.bool Tag.tlbFlush = .ok flush

theorem adoptFlags_ok (h : LastFieldsValid c) : ∃ m', m.adoptFlags c = .ok () m' := by
  obtain ⟨⟨count, hcount⟩, ⟨paging, hpaging⟩, ⟨flush, hflush⟩⟩ := h
  unfold adoptFlags
  rw [hcount, hpaging, hflush]
  exact ⟨_, rfl⟩

/-- A restore fails before it has staged everything or after it has put everything in place. -/
theorem load_error {input : Bytes} (h : m.load input = .error e m') :
    (m' = m ∧ ∀ c, Container.parseFor input deviceId deviceVersion = .ok c →
        ∀ s, m.stage c ≠ .ok s) ∨
      ∃ c s, Container.parseFor input deviceId deviceVersion = .ok c ∧ m.stage c = .ok s ∧
        (m.adopt s).adoptFlags c = .error e m' := by
  unfold load at h
  cases hparse : Container.parseFor input deviceId deviceVersion with
  | error e =>
    rw [hparse] at h
    cases h
    left
    refine ⟨rfl, ?_⟩
    intro c hc
    cases hc
  | ok c =>
    rw [hparse] at h
    dsimp only at h
    cases hstage : m.stage c with
    | error e =>
      rw [hstage] at h
      cases h
      left
      refine ⟨rfl, ?_⟩
      rintro c' hc' s hs
      cases hc'
      rw [hstage] at hs
      cases hs
    | ok s =>
      rw [hstage] at h
      right
      exact ⟨c, s, rfl, hstage, h⟩

/-! ## When the bus looks the same -/

theorem ofAddr_base (p : Page) : Page.ofAddr p.base = p := by
  have hlt := p.isLt
  apply Fin.ext
  simp only [Page.ofAddr, Page.base, UInt32.toNat_ofNat']
  omega

theorem lookup_adopt (m : Memory) (s : Staged) (p : Page) :
    (m.adopt s).index.plain.lookup p = (s.entries.reverse.lookup p).getD 0 := by
  rw [(indexed_adopt m s).coherent.plain.lookup]
  exact PageIndex.sparse_plain_ofEntries _ _ _ p

/-- A bus that was replaced looks the same only if its replacement shows the same things. -/
theorem sameBus_adopt_iff (h : m.Indexed) {s : Staged} {count : UInt32} {paging : Bool} :
    m.SameBus { m.adopt s with mappedCount := count, pagingActive := paging } ↔
      s.Shows m ∧ count = m.mappedCount ∧ paging = m.pagingActive := by
  constructor
  · intro hsame
    refine ⟨⟨hsame.ramSize, hsame.gateA20, fun p => ?_, fun id => ?_⟩, hsame.mappedCount,
      hsame.pagingActive⟩
    · have hp := hsame.plainBlockIdAt p.base
      unfold plainBlockIdAt at hp
      rw [ofAddr_base] at hp
      rw [← lookup_adopt m]
      exact hp
    · rw [← block_adopt m]
      exact hsame.block id
  · rintro ⟨hshows, rfl, rfl⟩
    have hs := indexed_adopt m s
    have hplain : ∀ p, (m.adopt s).index.plain.sparse p = m.index.plain.sparse p := by
      intro p
      rw [← hs.coherent.plain.lookup, ← h.coherent.plain.lookup, lookup_adopt, hshows.pages]
    have hcovers : (m.adopt s).index.Covers (quickPages m.ramSize) := hshows.ramSize ▸ hs.covers
    have hactive := fun p =>
      h.coherent.active_congr hs.coherent h.covers hcovers hshows.gateA20 hplain p
    refine ⟨fun addr => ?_, fun addr => (hactive _).2, fun addr => (hactive _).1, fun addr => ?_,
      fun id => ?_, rfl, hshows.gateA20, hshows.ramSize, rfl, rfl, rfl⟩
    · unfold blockIdAt PageTable.lookup
      rw [(hactive _).1, (hactive _).2]
    · exact (lookup_adopt m s _).trans (hshows.pages _)
    · exact (block_adopt m s id).trans (hshows.blocks id)

/-- A restore that fails leaves the bus itself if the fields read last are valid. In all cases the
bus looks the same afterwards exactly if whatever had been staged, together with the count and the
flag for paging as far as they were read, shows what the bus had. -/
theorem failed_load_keeps_iff (ramSize : UInt32) (regions : Array Region) (ts : List Transaction)
    {input : Bytes} (hload : ((new ramSize regions).run ts).load input = .error e m') :
    let m := (new ramSize regions).run ts
    ((∀ c, Container.parseFor input deviceId deviceVersion = .ok c → LastFieldsValid c) → m' = m) ∧
      (m.SameBus m' ↔
        ∀ c s, Container.parseFor input deviceId deviceVersion = .ok c → m.stage c = .ok s →
          s.Shows m ∧ m.countAfter c = m.mappedCount ∧ m.pagingAfter c = m.pagingActive) := by
  intro m
  have hindexed : m.Indexed := indexed_run ramSize regions ts
  -- split at the point where the staged data is put in place
  rcases load_error hload with ⟨rfl, hearly⟩ | ⟨c, s, hparse, hstage, hflags⟩
  · refine ⟨fun _ => rfl, fun _ c s hc hs => absurd hs (hearly c hc s), fun _ => sameBus_self _⟩
  · constructor
    · intro hvalid
      obtain ⟨n, hn⟩ := adoptFlags_ok (m := m.adopt s) (hvalid c hparse)
      rw [hn] at hflags
      cases hflags
    · have hleft := adoptFlags_error hflags
      rw [hleft]
      refine (sameBus_adopt_iff hindexed).trans ?_
      constructor
      · intro hshows c' s' hc hs
        rw [hparse] at hc
        cases hc
        rw [hstage] at hs
        cases hs
        exact hshows
      · intro hall
        exact hall c s hparse hstage

def badFlushSnapshot : Bytes :=
  [0x46, 0x45, 0x53, 0x4E, 1, 0, 0, 0, 0x50, 0x48, 0x59, 0x53, 1, 0, 0, 0, 5, 0, 1, 0, 0, 0, 2]

theorem parse_badFlushSnapshot : Container.parseFor badFlushSnapshot deviceId deviceVersion =
    .ok ⟨⟨1, 0⟩, deviceId, ⟨1, 0⟩, [(5, [2])]⟩ := by
  decide +kernel

/-- The bus is emptied and its gate disabled before the flag is found to be malformed. -/
theorem load_badFlushSnapshot (m : Memory) :
    m.load badFlushSnapshot = .error (.invalidField .bool)
      { m.adopt ⟨m.ramSize, false, [], []⟩ with mappedCount := 0, pagingActive := false } := by
  unfold load
  rw [parse_badFlushSnapshot]
  rfl

/-- On a new bus the same failure goes unseen. -/
theorem failed_load_unseen : ∃ e m', (new 0 #[]).load badFlushSnapshot = .error e m' ∧
    (new 0 #[]).SameBus m' := by
  have hload := load_badFlushSnapshot (new 0 #[])
  refine ⟨_, _, hload, (failed_load_keeps_iff 0 #[] [] hload).2.mpr ?_⟩
  intro c s hc hs
  rw [parse_badFlushSnapshot] at hc
  cases hc
  cases hs
  refine ⟨⟨rfl, rfl, fun p => ?_, fun id => ?_⟩, rfl, rfl⟩
  · have hlookup := (indexed_run 0 #[] []).coherent.plain.lookup p
    rw [hlookup]
    exact (PageTable.sparse_empty _ p).symm
  · cases id <;> rfl

theorem failed_load_empties_bus : ¬ ∀ (ramSize : UInt32) (regions : Array Region)
    (ts : List Transaction) (input : Bytes) (e : SnapshotError) (m' : Memory),
    ((new ramSize regions).run ts).load input = .error e m' →
      ((new ramSize regions).run ts).SameBus m' := by
  intro h
  have hsame :=
    h 0x100000 #[] [.allocate 0x5000 (.ram (List.replicate 4096 0x42)), .setGateA20 true]
    badFlushSnapshot _ _ (load_badFlushSnapshot _)
  have hpage := hsame.plainBlockIdAt 0x5000
  revert hpage
  decide +kernel

end Memory
end Mainboard
