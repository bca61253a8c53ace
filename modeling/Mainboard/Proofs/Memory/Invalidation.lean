import Mainboard.Proofs.Memory.CodeNotices

/-!
# The page that a reported store is in

An owner of decoded code files it under the bases of the pages that are reported as promoted, and
discards what is filed under the page of a store that is reported. A promotion is reported by the
base that the gate lets through, but a store by the address that it is made at. So what the gate
makes of that address always leads to a promoted page, while the address itself does only if the
gate leaves it alone, or if the page with bit 20 set has been promoted on its own.
-/
namespace Mainboard
namespace Memory

open Notice

def CodeReported (m : Memory) : Prop :=
  ∀ p, (m.pageBlock p).kind = .code → p.base ∈ promotions m.notices

/-- The promotions before a store at an address is reported: the page that the gate makes of the
address is among them; the page of the address itself is, exactly if the gate leaves the address
alone or the page was among them before the transaction. -/
structure Identifies (m : Memory) (before : List Notice) (addr : UInt32) : Prop where
  behindGate : (m.pageAt addr).base ∈ promotions before
  plain : (Page.ofAddr addr).base ∈ promotions before ↔
    m.gateA20 = true ∨ (Page.ofAddr addr).hasA20 = false ∨
      (Page.ofAddr addr).base ∈ promotions m.notices

structure Names (m : Memory) (reported : List Notice) (m' : Memory) : Prop
    extends m.Evolves reported m' where
  promotedAt : ∀ base ∈ promotions reported, ∃ addr, (m.pageAt addr).base = base
  writtenAt : ∀ before addr length after, reported = before ++ .codeWritten addr length :: after →
    (m'.pageBlock (m.pageAt addr)).kind = .code ∧
      (m.pageId (m.pageAt addr) = 0 → (m.pageAt addr).base ∈ promotions before)

variable {m m' : Memory} {exact : Prop} {addr : UInt32} {p : Page} {reported : List Notice}
  {t : Transaction} {ts : List Transaction}

theorem ArenaSafe.pageId_ne_of_code (h : m.ArenaSafe exact) (hcode : (m.pageBlock p).kind = .code) :
    m.pageId p ≠ 0 := by
  intro hzero
  rw [pageBlock, hzero, h.sentinel] at hcode
  cases hcode

/-! ## One transaction -/

theorem ArenaSafe.names_writeBytes (h : m.ArenaSafe exact) (addr : UInt32) (src : Bytes) :
    ∃ reported, m.Names reported (m.writeBytes addr src) := by
  obtain ⟨reported, hevolves⟩ := m.evolves_writeBytes addr src
  have hreported : reported = (Piece.ofWord addr src).flatMap m.storeReport :=
    List.append_cancel_left (hevolves.notices.symm.trans (m.reports_writeBytes addr src).1)
  refine ⟨reported, hevolves, fun base hbase => ?_, fun before a length after hsplit => ?_⟩
  · rw [hreported, promotions_flatMap] at hbase
    cases hbase
  · have hmem : .codeWritten a length ∈ (Piece.ofWord addr src).flatMap m.storeReport := by
      rw [← hreported, hsplit]
      exact List.mem_append_cons_self
    obtain ⟨piece, -, hpiece⟩ := List.mem_flatMap.mp hmem
    obtain ⟨hkind, hnotice⟩ := mem_storeReport.mp hpiece
    have hcode : (m.pageBlock (m.pageAt a)).kind = .code := by
      rw [← h.blockAt_eq_pageBlock, (Notice.codeWritten.inj hnotice).1]
      exact hkind
    have hconnected := h.pageId_ne_of_code hcode
    exact ⟨(hevolves.kind _ hconnected).trans hcode, fun hzero => absurd hzero hconnected⟩

theorem ArenaSafe.names_copyIn (h : m.ArenaSafe exact) (addr : UInt32) (src : Bytes) :
    ∃ reported, m.Names reported (m.copyIn addr src) := by
  obtain ⟨reported, hbulk⟩ := h.storesBulk (Piece.ofBulk addr src)
  have h' := h.foldl_storeOrPromote (Piece.ofBulk addr src)
  refine ⟨reported, hbulk.toEvolves, fun base hbase => ?_,
    fun before a length after hsplit => ⟨?_, ?_⟩⟩
  · obtain ⟨p, rfl, hp, hp'⟩ := (hbulk.promoted base).mp hbase
    obtain ⟨piece, -, rfl⟩ := ((hbulk.connected p).mp hp').resolve_left (not_not.mpr hp)
    exact ⟨piece.addr, rfl⟩
  · have hmem : (⟨a, length⟩ : Span) ∈ writes reported := by
      rw [hsplit, writes_append]
      exact List.mem_append_cons_self
    rw [hbulk.writes] at hmem
    obtain ⟨piece, hpiece, hspan⟩ := List.mem_map.mp hmem
    have haddr : piece.addr = a := congrArg Span.addr hspan
    have hcode := of_decide_eq_true (List.mem_filter.mp hpiece).2
    rwa [h'.blockAt_eq_pageBlock, hbulk.pageAt, haddr] at hcode
  · exact hbulk.named before a length after hsplit

theorem ArenaSafe.names_step (h : m.ArenaSafe exact) (ht : ¬t.IsRemap) :
    ∃ reported, m.Names reported (m.step t) := by
  by_cases hstore : t.IsStore
  · cases t with
    | writeWord addr width value => exact h.names_writeBytes addr _
    | copyIn addr src => exact h.names_copyIn addr src
    | _ => exact absurd hstore id
  · obtain ⟨reported, hevolves⟩ := h.evolves_step ht
    have hnone : reported = [] := by
      have hnotices := hevolves.notices
      rw [m.notices_step hstore] at hnotices
      exact List.self_eq_append_right.mp hnotices
    subst hnone
    exact ⟨[], hevolves, by simp [promotions], by simp⟩

/-- The page of a reported store is a code page by then: it was one before, or it has just been
promoted. -/
theorem Names.identifies (h : m.Names reported m') (hcode : m.CodeReported)
    {before after : List Notice}
    {length : Nat} (hsplit : reported = before ++ .codeWritten addr length :: after) :
    m.Identifies (m.notices ++ before) addr := by
  obtain ⟨hkind, hpromoted⟩ := h.writtenAt before addr length after hsplit
  have hbehind : (m.pageAt addr).base ∈ promotions (m.notices ++ before) := by
    rw [promotions_append, List.mem_append]
    by_cases hzero : m.pageId (m.pageAt addr) = 0
    · exact Or.inr (hpromoted hzero)
    · exact Or.inl (hcode _ ((h.kind _ hzero).symm.trans hkind))
  refine ⟨hbehind, fun hplain => ?_, fun hcases => ?_⟩
  · by_contra hnot
    obtain ⟨hgate, ha20, hold⟩ : m.index.gateA20 = false ∧ (Page.ofAddr addr).hasA20 = true ∧
        (Page.ofAddr addr).base ∉ promotions m.notices := by
      simpa [gateA20] using hnot
    rw [promotions_append, List.mem_append] at hplain
    have hmem : (Page.ofAddr addr).base ∈ promotions reported := by
      rw [hsplit, promotions_append]
      exact List.mem_append_left _ (hplain.resolve_left hold)
    -- with the gate disabled no page with bit 20 set is promoted
    obtain ⟨a, ha⟩ := h.promotedAt _ hmem
    have hpage : (Page.ofAddr a).withoutA20 = .ofAddr addr := by
      have hpageAt := Page.base_injective ha
      rwa [pageAt, hgate] at hpageAt
    exact Page.withoutA20_ne ha20 _ hpage
  · rcases hcases with hgate | ha20 | hold
    · have hpage : m.pageAt addr = .ofAddr addr := if_pos hgate
      rwa [hpage] at hbehind
    · have hpage : m.pageAt addr = .ofAddr addr := by
        unfold pageAt
        rw [Page.withoutA20_eq_self ha20, ite_self]
      rwa [hpage] at hbehind
    · rw [promotions_append]
      exact List.mem_append_left _ hold

/-! ## Runs -/

theorem Evolves.codeReported (h : m.Evolves reported m') (h' : m'.ArenaSafe exact)
    (hcode : m.CodeReported) : m'.CodeReported := by
  intro p hp
  rw [h.notices, promotions_append, List.mem_append]
  by_cases hzero : m.pageId p = 0
  · exact Or.inr ((h.base_mem p).mpr ⟨hzero, h'.pageId_ne_of_code hp⟩)
  · exact Or.inl (hcode p ((h.kind p hzero).symm.trans hp))

theorem codeReported_new (ramSize : UInt32) (regions : Array Region) :
    (new ramSize regions).CodeReported := by
  have h := arenaSafe_new ramSize regions False
  intro p hp
  have hzero : (new ramSize regions).pageId p = 0 :=
    (h.pageId_eq p).trans (PageTable.sparse_empty _ p)
  exact absurd hzero (h.pageId_ne_of_code hp)

theorem ArenaSafe.identifies_run (h : m.ArenaSafe False) (hcode : m.CodeReported)
    (hts : ∀ t ∈ ts, ¬t.IsRemap) {before after : List Notice} {length : Nat}
    (hsplit : (m.run ts).notices = before ++ .codeWritten addr length :: after)
    (hlater : m.notices.length ≤ before.length) :
    ∃ us t vs, ts = us ++ t :: vs ∧ (m.run us).notices.length ≤ before.length ∧
      before.length < ((m.run us).step t).notices.length ∧ (m.run us).Identifies before addr := by
  induction ts generalizing m with
  | nil =>
    have hlength := congrArg List.length hsplit
    simp only [run_nil, List.length_append, List.length_cons] at hlength
    omega
  | cons t ts ih =>
    rw [List.forall_mem_cons] at hts
    obtain ⟨reported, hnames⟩ := h.names_step hts.1
    have h' : (m.step t).ArenaSafe False := h.run [t]
    obtain ⟨reported', hrest⟩ := h'.evolves_run hts.2
    rw [run_cons, hrest.notices] at hsplit
    rcases append_eq_append_cons hsplit with ⟨rest, hfirst, -⟩ | ⟨rest, rfl, -⟩
    · -- the report is made by the first transaction
      have hlt : before.length < (m.step t).notices.length := by
        rw [hfirst, List.length_append, List.length_cons]
        omega
      refine ⟨[], t, ts, rfl, hlater, hlt, ?_⟩
      rw [hnames.notices] at hfirst
      rcases append_eq_append_cons hfirst with ⟨rest', hold, -⟩ | ⟨rest', rfl, hreported⟩
      · rw [hold, List.length_append, List.length_cons] at hlater
        omega
      · exact hnames.identifies hcode hreported
    · have hlater' : (m.step t).notices.length ≤ ((m.step t).notices ++ rest).length := by
        rw [List.length_append]
        exact Nat.le_add_right _ _
      rw [← hrest.notices] at hsplit
      obtain ⟨us, u, vs, rfl, hus, hu, hidentifies⟩ :=
        ih h' (hnames.toEvolves.codeReported h' hcode) hts.2 hsplit hlater'
      exact ⟨t :: us, u, vs, rfl, hus, hu, hidentifies⟩

/-- Take a bus on which every code page has been reported as promoted, as it is of a new one, and
use it without remapping. Each store that is reported from then on is reported by some transaction,
and the page that the gate makes of its address has been reported as promoted before. The page of
the address itself has been, exactly if the gate was enabled at that transaction, or bit 20 of the
address is clear, or the page had been reported before the transaction. -/
theorem reported_store_identified (ramSize : UInt32) (regions : Array Region)
    (setup ts : List Transaction) (hcode : ((new ramSize regions).run setup).CodeReported)
    (hts : ∀ t ∈ ts, ¬t.IsRemap) :
    let m := (new ramSize regions).run setup
    ∀ before addr length after,
      (m.run ts).notices = before ++ .codeWritten addr length :: after →
      m.notices.length ≤ before.length →
      ∃ us t vs, ts = us ++ t :: vs ∧ (m.run us).notices.length ≤ before.length ∧
        before.length < ((m.run us).step t).notices.length ∧ (m.run us).Identifies before addr := by
  intro m before addr length after hsplit hlater
  have h : m.ArenaSafe False := (arenaSafe_run ramSize regions setup).weaken
  exact h.identifies_run hcode hts hsplit hlater

set_option maxRecDepth 10000 in
/-- With the gate disabled a byte is stored through the alias of a promoted page. The promoted page
is the one that the gate makes of the address. -/
theorem alias_store_identified :
    let m := (new 0 #[]).run []
    let ts : List Transaction := [.copyIn 0x2000 [1], .writeWord 0x102000 1 5]
    let before : List Notice := [.promoted 0x2000, .codeWritten 0x2000 1]
    m.CodeReported ∧ (∀ t ∈ ts, ¬t.IsRemap) ∧ m.notices.length ≤ before.length ∧
      (m.run ts).notices = before ++ [.codeWritten 0x102000 1] ∧
      ∃ us t vs, ts = us ++ t :: vs ∧ (m.run us).Identifies before 0x102000 := by
  intro m ts before
  have hcode : m.CodeReported := codeReported_new 0 #[]
  have hts : ∀ t ∈ ts, ¬t.IsRemap := by decide
  have hnotices : (m.run ts).notices = before ++ [.codeWritten 0x102000 1] := by decide +kernel
  have hlater : m.notices.length ≤ before.length := Nat.zero_le _
  obtain ⟨us, t, vs, hsplit, -, -, hidentifies⟩ :=
    reported_store_identified 0 #[] [] ts hcode hts before 0x102000 1 [] hnotices hlater
  exact ⟨hcode, hts, hlater, hnotices, us, t, vs, hsplit, hidentifies⟩

set_option maxRecDepth 10000 in
/-- The page of the address itself need not have been reported: on a new bus, whose gate is
disabled, a bulk store through the alias of a page promotes the page and is reported at the alias.
-/
theorem alias_page_not_promoted :
    ¬∀ (ramSize : UInt32) (regions : Array Region) (ts : List Transaction),
      (∀ t ∈ ts, t.IsStore ∨ ∃ enabled, t = .setGateA20 enabled) →
      ∀ before addr length after,
        ((new ramSize regions).run ts).notices = before ++ .codeWritten addr length :: after →
        (Page.ofAddr addr).base ∈ promotions before := by
  intro h
  have hstores : ∀ t ∈ [Transaction.copyIn 0x102000 [0xab, 0xab, 0xab, 0xab]],
      t.IsStore ∨ ∃ enabled, t = .setGateA20 enabled := by
    intro t ht
    rw [List.mem_singleton.mp ht]
    exact Or.inl trivial
  have hnotices : ((new 0 #[]).run [.copyIn 0x102000 [0xab, 0xab, 0xab, 0xab]]).notices =
      [.promoted 0x2000, .codeWritten 0x102000 4] := by decide +kernel
  have hpromoted := h 0 #[] _ hstores [.promoted 0x2000] 0x102000 4 [] hnotices
  exact absurd hpromoted (by decide)

end Memory
end Mainboard
