import Mainboard.Proofs.Machine.Acts
import Mainboard.Proofs.Memory.Aside

/-!
# Switches of the gate while the processor pages

With paging active a switch of the gate asks for a flush, since cached translations may now lead to
other blocks. Whether paging is active the bus does not ask the processor: it goes by what it was
told last, and a slice tells it only once, before the first block. So it is the state of the
processor when the slice began that counts. A processor that begins to page in a block, and switches
the gate before the next slice, goes unnoticed.
-/
namespace Mainboard

open Act

variable {σ δ : Type}

theorem Memory.pagingActive_run_quiet (m : Memory) (ts : List Transaction) (active : Bool)
    {us : List Transaction} (h : ∀ t ∈ us, t.tells = false) :
    (m.run (ts ++ .setPagingActive active :: us)).pagingActive = active := by
  rw [pagingActive_run, tellings_append, tellings, tellings_eq_nil _ h]
  exact List.getLastD_concat ..

namespace Machine

variable [Processor σ] [PortDevice δ]

/-- The bus at any act of a run, and what comes of it. -/
theorem memory_run_of_runActs {account : Account σ} {m : Machine σ δ} {ops : List (Operation σ δ)}
    {before after : List (Act σ)} {act : Act σ}
    (h : m.runActs account ops = before ++ act :: after) :
    (m.run ops).memory = ((m.memory.run (transactions before)).step act.transaction).run
      (transactions after) := by
  rw [memory_run, ← transactions_runActs account, h, transactions_append, transactions_cons,
    Memory.run_append, Memory.run_cons]

/-- A switch of the gate anywhere in a run, whether a block makes it, the owner in between, or a
reset: a flush is requested afterwards exactly if one was requested before or the last that the bus
was told is that the processor pages. If it was a slice that told this last, then the state of the
processor at the beginning of the slice decides. -/
theorem flush_requested_iff (account : Account σ) (m : Machine σ δ) (ops : List (Operation σ δ))
    {before after : List (Act σ)} {cpu : σ} {enabled : Bool}
    (h : m.runActs account ops = before ++ ⟨cpu, .setGateA20 enabled⟩ :: after) :
    let bus := m.memory.run (transactions before)
    let requested := (bus.setGateA20 enabled).takeTlbFlush.1
    (m.run ops).memory = (bus.setGateA20 enabled).run (transactions after) ∧
      (requested = true ↔ bus.tlbFlush = true ∨
        (m.memory.tellings (transactions before)).getLastD m.memory.pagingActive = true) ∧
      ∀ earlier first later,
        before = earlier ++ ⟨first, .setPagingActive (Processor.isPaging first)⟩ :: later →
        (∀ act ∈ later, act.transaction.tells = false) →
        (requested = true ↔ bus.tlbFlush = true ∨ Processor.isPaging first = true) := by
  intro bus requested
  have hrequested : requested = true ↔ bus.tlbFlush = true ∨ bus.pagingActive = true :=
    Bool.or_eq_true_iff
  refine ⟨memory_run_of_runActs h, ?_, ?_⟩
  · rw [hrequested, Memory.pagingActive_run]
  · rintro earlier first later rfl hlater
    have hquiet : ∀ t ∈ transactions later, t.tells = false := by
      simpa [transactions] using hlater
    have hpaging : bus.pagingActive = Processor.isPaging first := by
      simpa [bus] using m.memory.pagingActive_run_quiet (transactions earlier) _ hquiet
    rw [hrequested, hpaging]

end Machine

/-! ## A processor that switches -/

inductive Switch
  | paging (enabled : Bool)
  | gate (enabled : Bool)
  deriving DecidableEq

/-- A processor whose blocks switch paging or the gate, as a script says. -/
structure Switcher where
  paging : Bool
  script : List Switch
  deriving DecidableEq

instance : Processor Switcher where
  instructionPointer _ := 0
  isProtected _ := true
  isVirtual8086 _ := false
  isPaging cpu := cpu.paging
  executeBlock cpu _ _ :=
    match cpu.script with
    | [] => .finish cpu (.ok 0)
    | .paging enabled :: rest => .finish ⟨enabled, rest⟩ (.ok 1)
    | .gate enabled :: rest => .transact (.setGateA20 enabled) (.finish ⟨cpu.paging, rest⟩ (.ok 1))
  processInterrupts cpu _ _ := .done cpu
  handleException cpu _ fault := (.error (.fault fault), cpu)
  raiseInterrupt := id
  clearInterrupt := id
  reset := id

namespace Machine

/-- Paging is switched on in one slice and the gate in the next: the second slice has told the bus.
-/
theorem flush_requested_in_next_slice :
    let config := { Config.default with ramSize := 0x1000, maxBlocks := 1 }
    let cpu : Switcher := ⟨false, [.paging true, .gate true]⟩
    let start : Machine Switcher Empty := left (assemble config cpu #[]).configure
    let ops := [.executeSlice, .executeSlice]
    let before : List (Act Switcher) :=
      [⟨cpu, .setPagingActive false⟩, ⟨⟨true, [.gate true]⟩, .setPagingActive true⟩]
    new config cpu #[] = .ok start ∧
      start.runActs .steady ops = before ++ ⟨⟨true, [.gate true]⟩, .setGateA20 true⟩ :: [] ∧
      (start.run ops).memory.takeTlbFlush.1 = true := by
  intro config cpu start ops before
  have hnew : new config cpu #[] = .ok start := new_eq_ok_iff.mpr ⟨by decide, rfl⟩
  have hacts :
      start.runActs .steady ops = before ++ ⟨⟨true, [.gate true]⟩, .setGateA20 true⟩ :: [] := by
    decide +kernel
  obtain ⟨hmemory, -, hslice⟩ := flush_requested_iff .steady start ops hacts
  refine ⟨hnew, hacts, ?_⟩
  rw [hmemory]
  exact (hslice [_] ⟨true, [.gate true]⟩ [] rfl nofun).mpr (Or.inr rfl)

/-- Paging is switched on and then the gate is switched, in two blocks of one slice: the processor
pages at the switch, and no flush is requested. -/
theorem flush_not_requested_in_same_slice :
    let config := { Config.default with ramSize := 0x1000, maxBlocks := 2 }
    let cpu : Switcher := ⟨false, [.paging true, .gate true]⟩
    let start : Machine Switcher Empty := left (assemble config cpu #[]).configure
    let before : List (Act Switcher) := [⟨cpu, .setPagingActive false⟩]
    let paging : Switcher := ⟨true, [.gate true]⟩
    new config cpu #[] = .ok start ∧
      start.runActs .steady [.executeSlice] = before ++ ⟨paging, .setGateA20 true⟩ :: [] ∧
      Processor.isPaging paging = true ∧
      ((start.memory.run (transactions before)).setGateA20 true).takeTlbFlush.1 = false ∧
      (start.run [.executeSlice]).memory.takeTlbFlush.1 = false := by
  intro config cpu start before paging
  have hnew : new config cpu #[] = .ok start := new_eq_ok_iff.mpr ⟨by decide, rfl⟩
  exact ⟨hnew, by decide +kernel, rfl, by decide +kernel, by decide +kernel⟩

end Machine
end Mainboard
