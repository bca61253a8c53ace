import Mainboard.Proofs.Machine.SnapshotRoundTrip
import Mainboard.Proofs.Memory.RestoreFailure

/-!
# Restores that are rejected

A restore reads the small parts of a snapshot before it hands the rest to the bus, and puts them in
place when the bus has been restored. The payload of the dispatcher is decoded twice, the second
time into the machine's own dispatcher. Whether a payload is accepted does not depend on the
dispatcher that it is decoded into, so after the bus nothing can fail, and a restore that fails has
changed the bus at most.
-/
namespace Mainboard

/-- A payload describes the same count and flags for every dispatcher, or is rejected by all of
them. -/
theorem Dispatcher.restored_eq (d other : Dispatcher) (input : Bytes) :
    d.restored input = (other.restored input).map fun next =>
      { next with maxBlocks := d.maxBlocks, cadence := d.cadence } := by
  simp only [restored, bind, Except.bind]
  cases Container.parseFor input deviceId deviceVersion with
  | error e => rfl
  | ok c =>
    dsimp only
    cases c.u32 Tag.sinceDelivery with
    | error e => rfl
    | ok sinceDelivery =>
      dsimp only
      cases c.bool Tag.trapArmed with
      | error e => rfl
      | ok trapArmed =>
        dsimp only
        cases c.bool Tag.traceHit with
        | error e => rfl
        | ok traceHit =>
          dsimp only
          cases c.bool Tag.tripleFaulted with
          | error e => rfl
          | ok tripleFaulted => rfl

theorem Dispatcher.load_of_restored {d other : Dispatcher} {input : Bytes}
    (h : d.restored input = .ok other) (present : Dispatcher) :
    ∃ next, present.load input = .ok () next := by
  unfold load
  rw [present.restored_eq d, h]
  exact ⟨_, rfl⟩

namespace Machine

variable {σ δ : Type} {m m' : Machine σ δ} {input : Bytes} {staged : Staged}

/-- What has been staged for the dispatcher is accepted by every dispatcher. -/
theorem load_of_stage (h : stage input = .ok staged) {payload : Bytes}
    (hpayload : staged.dispatcher = some payload) (d : Dispatcher) :
    ∃ next, d.load payload = .ok () next := by
  obtain ⟨_, _, -, -, -, -, -, hchecked⟩ := exists_of_stage h
  obtain ⟨_, hrestored⟩ := hchecked payload hpayload
  exact Dispatcher.load_of_restored hrestored d

theorem load_of_memory (hstage : stage input = .ok staged) {memory : Memory}
    (hmemory : m.memory.load staged.memory = .ok () memory) : ∃ m', m.load input = .ok () m' := by
  unfold load
  rw [hstage]
  dsimp only
  rw [hmemory]
  dsimp only
  cases hdispatcher : staged.dispatcher with
  | none => exact ⟨_, rfl⟩
  | some payload =>
    obtain ⟨next, hnext⟩ := load_of_stage hstage hdispatcher m.core.dispatcher
    have hunchanged : ((m.setMemory memory).setController staged.controller).core.dispatcher =
        m.core.dispatcher := rfl
    dsimp only
    rw [hunchanged, hnext]
    exact ⟨_, rfl⟩

variable [Processor σ]

theorem restore_cases (m : Machine σ δ) (input : Bytes) :
    (∃ e, stage input = .error e ∧ m.restore input = .error (.snapshot e) m) ∨
    (∃ staged e memory, stage input = .ok staged ∧ m.memory.load staged.memory = .error e memory ∧
      m.restore input = .error (.snapshot e) (m.setMemory memory)) ∨
    ∃ (staged : Staged) (memory : Memory) (n : Machine σ δ), stage input = .ok staged ∧
      m.memory.load staged.memory = .ok () memory ∧ m.restore input = .ok () n.redriveIntr := by
  cases hstage : stage input with
  | error e =>
    left
    refine ⟨e, rfl, ?_⟩
    unfold restore load
    rw [hstage]
  | ok staged =>
    right
    cases hmemory : m.memory.load staged.memory with
    | error e memory =>
      left
      refine ⟨staged, e, memory, rfl, hmemory, ?_⟩
      unfold restore load
      rw [hstage]
      dsimp only
      rw [hmemory]
    | ok u memory =>
      right
      obtain ⟨n, hload⟩ := load_of_memory hstage hmemory
      refine ⟨staged, memory, n, rfl, hmemory, ?_⟩
      unfold restore
      rw [hload]

/-- From any state of a machine and for any bytes: a restore that fails leaves the machine that it
found but for the bus, that is, both chips with their latches, the dispatcher, the processor, the
ports, the configuration and the image of the BIOS. It succeeds exactly if the small parts can be
read and the bus is restored, as the payload that has been read for the dispatcher is then accepted
whatever the dispatcher. -/
theorem rejected_restore_changes_memory_only (m : Machine σ δ) (input : Bytes) :
    (∀ e m', m.restore input = .error e m' → m' = m.setMemory m'.memory) ∧
    ((∃ m', m.restore input = .ok () m') ↔
      ∃ staged memory, stage input = .ok staged ∧ m.memory.load staged.memory = .ok () memory) ∧
    ∀ staged payload, stage input = .ok staged → staged.dispatcher = some payload →
      ∀ d : Dispatcher, ∃ next, d.load payload = .ok () next := by
  have hcases := m.restore_cases input
  refine ⟨fun e m' hrejected => ?_, ⟨?_, ?_⟩, fun staged payload hstage hpayload d =>
    load_of_stage hstage hpayload d⟩
  · rw [hrejected] at hcases
    rcases hcases with ⟨_, -, heq⟩ | ⟨_, _, _, -, -, heq⟩ | ⟨_, _, _, -, -, heq⟩
    · cases heq
      rfl
    · cases heq
      rfl
    · cases heq
  · rintro ⟨m', hrestored⟩
    rw [hrestored] at hcases
    rcases hcases with ⟨_, -, heq⟩ | ⟨_, _, _, -, -, heq⟩ | ⟨staged, memory, _, hstage, hmemory, -⟩
    · cases heq
    · cases heq
    · exact ⟨staged, memory, hstage, hmemory⟩
  · rintro ⟨staged, memory, hstage, hmemory⟩
    obtain ⟨m', hload⟩ := load_of_memory hstage hmemory
    unfold restore
    rw [hload]
    exact ⟨_, rfl⟩

/-- On a machine with a pending request and an armed trap a restore fails in the last field of the
bus. The gate is back at its reset state by then, and nothing else has changed. -/
theorem damaged_bus_changes_memory_only :
    let start : Machine PinLog Empty := left (assemble .default ⟨[]⟩ #[]).configure
    let m := start.run [.memory (.setGateA20 true), .setTrap true, .setIrq 1 true]
    let damaged := (packed Memory.badFlushSnapshot .new .default).encode
    ∃ e m', m.restore damaged = .error e m' ∧ m.memory.gateA20 = true ∧ m'.memory.gateA20 = false ∧
      m' = m.setMemory m'.memory := by
  intro start m damaged
  have hstage : stage damaged = .ok ⟨Memory.badFlushSnapshot, .new, some Dispatcher.default.save⟩ :=
    stage_packed Controller.fit_new (by decide) .default
  have hmemory := Memory.load_badFlushSnapshot m.memory
  have hrejected : ∃ memory, m.restore damaged = .error (.snapshot (.invalidField .bool))
      (m.setMemory memory) ∧ memory.gateA20 = false := by
    unfold restore load
    rw [hstage]
    dsimp only
    rw [hmemory]
    exact ⟨_, rfl, PageIndex.gateA20_ofEntries _ _ _⟩
  obtain ⟨memory, hrestore, hgate⟩ := hrejected
  refine ⟨_, _, hrestore, rfl, hgate, ?_⟩
  exact (rejected_restore_changes_memory_only m damaged).1 _ _ hrestore

end Machine
end Mainboard
