import Mainboard.Machine.Operation
import Mainboard.Proofs.Memory.PageMap

/-!
# What a machine does to its bus

Every operation of a machine is a series of transactions as far as its bus is concerned: those of
the blocks that the processor runs, those of a reset and of the configuration, a restore, or what
the owner does to the bus in between. So what is known of runs of a bus holds of the bus in a
machine.
-/
namespace Mainboard

variable {σ δ : Type}

def BlockProgram.traffic : BlockProgram σ → Memory → List Transaction
  | .finish _ _, _ => []
  | .observe next, m => (next m).traffic m
  | .transact t next, m => t :: next.traffic (m.step t)
  | .armTrap next, m => next.traffic m

/-! ## Slices -/

namespace Core

theorem memory_runProgram (c : Core σ) (program : BlockProgram σ) :
    (c.runProgram program).2.memory = c.memory.run (program.traffic c.memory) := by
  induction program generalizing c with
  | finish cpu outcome => rfl
  | observe next ih => exact ih c.memory c
  | transact t next ih => exact ih { c with memory := c.memory.step t }
  | armTrap next ih => exact ih { c with dispatcher := c.dispatcher.arm }

theorem memory_runDelivery (c : Core σ) (delivery : Delivery σ) :
    (c.runDelivery delivery).memory = c.memory := by
  induction delivery generalizing c with
  | done cpu => rfl
  | acknowledge next ih => exact ih _ { c with controller := c.controller.acknowledge.2 }
  | armTrap next ih => exact ih { c with dispatcher := c.dispatcher.arm }

theorem memory_takeTrap (c : Core σ) : c.takeTrap.2.memory = c.memory := by
  unfold takeTrap
  split_ifs <;> rfl

variable [Processor σ]

theorem memory_translate (c : Core σ) (space : Space) (addr : UInt32) :
    (c.translate space addr).2.memory = c.memory := by
  unfold translate
  split_ifs <;> rfl

theorem memory_countRetired (c : Core σ) (mode : Mode) (count : UInt32) :
    (c.countRetired mode count).memory = c.memory := by
  unfold countRetired
  dsimp only
  split_ifs
  · exact memory_runDelivery c _
  · rfl

theorem memory_leave (c : Core σ) (mode : Mode) (reason : ProcessorExit) :
    (c.leave mode reason).2.memory = c.memory := by
  cases reason with
  | fault fault =>
    change (c.deliver mode fault).2.memory = c.memory
    unfold deliver
    dsimp only
    split <;> rfl
  | _ => rfl

def blockTraffic (c : Core σ) (mode : Mode) : List Transaction :=
  match c.translate (.ofMode mode) (Processor.instructionPointer c.cpu) with
  | (.error _, _) => []
  | (.ok addr, c) =>
    match c.memory.fetch addr with
    | .error _ => []
    | .ok _ => (Processor.executeBlock c.cpu mode addr).traffic c.memory

theorem memory_executeInMode (c : Core σ) (mode : Mode) :
    (c.executeInMode (.ofMode mode) mode).2.memory = c.memory.run (c.blockTraffic mode) := by
  have htranslate := c.memory_translate (.ofMode mode) (Processor.instructionPointer c.cpu)
  unfold executeInMode blockTraffic
  generalize c.translate (.ofMode mode) (Processor.instructionPointer c.cpu) = translated
    at htranslate ⊢
  obtain ⟨result, d⟩ := translated
  rw [← htranslate]
  cases result with
  | error e => rfl
  | ok addr =>
    dsimp only
    cases d.memory.fetch addr with
    | error e => rfl
    | ok _ => exact d.memory_runProgram _

theorem memory_runBlock (c : Core σ) (mode : Mode) :
    (c.runBlock mode).2.2.memory = c.memory.run (c.blockTraffic mode) := by
  have hmode := c.memory_executeInMode mode
  unfold runBlock
  rw [← hmode]
  obtain ⟨result, d⟩ := c.executeInMode (.ofMode mode) mode
  cases result with
  | ok count => exact (memory_takeTrap _).trans (d.memory_countRetired mode count)
  | error reason => exact d.memory_leave mode reason

def blocksTraffic (c : Core σ) (mode : Mode) : Nat → List Transaction
  | 0 => []
  | n + 1 => c.blockTraffic mode ++
    match (c.runBlock mode).2 with
    | (some _, _) => []
    | (none, c) => c.blocksTraffic mode n

theorem memory_runBlocks (c : Core σ) (mode : Mode) (executed : UInt32) (n : Nat) :
    (c.runBlocks mode executed n).2.memory = c.memory.run (c.blocksTraffic mode n) := by
  induction n generalizing c executed with
  | zero => rfl
  | succ n ih =>
    have hblock := c.memory_runBlock mode
    unfold runBlocks blocksTraffic
    rw [Memory.run_append, ← hblock]
    obtain ⟨count, exit, d⟩ := c.runBlock mode
    cases exit with
    | some exit => rfl
    | none => exact ih d _

def sliceTraffic (c : Core σ) : List Transaction :=
  let paging := Processor.isPaging c.cpu
  .setPagingActive paging :: blocksTraffic { c with memory := c.memory.setPagingActive paging }
    (Processor.mode c.cpu) c.dispatcher.maxBlocks.toNat

theorem memory_runSlice (c : Core σ) : c.runSlice.2.memory = c.memory.run c.sliceTraffic :=
  memory_runBlocks { c with memory := c.memory.setPagingActive (Processor.isPaging c.cpu) } _ _ _

end Core

/-! ## Configuration, restores and resets -/

theorem Config.ramPages_aligned (config : Config) {addr : UInt32} (h : addr ∈ config.ramPages) :
    addr.toNat % 4096 = 0 := by
  have hpages : ∀ start stop, start % 4096 = 0 → addr ∈ pageAddresses start stop →
      addr.toNat % 4096 = 0 := by
    intro start stop hstart hmem
    obtain ⟨i, -, rfl⟩ := List.mem_map.mp hmem
    rw [UInt32.toNat_ofNat', blockSize]
    omega
  unfold ramPages at h
  split_ifs at h
  · rcases List.mem_append.mp h with h | h
    · exact hpages _ _ rfl h
    · exact hpages _ _ rfl h
  · cases h

def Config.ramTraffic (config : Config) : List Transaction :=
  config.ramPages.map fun addr => .allocate addr .freshRam

/-- What is done to the bus of a new machine is to install RAM and to set the gate. -/
theorem Config.cases_startTraffic (config : Config) {gate : Bool} {t : Transaction}
    (h : t ∈ config.ramTraffic ++ [.setGateA20 gate]) :
    (∃ addr, t = .allocate addr .freshRam) ∨ t = .setGateA20 gate := by
  rcases List.mem_append.mp h with h | h
  · obtain ⟨addr, -, rfl⟩ := List.mem_map.mp h
    exact Or.inl ⟨addr, rfl⟩
  · exact Or.inr (List.mem_singleton.mp h)

theorem Memory.allocateAll_ramPages (m : Memory) (config : Config) :
    m.allocateAll (config.ramPages.map fun addr => (addr, .freshRam)) =
      .ok () (m.run config.ramTraffic) := by
  have hplaces : ∀ e ∈ config.ramPages.map fun addr => (addr, Block.freshRam),
      e.1.toNat % 4096 = 0 ∧ e.2.size = blockSize := by
    intro e he
    obtain ⟨addr, haddr, rfl⟩ := List.mem_map.mp he
    exact ⟨config.ramPages_aligned haddr, List.length_replicate⟩
  rw [m.allocateAll_eq_ok hplaces, List.map_map]
  rfl

namespace Machine

def configTraffic (m : Machine σ δ) : List Transaction :=
  m.config.ramTraffic ++
    match m.bios with
    | none => [.setGateA20 m.config.a20AtReset]
    | some image => .loadSystemBios image ::
      match (m.memory.run m.config.ramTraffic).loadSystemBios image with
      | .ok _ _ => [.setGateA20 m.config.a20AtReset]
      | .error _ _ => []

/-- A machine hands its bus to a restore once the other parts have been read. -/
def loadTraffic (input : Bytes) : List Transaction :=
  match stage input with
  | .error _ => []
  | .ok staged => [.load staged.memory]

theorem memory_load (m : Machine σ δ) (input : Bytes) :
    (left (m.load input)).memory = m.memory.run (loadTraffic input) := by
  unfold load loadTraffic
  cases stage input with
  | error e => rfl
  | ok staged =>
    change _ = Memory.left (m.memory.load staged.memory)
    dsimp only
    cases m.memory.load staged.memory with
    | error e memory => rfl
    | ok u memory =>
      dsimp only
      cases staged.dispatcher with
      | none => rfl
      | some saved =>
        dsimp only
        split <;> rfl

variable [Processor σ]

theorem memory_configure (m : Machine σ δ) :
    (left m.configure).memory = m.memory.run m.configTraffic := by
  unfold configure updateMemory installMemory configTraffic
  rw [Memory.allocateAll_ramPages, Memory.run_append]
  dsimp only
  cases m.bios with
  | none => rfl
  | some image =>
    dsimp only
    rw [Memory.run_cons]
    change _ = (Memory.left ((m.memory.run m.config.ramTraffic).loadSystemBios image)).run _
    cases (m.memory.run m.config.ramTraffic).loadSystemBios image <;> rfl

theorem new_eq_ok_iff {config : Config} {cpu : σ} {regions : Array Region} {m : Machine σ δ} :
    new config cpu regions = .ok m ↔
      config.error? = none ∧ left (assemble config cpu regions).configure = m := by
  have hconfigure : ∃ m : Machine σ δ, (assemble config cpu regions).configure = .ok () m := by
    unfold configure updateMemory installMemory
    rw [Memory.allocateAll_ramPages]
    exact ⟨_, rfl⟩
  obtain ⟨configured, hm⟩ := hconfigure
  unfold new
  cases config.error? with
  | some e => exact iff_of_false nofun nofun
  | none =>
    rw [hm]
    simp [left]

theorem memory_new {config : Config} {cpu : σ} {regions : Array Region} {m : Machine σ δ}
    (h : new config cpu regions = .ok m) : m.memory = (Memory.new config.ramSize regions).run
      (config.ramTraffic ++ [.setGateA20 config.a20AtReset]) := by
  rw [← (new_eq_ok_iff.mp h).2]
  exact memory_configure _

theorem memory_restore (m : Machine σ δ) (input : Bytes) :
    (left (m.restore input)).memory = m.memory.run (loadTraffic input) := by
  rw [← memory_load]
  unfold restore
  cases m.load input <;> rfl

variable [PortDevice δ]

def resetTraffic (m : Machine σ δ) : List Transaction := .reset :: m.resetParts.configTraffic

theorem memory_reset (m : Machine σ δ) : (left m.reset).memory = m.memory.run m.resetTraffic :=
  memory_configure m.resetParts

/-! ## All operations -/

def sliceTraffic (m : Machine σ δ) : List Transaction :=
  m.core.sliceTraffic ++
    if m.core.runSlice.1.exit = .tripleFault then { m with core := m.core.runSlice.2 }.resetTraffic
    else []

theorem left_executeSlice (m : Machine σ δ) : left m.executeSlice =
    if m.core.runSlice.1.exit = .tripleFault then left (reset { m with core := m.core.runSlice.2 })
    else { m with core := m.core.runSlice.2 } := by
  unfold executeSlice
  dsimp only
  split_ifs
  · cases reset { m with core := m.core.runSlice.2 } <;> rfl
  · rfl

theorem memory_executeSlice (m : Machine σ δ) :
    (left m.executeSlice).memory = m.memory.run m.sliceTraffic := by
  have hslice : m.core.runSlice.2.memory = m.memory.run m.core.sliceTraffic :=
    m.core.memory_runSlice
  unfold sliceTraffic
  rw [left_executeSlice, Memory.run_append, ← hslice]
  split_ifs
  · exact memory_reset { m with core := m.core.runSlice.2 }
  · rfl

theorem left_execute (m : Machine σ δ) : left m.execute = left m.executeSlice := by
  unfold execute
  cases m.executeSlice with
  | error e m => rfl
  | ok slice m =>
    dsimp only
    split <;> rfl

def traffic (m : Machine σ δ) : Operation σ δ → List Transaction
  | .setSystemBios image => [.loadSystemBios image]
  | .reset => m.resetTraffic
  | .executeSlice => m.sliceTraffic
  | .execute => m.sliceTraffic
  | .load input => loadTraffic input
  | .restore input => loadTraffic input
  | .memory t => [t]
  | _ => []

theorem memory_step (m : Machine σ δ) (op : Operation σ δ) :
    (m.step op).memory = m.memory.run (m.traffic op) := by
  cases op with
  | setSystemBios image =>
    change (left (m.setSystemBios image)).memory = Memory.left (m.memory.loadSystemBios image)
    unfold setSystemBios updateMemory
    dsimp only
    cases m.memory.loadSystemBios image <;> rfl
  | reset => exact m.memory_reset
  | executeSlice => exact m.memory_executeSlice
  | execute => exact (congrArg memory m.left_execute).trans m.memory_executeSlice
  | load input => exact m.memory_load input
  | restore input => exact m.memory_restore input
  | _ => rfl

def runTraffic (m : Machine σ δ) : List (Operation σ δ) → List Transaction
  | [] => []
  | op :: ops => m.traffic op ++ (m.step op).runTraffic ops

/-- The bus in a machine has seen a run of transactions, whatever was done to the machine. -/
theorem memory_run (m : Machine σ δ) (ops : List (Operation σ δ)) :
    (m.run ops).memory = m.memory.run (m.runTraffic ops) := by
  induction ops generalizing m with
  | nil => rfl
  | cons op ops ih => rw [run_cons, ih, memory_step, runTraffic, Memory.run_append]

end Machine
end Mainboard
