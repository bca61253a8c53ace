import Mainboard.Proofs.Machine.Traffic

/-!
# Acts

The board sees what a processor does to the bus in a block, but not in what state the processor is
when it does it: a block has a state at its beginning and one at its end. An account of a processor
adds the state at each transaction in between. With it, the transactions of a run of a machine
become acts, each with the state of the processor at the time.
-/
namespace Mainboard

variable {σ δ : Type}

structure Act (σ : Type) where
  cpu : σ
  transaction : Transaction
  deriving DecidableEq

namespace Act

def transactions (acts : List (Act σ)) : List Transaction := acts.map transaction

def during (cpu : σ) (ts : List Transaction) : List (Act σ) := ts.map fun t => ⟨cpu, t⟩

@[simp] theorem transactions_nil : transactions ([] : List (Act σ)) = [] := rfl

@[simp] theorem transactions_cons (act : Act σ) (acts : List (Act σ)) :
    transactions (act :: acts) = act.transaction :: transactions acts := rfl

@[simp] theorem transactions_append (acts acts' : List (Act σ)) :
    transactions (acts ++ acts') = transactions acts ++ transactions acts' := List.map_append

@[simp] theorem transactions_during (cpu : σ) (ts : List Transaction) :
    transactions (during cpu ts) = ts := by
  simp [transactions, during, Function.comp_def]

end Act

open Act

/-! ## Blocks -/

inductive Enactment (σ : Type)
  | finish (cpu : σ) (outcome : Except ProcessorExit UInt32)
  | observe (next : Memory → Enactment σ)
  | transact (cpu : σ) (t : Transaction) (next : Enactment σ)
  | armTrap (next : Enactment σ)

namespace Enactment

def program : Enactment σ → BlockProgram σ
  | .finish cpu outcome => .finish cpu outcome
  | .observe next => .observe fun m => (next m).program
  | .transact _ t next => .transact t next.program
  | .armTrap next => .armTrap next.program

def acts : Enactment σ → Memory → List (Act σ)
  | .finish _ _, _ => []
  | .observe next, m => (next m).acts m
  | .transact cpu t next, m => ⟨cpu, t⟩ :: next.acts (m.step t)
  | .armTrap next, m => next.acts m

theorem transactions_acts (e : Enactment σ) (m : Memory) :
    transactions (e.acts m) = e.program.traffic m := by
  induction e generalizing m with
  | finish cpu outcome => rfl
  | observe next ih => exact ih m m
  | transact cpu t next ih => exact congrArg (t :: ·) (ih (m.step t))
  | armTrap next ih => exact ih m

end Enactment

def BlockProgram.enactIn (cpu : σ) : BlockProgram σ → Enactment σ
  | .finish last outcome => .finish last outcome
  | .observe next => .observe fun m => (next m).enactIn cpu
  | .transact t next => .transact cpu t (next.enactIn cpu)
  | .armTrap next => .armTrap (next.enactIn cpu)

theorem BlockProgram.program_enactIn (cpu : σ) (program : BlockProgram σ) :
    (program.enactIn cpu).program = program := by
  induction program with
  | finish last outcome => rfl
  | observe next ih => exact congrArg BlockProgram.observe (funext ih)
  | transact t next ih => exact congrArg (BlockProgram.transact t) ih
  | armTrap next ih => exact congrArg BlockProgram.armTrap ih

/-- The states that a processor goes through in its blocks. -/
structure Account (σ : Type) [Processor σ] where
  enact : σ → Mode → UInt32 → Enactment σ
  program_enact : ∀ cpu mode addr, (enact cpu mode addr).program =
    Processor.executeBlock cpu mode addr

variable [Processor σ]

/-- The account of a processor that changes only at the end of a block. -/
def Account.steady : Account σ where
  enact cpu mode addr := (Processor.executeBlock cpu mode addr).enactIn cpu
  program_enact cpu mode addr := (Processor.executeBlock cpu mode addr).program_enactIn cpu

/-! ## Slices -/

namespace Core

variable (account : Account σ)

def blockActs (c : Core σ) (mode : Mode) : List (Act σ) :=
  match c.translate (.ofMode mode) (Processor.instructionPointer c.cpu) with
  | (.error _, _) => []
  | (.ok addr, c) =>
    match c.memory.fetch addr with
    | .error _ => []
    | .ok _ => (account.enact c.cpu mode addr).acts c.memory

theorem transactions_blockActs (c : Core σ) (mode : Mode) :
    transactions (c.blockActs account mode) = c.blockTraffic mode := by
  unfold blockActs blockTraffic
  obtain ⟨result, d⟩ := c.translate (.ofMode mode) (Processor.instructionPointer c.cpu)
  cases result with
  | error e => rfl
  | ok addr =>
    dsimp only
    cases d.memory.fetch addr with
    | error e => rfl
    | ok _ =>
      dsimp only
      rw [Enactment.transactions_acts, account.program_enact]

def blocksActs (c : Core σ) (mode : Mode) : Nat → List (Act σ)
  | 0 => []
  | n + 1 => c.blockActs account mode ++
    match (c.runBlock mode).2 with
    | (some _, _) => []
    | (none, c) => c.blocksActs mode n

theorem transactions_blocksActs (c : Core σ) (mode : Mode) (n : Nat) :
    transactions (c.blocksActs account mode n) = c.blocksTraffic mode n := by
  induction n generalizing c with
  | zero => rfl
  | succ n ih =>
    unfold blocksActs blocksTraffic
    rw [transactions_append, transactions_blockActs]
    obtain ⟨count, exit, d⟩ := c.runBlock mode
    cases exit with
    | some exit => rfl
    | none => exact congrArg _ (ih d)

def sliceActs (c : Core σ) : List (Act σ) :=
  let paging := Processor.isPaging c.cpu
  ⟨c.cpu, .setPagingActive paging⟩ :: blocksActs account
    { c with memory := c.memory.setPagingActive paging } (Processor.mode c.cpu)
      c.dispatcher.maxBlocks.toNat

theorem transactions_sliceActs (c : Core σ) : transactions (c.sliceActs account) = c.sliceTraffic :=
  congrArg (List.cons _) (transactions_blocksActs account _ _ _)

end Core

/-! ## All operations -/

namespace Machine

variable [PortDevice δ] (account : Account σ)

def resetActs (m : Machine σ δ) : List (Act σ) :=
  ⟨m.core.cpu, .reset⟩ :: during (Processor.reset m.core.cpu) m.resetParts.configTraffic

theorem transactions_resetActs (m : Machine σ δ) : transactions m.resetActs = m.resetTraffic :=
  congrArg (List.cons _) (transactions_during _ _)

def sliceActs (m : Machine σ δ) : List (Act σ) :=
  m.core.sliceActs account ++
    if m.core.runSlice.1.exit = .tripleFault then
      { m with core := m.core.runSlice.2 }.resetActs else []

theorem transactions_sliceActs (m : Machine σ δ) :
    transactions (m.sliceActs account) = m.sliceTraffic := by
  unfold sliceActs sliceTraffic
  rw [transactions_append, Core.transactions_sliceActs]
  split_ifs
  · rw [transactions_resetActs]
  · rfl

def acts (m : Machine σ δ) : Operation σ δ → List (Act σ)
  | .reset => m.resetActs
  | .executeSlice => m.sliceActs account
  | .execute => m.sliceActs account
  | op => during m.core.cpu (m.traffic op)

theorem transactions_acts (m : Machine σ δ) (op : Operation σ δ) :
    transactions (m.acts account op) = m.traffic op := by
  cases op with
  | reset => exact m.transactions_resetActs
  | executeSlice | execute => exact m.transactions_sliceActs account
  | _ => exact transactions_during _ _

def runActs (m : Machine σ δ) : List (Operation σ δ) → List (Act σ)
  | [] => []
  | op :: ops => m.acts account op ++ (m.step op).runActs ops

theorem transactions_runActs (m : Machine σ δ) (ops : List (Operation σ δ)) :
    transactions (m.runActs account ops) = m.runTraffic ops := by
  induction ops generalizing m with
  | nil => rfl
  | cons op ops ih => rw [runActs, runTraffic, transactions_append, transactions_acts, ih]

end Machine
end Mainboard
