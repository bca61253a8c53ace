import Mainboard.Proofs.Execution.Forwarding
import Mainboard.Proofs.Machine.Flags
import Mainboard.Proofs.Machine.Pair
import Mainboard.Proofs.Machine.RejectedRestore

/-!
# Nothing is left in the latches

What the pair requests of the INTR pin waits in two latches until the machine forwards it. The
operations that reach the pair forward before they return. A slice forwards only when it has offered
interrupts, and these offers are the only times when it touches the pair, so it does not matter how
a slice ends. A reset that fails on the way has at least reset the pair, and a rejected restore has
not touched it. So between the operations of a machine nothing waits, as long as the owner does not
reach around the machine. What the pair requests in an access has then reached the pin.
-/
namespace Mainboard

variable {σ δ : Type}

def Controller.LatchesEmpty (c : Controller) : Prop := c.intrRaise = false ∧ c.intrClear = false

theorem Core.latchesEmpty_forwardIntr [Processor σ] (c : Core σ) :
    c.forwardIntr.controller.LatchesEmpty :=
  ⟨rfl, rfl⟩

namespace Machine

/-- Whether an operation leaves the INTR pin to the machine. A restore of the parts alone takes over
the saved latches, and an access through the owner's handle of the pair fills them. -/
def Operation.forwards : Operation σ δ → Bool
  | .load _ => false
  | .controller _ => false
  | _ => true

variable [Processor σ] {m : Machine σ δ}

theorem latchesEmpty_configure (h : m.controller.LatchesEmpty) :
    (left m.configure).controller.LatchesEmpty := by
  unfold configure updateMemory
  dsimp only
  cases installMemory m.config m.bios m.memory with
  | error e memory => exact h
  | ok u memory => exact Core.latchesEmpty_forwardIntr _

theorem latchesEmpty_new {config : Config} {cpu : σ} {regions : Array Region}
    (hnew : new config cpu regions = .ok m) : m.controller.LatchesEmpty := by
  have hstart : (assemble config cpu regions : Machine σ δ).controller.LatchesEmpty := ⟨rfl, rfl⟩
  rw [← (new_eq_ok_iff.mp hnew).2]
  exact latchesEmpty_configure hstart

theorem latchesEmpty_restore (h : m.controller.LatchesEmpty) (input : Bytes) :
    (left (m.restore input)).controller.LatchesEmpty := by
  rcases m.restore_cases input with
    ⟨_, -, hrestore⟩ | ⟨_, _, _, -, -, hrestore⟩ | ⟨_, _, _, -, -, hrestore⟩
  · rw [hrestore]
    exact h
  · rw [hrestore]
    exact h
  · rw [hrestore]
    exact ⟨rfl, rfl⟩

variable [PortDevice δ]

/-- A reset starts with the pair, so the latches are empty however far it gets. -/
theorem latchesEmpty_reset (m : Machine σ δ) : (left m.reset).controller.LatchesEmpty := by
  have hpair : m.resetParts.controller = .new := m.ports.reset_new
  apply latchesEmpty_configure
  rw [hpair]
  exact ⟨rfl, rfl⟩

theorem latchesEmpty_executeSlice (h : m.controller.LatchesEmpty) :
    (left m.executeSlice).controller.LatchesEmpty := by
  have hoffer : Core.OfferKeeps σ Controller.LatchesEmpty :=
    fun _ _ _ => Core.latchesEmpty_forwardIntr _
  rw [left_executeSlice]
  split_ifs
  · exact latchesEmpty_reset { m with core := m.core.runSlice.2 }
  · exact hoffer.runSlice h

theorem latchesEmpty_step (h : m.controller.LatchesEmpty) {op : Operation σ δ}
    (hop : op.forwards = true) :
    (m.step op).controller.LatchesEmpty := by
  cases op with
  | setSystemBios image =>
    have hsame : (m.step (.setSystemBios image)).controller = m.controller :=
      m.controller_setSystemBios image
    rwa [hsame]
  | reset => exact latchesEmpty_reset m
  | executeSlice => exact latchesEmpty_executeSlice h
  | execute =>
    change (left m.execute).controller.LatchesEmpty
    rw [left_execute]
    exact latchesEmpty_executeSlice h
  | setIrq line level => exact Core.latchesEmpty_forwardIntr _
  | acknowledge => exact Core.latchesEmpty_forwardIntr _
  | readPort port size => exact Core.latchesEmpty_forwardIntr _
  | writePort port size value => exact Core.latchesEmpty_forwardIntr _
  | restore input => exact latchesEmpty_restore h input
  | load input => cases hop
  | controller op => cases hop
  | _ => exact h

theorem latchesEmpty_run (h : m.controller.LatchesEmpty) {ops : List (Operation σ δ)}
    (hops : ∀ op ∈ ops, op.forwards = true) : (m.run ops).controller.LatchesEmpty := by
  induction ops generalizing m with
  | nil => exact h
  | cons op ops ih =>
    obtain ⟨hop, hops⟩ := List.forall_mem_cons.mp hops
    exact ih (latchesEmpty_step h hop) hops

/-- The pair as an access leaves it before what it requests is forwarded, for operations that are a
single access. -/
def accessed? (m : Machine σ δ) : Operation σ δ → Option Controller
  | .setIrq line level => some (m.controller.setIrq line level)
  | .acknowledge => some m.controller.acknowledge.2
  | .readPort port size => some (m.ports.read m.controller port size).2.2
  | .writePort port size value => some (m.ports.write m.controller port size value).2
  | _ => none

/-- A request to raise the pin counts, also over a request to clear it; without either the pin
stays. -/
theorem level_accessed {level : σ → Bool} (hlevel : Processor.ShowsPin level) {op : Operation σ δ}
    {c : Controller} (haccess : m.accessed? op = some c) :
    level (m.step op).core.cpu = (c.intrRaise || (level m.core.cpu && !c.intrClear)) := by
  cases op with
  | setIrq line level =>
    cases haccess
    exact Core.level_forwardIntr hlevel _
  | acknowledge =>
    cases haccess
    exact Core.level_forwardIntr hlevel _
  | readPort port size =>
    cases haccess
    exact Core.level_forwardIntr hlevel _
  | writePort port size value =>
    cases haccess
    exact Core.level_forwardIntr hlevel _
  | _ => cases haccess

/-- Whatever the processor of a machine, the latches of the pair are empty after it has been made
and after every operation since, successful or not, if none of them has reached around the machine.
They have not been emptied for nothing: an access from there takes the pin of the processor to the
level that the access asks for. -/
theorem no_request_left_behind {config : Config} {cpu : σ} {regions : Array Region}
    {m₀ : Machine σ δ}
    (hnew : new config cpu regions = .ok m₀) {ops : List (Operation σ δ)}
    (hops : ∀ op ∈ ops, op.forwards = true) :
    let m := m₀.run ops
    (m.controller.intrRaise = false ∧ m.controller.intrClear = false) ∧
      ∀ level : σ → Bool, Processor.ShowsPin level → ∀ op c, m.accessed? op = some c →
        level (m.step op).core.cpu = (c.intrRaise || (level m.core.cpu && !c.intrClear)) :=
  ⟨latchesEmpty_run (latchesEmpty_new hnew) hops,
    fun _ hlevel _ _ haccess => level_accessed hlevel haccess⟩

/-- With interrupts offered after a hundred instructions only: a slice that ends before, with a
request that is pending; a rejected restore; and a slice that ends with a triple fault and a reset.
Another processor never retires an instruction. After a slice of it a request reaches its pin. -/
theorem latches_empty_after_triple_fault :
    let config := { Config.default with ramSize := 0x1000, cadence := 100, maxBlocks := 2 }
    let cpu : Scripted := ⟨[.ok 3, .error .modeSwitch, .ok 1, .error (.fault .undefined)]⟩
    let start : Machine Scripted Empty := left (assemble config cpu #[]).configure
    let ops := [.setIrq 1 true, .executeSlice, .restore [1, 2, 3], .acknowledge, .setIrq 1 false,
      .writePort Register.masterCommand 1 0x20, .setIrq 0 true, .executeSlice]
    let idle : Machine PinLog Empty := left (assemble config ⟨[]⟩ #[]).configure
    let level : PinLog → Bool := fun cpu => cpu.levels.headD false
    (start.run ops).core.dispatcher.tripleFaulted = true ∧
      (start.run ops).controller.intrRaise = false ∧ (start.run ops).controller.intrClear = false ∧
      (idle.run [.executeSlice]).controller.intrClear = false ∧
        level (idle.run [.executeSlice]).core.cpu = false ∧
      level ((idle.run [.executeSlice]).step (.setIrq 1 true)).core.cpu = true := by
  intro config cpu start ops idle level
  have hnew : new config cpu #[] = .ok start := new_eq_ok_iff.mpr ⟨by decide, rfl⟩
  have hidle : new config ⟨[]⟩ #[] = .ok idle := new_eq_ok_iff.mpr ⟨by decide, rfl⟩
  have hlevel : Processor.ShowsPin level := ⟨fun _ => rfl, fun _ => rfl⟩
  have hops : ∀ op ∈ ops, op.forwards = true := by decide
  have hslice :
      ∀ op ∈ [Operation.executeSlice], Operation.forwards (σ := PinLog) (δ := Empty) op = true := by
    decide
  obtain ⟨⟨hraise, hclear⟩, -⟩ := no_request_left_behind hnew hops
  obtain ⟨⟨-, hquiet⟩, hpin⟩ := no_request_left_behind hidle hslice
  refine ⟨by decide +kernel, hraise, hclear, hquiet, by decide +kernel, ?_⟩
  rw [hpin level hlevel (.setIrq 1 true) _ rfl]
  have hraised : ((idle.run [.executeSlice]).controller.setIrq 1 true).intrRaise = true := by
    decide +kernel
  rw [hraised, Bool.true_or]

end Machine
end Mainboard
