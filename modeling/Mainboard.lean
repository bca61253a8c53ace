import Mainboard.Machine.Snapshot
import Mainboard.Memory.Summary
import Mainboard.Signal
import Mainboard.Proofs.Memory.Coherence
import Mainboard.Proofs.Memory.Stability
import Mainboard.Proofs.Memory.Gate
import Mainboard.Proofs.Memory.Arena
import Mainboard.Proofs.Memory.ArenaRuns
import Mainboard.Proofs.Memory.Backing
import Mainboard.Proofs.Memory.OwnBlocks
import Mainboard.Proofs.Memory.Cells
import Mainboard.Proofs.Memory.WordAccess
import Mainboard.Proofs.Memory.BulkCopy
import Mainboard.Proofs.Memory.ReadBack
import Mainboard.Proofs.Memory.QuickPart
import Mainboard.Proofs.Memory.RestoreFailure
import Mainboard.Interrupt.Operation
import Mainboard.Proofs.Interrupt.Priority
import Mainboard.Proofs.Interrupt.Cascade
import Mainboard.Proofs.Interrupt.Raise
import Mainboard.Proofs.Interrupt.Latches
import Mainboard.Proofs.Interrupt.Edges
import Mainboard.Proofs.Interrupt.Drain
import Mainboard.Proofs.Interrupt.Nesting
import Mainboard.Proofs.Interrupt.Relay
import Mainboard.Proofs.Snapshot.Codec
import Mainboard.Proofs.Snapshot.Container
import Mainboard.Proofs.Snapshot.Grammar
import Mainboard.Proofs.Snapshot.RoundTrip
import Mainboard.Proofs.Snapshot.Payload
import Mainboard.Proofs.Memory.Layout
import Mainboard.Proofs.Memory.Restorable
import Mainboard.Proofs.Memory.SavedLength
import Mainboard.Proofs.Memory.SnapshotRoundTrip
import Mainboard.Proofs.Execution.Morphism
import Mainboard.Proofs.Execution.Recording
import Mainboard.Proofs.Execution.Cadence
import Mainboard.Proofs.Execution.Forwarding
import Mainboard.Proofs.Memory.PageMap
import Mainboard.Machine.Operation
import Mainboard.Proofs.Memory.MappedCount
import Mainboard.Proofs.Memory.Accounts
import Mainboard.Proofs.Memory.Canonical
import Mainboard.Proofs.Interrupt.SavedPair
import Mainboard.Proofs.Interrupt.Fidelity
import Mainboard.Proofs.Machine.Traffic
import Mainboard.Proofs.Machine.Pair
import Mainboard.Proofs.Machine.SnapshotRoundTrip
import Mainboard.Proofs.Machine.RejectedRestore
import Mainboard.Proofs.Memory.SystemBios
import Mainboard.Proofs.Memory.Rejection
import Mainboard.Proofs.Machine.Setup
import Mainboard.Proofs.Machine.Reset
import Mainboard.Proofs.Execution.Reports
import Mainboard.Proofs.Execution.SharedTrap
import Mainboard.Proofs.Machine.Flags
import Mainboard.Proofs.Machine.Compatibility
import Mainboard.Proofs.Machine.EmptyLatches
import Mainboard.Proofs.Memory.Replacement
import Mainboard.Proofs.Memory.Promotion
import Mainboard.Proofs.Memory.RomStability
import Mainboard.Proofs.Memory.Pieces
import Mainboard.Proofs.Memory.CodeNotices
import Mainboard.Proofs.Memory.Invalidation
import Mainboard.Proofs.Memory.Tidy
import Mainboard.Proofs.Memory.Clearing
import Mainboard.Proofs.Interrupt.Peek
import Mainboard.Proofs.Interrupt.RoundRobin
import Mainboard.Proofs.Machine.SavedLength
import Mainboard.Proofs.History
import Mainboard.Proofs.Memory.Aside
import Mainboard.Proofs.Memory.LazyPage
import Mainboard.Proofs.Fault.Escalation
import Mainboard.Proofs.Port.WideAccess
import Mainboard.Proofs.Machine.Acts
import Mainboard.Proofs.Machine.GateSwitch
import Mainboard.Proofs.Interrupt.ByteSearch
import Mainboard.Proofs.Memory.Region
