import DurableRuns.Engine
import DurableRuns.Main
import DurableRuns.Proofs.Json.Records
import DurableRuns.Proofs.Text.Base64
import DurableRuns.Proofs.Time.Written
import DurableRuns.Proofs.Run.Written
import DurableRuns.Proofs.Disk.Entries
import DurableRuns.Proofs.Flow.Table
import DurableRuns.Proofs.Flow.WellFormed
import DurableRuns.Proofs.Flow.RepairPlan
import DurableRuns.Proofs.Flow.Orderly
import DurableRuns.Proofs.Flow.Reached
import DurableRuns.Proofs.Flow.Intact
import DurableRuns.Proofs.Flow.Repaired
import DurableRuns.Proofs.Flow.Childless
import DurableRuns.Proofs.Flow.AppendOnly
import DurableRuns.Proofs.Flow.Numbering
import DurableRuns.Proofs.Flow.Traceable
import DurableRuns.Proofs.Flow.Remnant
import DurableRuns.Proofs.Flow.Search
import DurableRuns.Proofs.Flow.Stale
import DurableRuns.Proofs.Flow.Linear
import DurableRuns.Proofs.Flow.Refusal
import DurableRuns.Proofs.Flow.Timeless
import DurableRuns.Proofs.Disk.Places
import DurableRuns.Proofs.Run.Directory
import DurableRuns.Proofs.Run.Reopening
import DurableRuns.Proofs.Run.Logic
import DurableRuns.Proofs.Run.Tracking
import DurableRuns.Proofs.Run.Ending
import DurableRuns.Proofs.Run.SafePoints
import DurableRuns.Proofs.Run.Growing
import DurableRuns.Proofs.Run.Commands
import DurableRuns.Proofs.Run.Starting
import DurableRuns.Proofs.Run.LastSafePoint
import DurableRuns.Proofs.Run.Whole
import DurableRuns.Proofs.Recovery.Recovered
import DurableRuns.Proofs.Recovery.KillPoints
import DurableRuns.Proofs.Recovery.Decision
import DurableRuns.Proofs.Run.Refusals
import DurableRuns.Proofs.Run.Standing
import DurableRuns.Proofs.Run.Trust
import DurableRuns.Proofs.Run.Candor
import DurableRuns.Proofs.Run.HonestFlag
import DurableRuns.Proofs.Run.Memory
import DurableRuns.Proofs.Recovery.Resumption
import DurableRuns.Proofs.Recovery.Lives
import DurableRuns.Proofs.Recovery.Paused
import DurableRuns.Proofs.Run.Faults
import DurableRuns.Proofs.Run.Conduct
import DurableRuns.Proofs.Run.Told
import DurableRuns.Proofs.Run.Lifecycle
import DurableRuns.Proofs.Recovery.Leftover
import DurableRuns.Proofs.Run.Mirror
import DurableRuns.Proofs.Run.Upkeep
import DurableRuns.Proofs.Recovery.Persisted
import DurableRuns.Proofs.Run.Unhindered
import DurableRuns.Proofs.Run.Idling
import DurableRuns.Proofs.Run.Development
import DurableRuns.Proofs.Run.Alike
import DurableRuns.Proofs.Recovery.Deeds
import DurableRuns.Proofs.Recovery.Closed
import DurableRuns.Proofs.Recovery.Idle
import DurableRuns.Proofs.Recovery.Owned
import DurableRuns.Proofs.Run.WrongStep
import DurableRuns.Proofs.Recovery.Verdict
import DurableRuns.Proofs.Disk.Parts
import DurableRuns.Proofs.Disk.Tree
import DurableRuns.Proofs.Flow.Rooted
import DurableRuns.Proofs.Run.Local
import DurableRuns.Proofs.Run.Archived
import DurableRuns.Proofs.Run.FileFormats
import DurableRuns.Proofs.Recovery.Alone
import DurableRuns.Proofs.Recovery.Listing
import DurableRuns.Proofs.Recovery.Apart
import DurableRuns.Proofs.Recovery.Again
import DurableRuns.Proofs.Json.Torn
import DurableRuns.Proofs.Recovery.Torn
import DurableRuns.Proofs.Storage.DurableMap
import DurableRuns.Proofs.Recovery.StartedOver
import DurableRuns.Proofs.Cli.Interrupted
import DurableRuns.Proofs.Cli.Marker
