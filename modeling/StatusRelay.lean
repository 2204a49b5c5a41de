import StatusRelay.Agent
import StatusRelay.AppliedSet
import StatusRelay.AppliedWork
import StatusRelay.Bucket
import StatusRelay.Clock
import StatusRelay.Config
import StatusRelay.Directory
import StatusRelay.Duration
import StatusRelay.Error
import StatusRelay.Http
import StatusRelay.Http.Target
import StatusRelay.Hub
import StatusRelay.HubCall
import StatusRelay.HubCall.Http
import StatusRelay.Ingest
import StatusRelay.Instant
import StatusRelay.Json.Basic
import StatusRelay.Json.Decode
import StatusRelay.Json.Number
import StatusRelay.Json.Parse
import StatusRelay.Json.Render
import StatusRelay.Key
import StatusRelay.Kind
import StatusRelay.Labels
import StatusRelay.Limiter
import StatusRelay.ListWatch
import StatusRelay.Main
import StatusRelay.ManifestWork
import StatusRelay.Metadata
import StatusRelay.Object
import StatusRelay.Program
import StatusRelay.Projector
import StatusRelay.Queue
import StatusRelay.Queue.WaitingRoom
import StatusRelay.Reconciler
import StatusRelay.RecordName
import StatusRelay.Registry
import StatusRelay.Remote
import StatusRelay.Session
import StatusRelay.Signal
import StatusRelay.Table
import StatusRelay.Text.Blank
import StatusRelay.Text.Digits
import StatusRelay.Text.Quoted
import StatusRelay.Tracker
import StatusRelay.WorkStatus
import StatusRelay.Worker
import StatusRelay.Proofs.Tables
import StatusRelay.Proofs.TrackedSets
import StatusRelay.Proofs.Ownership
import StatusRelay.Proofs.Holders
import StatusRelay.Proofs.Places
import StatusRelay.Proofs.Backlog
import StatusRelay.Proofs.Relisting
import StatusRelay.Proofs.Floor
import StatusRelay.Proofs.Stages
import StatusRelay.Proofs.Hands
import StatusRelay.Proofs.Crew
import StatusRelay.Proofs.Promises
import StatusRelay.Proofs.Listing
import StatusRelay.Proofs.ReferenceCounts
import StatusRelay.Proofs.Announcements
import StatusRelay.Proofs.World
import StatusRelay.Proofs.Writes
import StatusRelay.Proofs.Traces
import StatusRelay.Proofs.Orphans
import StatusRelay.Proofs.Leftovers
import StatusRelay.Proofs.Alone
import StatusRelay.Proofs.Care
import StatusRelay.Proofs.Records
import StatusRelay.Proofs.Deployments
import StatusRelay.Proofs.Mirroring
import StatusRelay.Proofs.Convergence
import StatusRelay.Proofs.Desk
import StatusRelay.Proofs.WatchHistory
import StatusRelay.Proofs.Leaks
import StatusRelay.Proofs.Intake
import StatusRelay.Proofs.Signals
import StatusRelay.Proofs.Lobby
import StatusRelay.Proofs.Wakeups
import StatusRelay.Proofs.Rounds
import StatusRelay.Proofs.RecordNames
import StatusRelay.Proofs.Separation
import StatusRelay.Proofs.OwnRecords
import StatusRelay.Proofs.Outages
import StatusRelay.Proofs.Occasions
import StatusRelay.Proofs.Grounds
import StatusRelay.Proofs.Outlines
import StatusRelay.Proofs.Untracked
import StatusRelay.Proofs.Acts
import StatusRelay.Proofs.Shutdown
import StatusRelay.Proofs.Deeds
import StatusRelay.Proofs.Company
import StatusRelay.Proofs.Chain
import StatusRelay.Proofs.Edits
import StatusRelay.Proofs.Upkeep
import StatusRelay.Proofs.Footprint
import StatusRelay.Proofs.StatusCopies
import StatusRelay.Proofs.Retries
import StatusRelay.Proofs.Backoff
import StatusRelay.Proofs.Replacements
import StatusRelay.Proofs.Handovers
import StatusRelay.Proofs.Clients
import StatusRelay.Proofs.Patience
import StatusRelay.Proofs.Draining
import StatusRelay.Proofs.Doubling
import StatusRelay.Proofs.FailureCounts
import StatusRelay.Proofs.Traffic
import StatusRelay.Proofs.FreshVersions
import StatusRelay.Proofs.Conflicts
import StatusRelay.Proofs.NameShapes
import StatusRelay.Proofs.DnsNames
import StatusRelay.Proofs.LastWriters
import StatusRelay.Proofs.Surveys
import StatusRelay.Proofs.Numerals
import StatusRelay.Proofs.Calendar
import StatusRelay.Proofs.Timestamps
import StatusRelay.Proofs.Documents
import StatusRelay.Proofs.MetadataCodec
import StatusRelay.Proofs.RecordCodec
import StatusRelay.Proofs.Differences
import StatusRelay.Proofs.Settings
