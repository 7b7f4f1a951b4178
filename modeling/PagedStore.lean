import PagedStore.Lock.Manager
import PagedStore.Main
import PagedStore.Session
import PagedStore.Proofs.Cache
import PagedStore.Proofs.Catalog.Registered
import PagedStore.Proofs.File.Pages
import PagedStore.Proofs.Lock.Holders
import PagedStore.Proofs.Lock.Waits
import PagedStore.Proofs.Lock.Desk
import PagedStore.Proofs.Lock.Sleepers
import PagedStore.Proofs.Lock.Deadlock
import PagedStore.Proofs.Lock.Acyclic
import PagedStore.Proofs.Lock.Progress
import PagedStore.Proofs.Page.Slots
import PagedStore.Proofs.Row.Encoding
import PagedStore.Proofs.Engine.Changes
import PagedStore.Proofs.Engine.Completion
import PagedStore.Proofs.Engine.Rows
import PagedStore.Proofs.Engine.Records
import PagedStore.Proofs.Engine.Scans
import PagedStore.Proofs.Engine.Actions
import PagedStore.Proofs.Engine.Handling
import PagedStore.Proofs.Engine.Effects
import PagedStore.Proofs.Isolation
import PagedStore.Proofs.Engine.Bounds
import PagedStore.Proofs.Session
import PagedStore.Proofs.LiveLocks
import PagedStore.Proofs.Durability
import PagedStore.Proofs.Refinement.Store
import PagedStore.Proofs.Refinement.Images
import PagedStore.Proofs.Refinement.Scans
import PagedStore.Proofs.Refinement.Run
import PagedStore.Proofs.Scans.Sparing
import PagedStore.Proofs.Scans.Repeatable
import PagedStore.Proofs.Scans.Passing
import PagedStore.Proofs.Scans.Course
import PagedStore.Proofs.Concurrency.Stages
import PagedStore.Proofs.Concurrency.Turns
import PagedStore.Proofs.Concurrency.Accounts
import PagedStore.Proofs.Concurrency.Steps
import PagedStore.Proofs.Concurrency.Worlds
import PagedStore.Proofs.Engine.Unhindered
import PagedStore.Proofs.Concurrency.Inserts
import PagedStore.Proofs.Concurrency.Alone
import PagedStore.Proofs.Catalog.Registration
import PagedStore.Proofs.Capacity.Dirty
import PagedStore.Proofs.Capacity.Pages
import PagedStore.Proofs.Capacity.Rows
import PagedStore.Proofs.Capacity.Completion
import PagedStore.Proofs.Capacity.Databases
import PagedStore.Proofs.Capacity.Run
import PagedStore.Proofs.Catalog.Codec
import PagedStore.Proofs.File.Tree
import PagedStore.Proofs.Catalog.Reload
import PagedStore.Proofs.Catalog.Registry
import PagedStore.Proofs.Engine.Files
import PagedStore.Proofs.Reopening.Recorded
import PagedStore.Proofs.Reopening.Ledger
import PagedStore.Proofs.Reopening.Rows
import PagedStore.Proofs.Reopening.Tables
import PagedStore.Proofs.Reopening.Run
import PagedStore.Proofs.Engine.Founded
import PagedStore.Proofs.Replacement
import PagedStore.Proofs.File.Names
import PagedStore.Proofs.Provenance.Rows
import PagedStore.Proofs.Provenance.Scans
import PagedStore.Proofs.Provenance.Sessions
import PagedStore.Proofs.Provenance.Registrations
import PagedStore.Proofs.Provenance.Answers
import PagedStore.Proofs.Provenance.Run
import PagedStore.Proofs.Row.Filling
import PagedStore.Proofs.Engine.Narrow
import PagedStore.Proofs.Engine.Filling
import PagedStore.Proofs.CommandLine.Commands
import PagedStore.Proofs.CommandLine.Chronicle
import PagedStore.Proofs.CommandLine.Run
import PagedStore.Proofs.Lock.Outcome
import PagedStore.Proofs.Lock.Calls
import PagedStore.Proofs.Engine.Endings
import PagedStore.Proofs.Engine.Appending
import PagedStore.Proofs.Engine.Placement
import PagedStore.Proofs.Pool.Orderly
import PagedStore.Proofs.Pool.Steps
import PagedStore.Proofs.Pool.Uses
import PagedStore.Proofs.Pool.Calls
import PagedStore.Proofs.Pool.Run
import PagedStore.Proofs.Row.RoundTrip
import PagedStore.Proofs.TwoPhase
import PagedStore.Proofs.Engine.Failing
import PagedStore.Proofs.Engine.Anchoring
import PagedStore.Proofs.Row.Cursor
import PagedStore.Proofs.Row.Decoding
import PagedStore.Proofs.Page.Canonical
import PagedStore.Proofs.File.Writes
import PagedStore.Proofs.Lock.Search
import PagedStore.Proofs.Page.Geometry
import PagedStore.Proofs.Page.Checked
import PagedStore.Proofs.Engine.Withheld
import PagedStore.Proofs.Engine.Acceptance
import PagedStore.Proofs.Catalog.RoundTrip
