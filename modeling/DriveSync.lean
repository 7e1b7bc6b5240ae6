import DriveSync.Plan.Held
import DriveSync.Plan.Kept
import DriveSync.Plan.Pairing
import DriveSync.Plan.Renames
import DriveSync.Plan.Coverage
import DriveSync.Plan.Digests
import DriveSync.Plan.Emptied
import DriveSync.Status.Paging
import DriveSync.Status.Passes
import DriveSync.Status.Rollup
import DriveSync.Lib.Proc
import DriveSync.Lib.Latest
import DriveSync.Lib.Records
import DriveSync.Lib.Recent
import DriveSync.Logs.Repair
import DriveSync.Logs.Feed
import DriveSync.Logs.Tail
import DriveSync.Logs.Validate
import DriveSync.Logs.ApiLog
import DriveSync.Audit.Terminal
import DriveSync.Plan.Ticket
import DriveSync.Autosave.Strand
import DriveSync.Session.Calm
import DriveSync.Sync.Whole
import DriveSync.Sync.Account
import DriveSync.Sync.Folders
import DriveSync.Sync.Throttle
import DriveSync.Walk.Listing
import DriveSync.Walk.Walk
import DriveSync.Walk.Visits
import DriveSync.Sync.Snapshot
import DriveSync.Sync.Presence
import DriveSync.Plan.Refused
import DriveSync.Walk.Collisions
import DriveSync.Sync.Comma
import DriveSync.Watch.Batches
import DriveSync.Plan.Copies
import DriveSync.Status.Stored
import DriveSync.Sync.Reconcile
import DriveSync.Sync.Phases
import DriveSync.Sync.Verdict
import DriveSync.Sync.Deletions
import DriveSync.Sync.Recount
import DriveSync.Sync.Misspelled
import DriveSync.Sync.Related
import DriveSync.Transfer.Settled
import DriveSync.Scan.Scanned
import DriveSync.Walk.Sealed
import DriveSync.Sync.Requests
import DriveSync.Run.Settled
import DriveSync.Batch.Profiles
