import TaskHarbor.Library.Table
import TaskHarbor.Library.Runs
import TaskHarbor.Library.Transaction
import TaskHarbor.Library.Program
import TaskHarbor.Core.Time
import TaskHarbor.Core.Job
import TaskHarbor.Database.Schema
import TaskHarbor.Repository.Postgres
import TaskHarbor.Repository.Lifecycle
import TaskHarbor.Repository.Image
import TaskHarbor.Repository.Worker
import TaskHarbor.Repository.Maintenance
import TaskHarbor.Database.Statements
import TaskHarbor.Lifecycle.View
import TaskHarbor.Lifecycle.Transition
import TaskHarbor.Lifecycle.Course
import TaskHarbor.Lifecycle.Manifest
import TaskHarbor.Lifecycle.Permanence
import TaskHarbor.Lifecycle.Readable
import TaskHarbor.Lifecycle.Claims
import TaskHarbor.Lifecycle.Artifacts
import TaskHarbor.Lifecycle.Publication
import TaskHarbor.Lifecycle.Operations
import TaskHarbor.Lifecycle.Holders
import TaskHarbor.Library.Grid
import TaskHarbor.Schedule.Slots
import TaskHarbor.Schedule.Materialize
import TaskHarbor.Schedule.View
import TaskHarbor.System.Machine
import TaskHarbor.System.Reachable
import TaskHarbor.System.Lifecycle
import TaskHarbor.System.Fencing
import TaskHarbor.System.Manifest
import TaskHarbor.Lifecycle.Readback
import TaskHarbor.System.Cancel
import TaskHarbor.Schedule.Cursor
import TaskHarbor.Schedule.Drain
import TaskHarbor.System.Accounting
import TaskHarbor.Schedule.Taken
import TaskHarbor.System.Cursor
import TaskHarbor.Lifecycle.Births
import TaskHarbor.System.Overlap
import TaskHarbor.Lifecycle.Dates
import TaskHarbor.System.Stock
import TaskHarbor.System.Claimable
import TaskHarbor.System.Keys
import TaskHarbor.System.Idempotency
import TaskHarbor.Lifecycle.Pace
import TaskHarbor.Repository.Readers
import TaskHarbor.System.Readers
import TaskHarbor.Repository.Records
import TaskHarbor.System.Records
import TaskHarbor.System.Rollback
import TaskHarbor.Ownership.Restriction
import TaskHarbor.Ownership.Writes
import TaskHarbor.Ownership.Operations
import TaskHarbor.System.Descent
import TaskHarbor.System.Isolation
import TaskHarbor.Storage.Images
import TaskHarbor.Api.Error
import TaskHarbor.Api.Upload
import TaskHarbor.Storage.Frame
import TaskHarbor.Api.Batch
import TaskHarbor.Api.Accepted
import TaskHarbor.System.Uploads
import TaskHarbor.Schedule.Arithmetic
import TaskHarbor.System.Policy
import TaskHarbor.Lifecycle.Progress
import TaskHarbor.System.Progress
import TaskHarbor.System.Retry
import TaskHarbor.Lifecycle.Waiting
import TaskHarbor.System.Drain
import TaskHarbor.Auth.Moves
import TaskHarbor.Auth.Sessions
import TaskHarbor.Api.Auth
import TaskHarbor.Auth.Login
import TaskHarbor.System.Limit
import TaskHarbor.Storage.Tree
import TaskHarbor.Storage.Sweep
import TaskHarbor.Storage.Usage
import TaskHarbor.Storage.Cleanup
import TaskHarbor.Storage.Sharing
import TaskHarbor.System.Maintenance
import TaskHarbor.Auth.Username
import TaskHarbor.Storage.Resize
import TaskHarbor.Api.Fingerprint
import TaskHarbor.Lifecycle.OutputName
import TaskHarbor.Storage.Confinement
import TaskHarbor.Api.Metering
import TaskHarbor.Api.Limits
import TaskHarbor.Api.RateLimit
import TaskHarbor.System.Measuring
import TaskHarbor.Database.Leases
import TaskHarbor.System.Migration
import TaskHarbor.System.Readback
import TaskHarbor.System.Crowded
import TaskHarbor.System.Conformance
import TaskHarbor.System.Runnable
import TaskHarbor.Lifecycle.Tenure
import TaskHarbor.System.Tenure
import TaskHarbor.Lifecycle.Texts
import TaskHarbor.Storage.Process
import TaskHarbor.System.Answers
import TaskHarbor.Worker.Task
import TaskHarbor.System.Publishing
import TaskHarbor.Worker.Upkeep
import TaskHarbor.Worker.World
import TaskHarbor.Worker.Calls
import TaskHarbor.Library.Parallel
import TaskHarbor.Worker.Attempt
import TaskHarbor.Worker.Outputs
import TaskHarbor.Worker.Renewal
import TaskHarbor.Worker.Fleet
import TaskHarbor.Worker.Expiry
import TaskHarbor.System.Recovery
import TaskHarbor.System.Workers
import TaskHarbor.Worker.Recovery
import TaskHarbor.Worker.Capacity
import TaskHarbor.Api.Guard
import TaskHarbor.Auth.Csrf
import TaskHarbor.Api.Download
import TaskHarbor.Worker.Download
