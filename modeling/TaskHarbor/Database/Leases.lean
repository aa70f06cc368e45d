import TaskHarbor.Database.Schema

/-! The lease migration `202609200001_worker_leases.sql`. Before it a worker does not own its
attempt; the migration closes the running attempts, moves their jobs on and adds the columns of the
lease. A CHECK that is NULL is met. -/
namespace TaskHarbor

open Relational

/-! ### Before the migration -/

structure UnleasedJobRow where
  id : ℕ
  name : String
  jobType : JobType
  state : JobStatus
  availableAt : ℤ
  progressCompleted : ℕ
  progressTotal : ℕ
  delayMs : ℕ
  resultMessage : Option String
  resultDurationMs : Option ℕ
  createdAt : ℤ
  startedAt : Option ℤ
  finishedAt : Option ℤ
  maxWidth : Option ℕ
  jpegQuality : Option ℕ
  failureMessage : Option String
  maxAttempts : ℕ
  retryOfJobId : Option ℕ
  cancelRequestedAt : Option ℤ
  priority : JobPriority
  scheduleId : Option ℕ
  scheduledFor : Option ℤ
  deriving DecidableEq

structure UnleasedAttemptRow where
  id : ℕ
  jobId : ℕ
  attemptNumber : ℕ
  state : AttemptStatus
  progressCompleted : ℕ
  progressTotal : ℕ
  startedAt : ℤ
  finishedAt : Option ℤ
  durationMs : Option ℕ
  errorMessage : Option String
  errorKind : Option ErrorKind
  deriving DecidableEq

instance : Keyed UnleasedJobRow := ⟨UnleasedJobRow.id⟩
instance : Keyed UnleasedAttemptRow := ⟨UnleasedAttemptRow.id⟩

def UnleasedJobRow.checks (row : UnleasedJobRow) : List Check :=
  [("jobs_name_valid", btrimLengthBetween 100 row.name),
   ("jobs_progress_valid", decide (0 < row.progressTotal ∧
      row.progressCompleted ≤ row.progressTotal)),
   ("jobs_delay_valid", decide (1 ≤ row.delayMs ∧ row.delayMs ≤ 30000)),
   ("jobs_image_settings_valid",
      match row.jobType with
      | .demoDelay => row.maxWidth.isNone && row.jpegQuality.isNone
      | .imageResize => row.maxWidth.all (fun w => 1 ≤ w && w ≤ 8192) &&
          row.jpegQuality.all fun q => 1 ≤ q && q ≤ 100),
   ("jobs_image_item_count_valid",
      row.jobType != .imageResize || decide (1 ≤ row.progressTotal ∧ row.progressTotal ≤ 10)),
   ("jobs_max_attempts_valid", decide (1 ≤ row.maxAttempts ∧ row.maxAttempts ≤ 10)),
   ("jobs_retry_parent_valid", decide (row.retryOfJobId ≠ some row.id)),
   ("jobs_schedule_origin_valid", row.scheduleId.isSome == row.scheduledFor.isSome)]

/-- `job_attempts_error_kind_valid`, which is NULL for a failure without a kind. -/
def UnleasedAttemptRow.errorKindValid (row : UnleasedAttemptRow) : Bool :=
  match row.state, row.errorKind with
  | .running, none | .succeeded, none => true
  | .failed, some .transient | .failed, some .permanent | .failed, none => true
  | .cancelled, some .cancelled | .cancelled, none => true
  | _, _ => false

def UnleasedAttemptRow.checks (row : UnleasedAttemptRow) : List Check :=
  [("job_attempts_number_valid", decide (0 < row.attemptNumber)),
   ("job_attempts_progress_valid", decide (0 < row.progressTotal ∧
      row.progressCompleted ≤ row.progressTotal)),
   ("job_attempts_error_kind_valid", row.errorKindValid)]

structure UnleasedDb where
  jobs : Table UnleasedJobRow
  jobAttempts : Table UnleasedAttemptRow

def UnleasedDb.attemptsOf (db : UnleasedDb) (id : ℕ) : List UnleasedAttemptRow :=
  db.jobAttempts.rows.filter fun a => a.jobId == id

/-- The constraints that the schema declares: the CHECKs, and the reference of an attempt. -/
structure UnleasedDb.Declared (db : UnleasedDb) : Prop where
  jobs : ∀ j ∈ db.jobs, holdsAll j.checks = true
  attempts : ∀ a ∈ db.jobAttempts, holdsAll a.checks = true
  references : ∀ a ∈ db.jobAttempts, ∃ j ∈ db.jobs, j.id = a.jobId

/-! ### The two updates -/

/-- `UPDATE t SET f WHERE p`; PostgreSQL checks the new rows. -/
def updateChecked {ρ : Type} [Keyed ρ] (checks : ρ → List Check) (t : Table ρ) (p : ρ → Bool)
    (f : ρ → ρ) (hf : ∀ r, Keyed.key (f r) = Keyed.key r := by intro r; rfl) :
    Except RepositoryError (Table ρ) := do
  enforce ((t.rows.filter p).flatMap fun r => checks (f r))
  return t.update p f hf

/-- `GREATEST(0, FLOOR(EXTRACT(EPOCH FROM d) * 1000))`. -/
def elapsedMs (d : ℤ) : ℕ := (max 0 (d / nanosPerMillisecond)).toNat

/-- The first UPDATE on an attempt and its job. -/
def UnleasedAttemptRow.closed (now : ℤ) (job : UnleasedJobRow) (a : UnleasedAttemptRow) :
    UnleasedAttemptRow :=
  { a with
    state := if job.state = .cancelRequested then .cancelled else .failed
    finishedAt := some now
    durationMs := some (elapsedMs (now - a.startedAt))
    errorKind := some (if job.state = .cancelRequested then .cancelled else .transient)
    errorMessage := some (if job.state = .cancelRequested then
        "cancelled while upgrading worker ownership"
      else "worker ownership was reset during lease migration") }

/-- `job_attempts.job_id = job.id AND job_attempts.state = 'running'`. -/
def UnleasedDb.closes (db : UnleasedDb) (a : UnleasedAttemptRow) : Bool :=
  (db.jobs.get? a.jobId).isSome && a.state == .running

def UnleasedDb.close (db : UnleasedDb) (now : ℤ) (a : UnleasedAttemptRow) : UnleasedAttemptRow :=
  match db.jobs.get? a.jobId with
  | some job => a.closed now job
  | none => a

theorem UnleasedDb.close_id (db : UnleasedDb) (now : ℤ) (a : UnleasedAttemptRow) :
    (db.close now a).id = a.id := by
  unfold UnleasedDb.close
  split <;> rfl

/-- The second UPDATE on a job with `used` attempts. -/
def UnleasedJobRow.reset (now : ℤ) (used : ℕ) (j : UnleasedJobRow) : UnleasedJobRow :=
  { j with
    state := if j.state = .cancelRequested then .cancelled
      else if used < j.maxAttempts then .retryWaiting else .failed
    availableAt := if j.state = .running ∧ used < j.maxAttempts then now else j.availableAt
    progressCompleted :=
      if j.state = .running ∧ used < j.maxAttempts then 0 else j.progressCompleted
    resultMessage := none
    resultDurationMs := none
    failureMessage := if j.state = .cancelRequested then none
      else some "worker ownership was reset during lease migration"
    finishedAt :=
      if j.state = .cancelRequested ∨ j.maxAttempts ≤ used then some now else none }

/-- `COUNT(*)` of the attempts of a job. -/
def UnleasedDb.used (db : UnleasedDb) (id : ℕ) : ℕ := (db.attemptsOf id).length

/-- The join with the groups drops a job without attempts. -/
def UnleasedDb.resets (db : UnleasedDb) (j : UnleasedJobRow) : Bool :=
  decide (0 < db.used j.id) && (j.state == .running || j.state == .cancelRequested)

/-! ### The columns of the lease -/

structure LeasedAttemptRow extends UnleasedAttemptRow where
  workerId : Option Uuid
  claimToken : Option Uuid
  leaseExpiresAt : Option ℤ
  deriving DecidableEq

instance : Keyed LeasedAttemptRow := ⟨fun a => a.id⟩

structure LeasedDb where
  workers : Table WorkerRow
  jobs : Table UnleasedJobRow
  jobAttempts : Table LeasedAttemptRow

def LeasedAttemptRow.claimFieldsValid (a : LeasedAttemptRow) : Bool :=
  (a.workerId.isNone && a.claimToken.isNone && a.leaseExpiresAt.isNone) ||
    (a.workerId.isSome && a.claimToken.isSome && a.leaseExpiresAt.isSome)

def LeasedAttemptRow.runningClaimValid (a : LeasedAttemptRow) : Bool :=
  a.state != .running || (a.workerId.isSome && a.claimToken.isSome && a.leaseExpiresAt.isSome)

/-- The constraints on `job_attempts` that the migration adds. -/
def LeasedDb.leaseConstraints (db : LeasedDb) : List Check :=
  [("job_attempts_worker_id_fkey", db.jobAttempts.rows.all fun a =>
      a.workerId.all fun w => (db.workers.get? w).isSome),
   ("job_attempts_claim_token_unique",
      decide (db.jobAttempts.rows.filterMap LeasedAttemptRow.claimToken).Nodup),
   ("job_attempts_claim_fields_valid",
      db.jobAttempts.rows.all LeasedAttemptRow.claimFieldsValid),
   ("job_attempts_running_claim_valid",
      db.jobAttempts.rows.all LeasedAttemptRow.runningClaimValid)]

def UnleasedAttemptRow.unclaimed (a : UnleasedAttemptRow) : LeasedAttemptRow :=
  ⟨a, none, none, none⟩

/-- The new table is empty, and the new columns are NULL. -/
def UnleasedDb.leased (db : UnleasedDb) : LeasedDb :=
  ⟨Table.empty, db.jobs, db.jobAttempts.convert UnleasedAttemptRow.unclaimed⟩

/-- `CREATE TABLE workers` and `ALTER TABLE job_attempts`. -/
def UnleasedDb.addLeases (db : UnleasedDb) : Except RepositoryError LeasedDb := do
  enforce db.leased.leaseConstraints
  return db.leased

/-- The migration, in one transaction with the `CURRENT_TIMESTAMP` `now`. -/
def UnleasedDb.leaseMigration (db : UnleasedDb) (now : ℤ) : Except RepositoryError LeasedDb := do
  let jobAttempts ← updateChecked UnleasedAttemptRow.checks db.jobAttempts db.closes
    (db.close now) (db.close_id now)
  let db := { db with jobAttempts }
  let jobs ← updateChecked UnleasedJobRow.checks db.jobs db.resets
    fun j => j.reset now (db.used j.id)
  let db := { db with jobs }
  db.addLeases

/-! ### The later migrations -/

/-- `202609200002_security_operations.sql` gives each job to the first user. -/
def UnleasedJobRow.current (j : UnleasedJobRow) : JobRow where
  id := j.id
  name := j.name
  jobType := j.jobType
  state := j.state
  availableAt := j.availableAt
  progressCompleted := j.progressCompleted
  progressTotal := j.progressTotal
  delayMs := j.delayMs
  resultMessage := j.resultMessage
  resultDurationMs := j.resultDurationMs
  createdAt := j.createdAt
  startedAt := j.startedAt
  finishedAt := j.finishedAt
  maxWidth := j.maxWidth
  jpegQuality := j.jpegQuality
  failureMessage := j.failureMessage
  maxAttempts := j.maxAttempts
  retryOfJobId := j.retryOfJobId
  cancelRequestedAt := j.cancelRequestedAt
  priority := j.priority
  scheduleId := j.scheduleId
  scheduledFor := j.scheduledFor
  ownerUserId := 1
  idempotencyKey := none
  requestFingerprint := none
  outputsExpiredAt := none

/-- `202609210001_attempt_metrics.sql` sets both durations to zero. -/
def LeasedAttemptRow.current (a : LeasedAttemptRow) : AttemptRow where
  id := a.id
  jobId := a.jobId
  attemptNumber := a.attemptNumber
  state := a.state
  progressCompleted := a.progressCompleted
  progressTotal := a.progressTotal
  startedAt := a.startedAt
  finishedAt := a.finishedAt
  durationMs := a.durationMs
  errorMessage := a.errorMessage
  errorKind := a.errorKind
  workerId := a.workerId
  claimToken := a.claimToken
  leaseExpiresAt := a.leaseExpiresAt
  queueWaitMs := 0
  encodingDurationMs := 0

/-- The database that `claim_next` finds; the other tables are those of `rest`. -/
def LeasedDb.current (db : LeasedDb) (rest : Db) : Db :=
  { rest with
    workers := db.workers
    jobs := db.jobs.convert UnleasedJobRow.current
    jobAttempts := db.jobAttempts.convert LeasedAttemptRow.current }

end TaskHarbor
