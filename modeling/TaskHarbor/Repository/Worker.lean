import TaskHarbor.Repository.Image

/-! `worker_repository.rs`: workers and their heartbeats, lease renewal and the reclaim of expired
attempts. A `std::time::Duration` is a number of nanoseconds. -/
namespace TaskHarbor

open Relational Transaction

def leaseExpiredMessage : String := "worker lease expired before completion"

def leaseExpiredCancelMessage : String := "cancelled after worker lease expired"

/-! ### Registration -/

structure WorkerRegistration where
  id : Uuid
  name : String
  concurrencyLimit : ℕ
  leaseDuration : ℕ
  heartbeatTtl : ℕ

def durationNanos : ℕ := 1000000000

/-- `validate_duration`. -/
def validateDuration (value : ℕ) (field : String) : Except RepositoryError Unit :=
  if value < 2 * durationNanos ∨ 3600 * durationNanos < value ∨ value % durationNanos ≠ 0 then
    .error (.invalidData (field ++ " must be a whole number of seconds between 2 and 3600"))
  else .ok ()

/-- `duration_seconds`. -/
def durationSeconds (value : ℕ) (field : String) : Except RepositoryError ℕ :=
  if value / durationNanos ≤ i32Max then .ok (value / durationNanos)
  else .error (.invalidData (field ++ " exceeds INTEGER"))

/-- `WorkerRegistration::validate`. -/
def WorkerRegistration.validate (registration : WorkerRegistration) :
    Except RepositoryError Unit := do
  let nameLength := (trim registration.name).length
  if ¬(1 ≤ nameLength ∧ nameLength ≤ 100) then
    throw (.invalidData "worker name must contain between 1 and 100 characters")
  if ¬(1 ≤ registration.concurrencyLimit ∧ registration.concurrencyLimit ≤ 64) then
    throw (.invalidData "worker concurrency must be between 1 and 64")
  validateDuration registration.leaseDuration "lease duration"
  validateDuration registration.heartbeatTtl "heartbeat TTL"

/-- `INSERT INTO workers`. -/
def insertWorker (row : WorkerRow) : Tx Unit := fun db => do
  enforce row.checks
  match db.workers.insertKeyed row with
  | some workers => return ((), { db with workers })
  | none => .error (.database "workers_pkey")

/-- `register_worker_at` up to its read-back, which shows the inserted row. -/
def registerWorker (registration : WorkerRegistration) (asOf : ℤ) : Session Unit := do
  registration.validate
  let leaseSeconds ← durationSeconds registration.leaseDuration "lease duration"
  let heartbeatSeconds ← durationSeconds registration.heartbeatTtl "heartbeat TTL"
  commit do
    let name ← varcharParam 100 (trim registration.name)
    insertWorker
      { id := registration.id
        name
        concurrencyLimit := registration.concurrencyLimit
        leaseDurationSeconds := leaseSeconds
        startedAt := bindTimestamp asOf
        lastHeartbeatAt := bindTimestamp asOf
        heartbeatExpiresAt := bindTimestamp asOf + seconds heartbeatSeconds
        stoppedAt := none }

/-- `heartbeat_worker_at`. -/
def heartbeatWorker (workerId : Uuid) (heartbeatTtl : ℕ) (asOf : ℤ) : Session Unit := do
  validateDuration heartbeatTtl "heartbeat TTL"
  let heartbeatSeconds ← durationSeconds heartbeatTtl "heartbeat TTL"
  commit do
    let updated ← updateWorkers (fun w => w.id == workerId && w.stoppedAt.isNone)
      fun w => { w with
        lastHeartbeatAt := bindTimestamp asOf
        heartbeatExpiresAt := bindTimestamp asOf + seconds heartbeatSeconds }
    ensureOneRow updated "heartbeat worker"

/-- `stop_worker`; a worker cannot stop before it started. -/
def stopWorker (workerId : Uuid) (now : ℤ) : Session Unit :=
  commit do
    if (← get).workers.rows.any fun w =>
        w.id == workerId && decide (w.stoppedAt.getD now < w.startedAt) then
      throw (.database "workers_stop_time_valid")
    let stopped ← updateWorkers (fun w => w.id == workerId)
      fun w => { w with stoppedAt := some (w.stoppedAt.getD now) }
    ensureOneRow stopped "stop worker"

/-! ### Renewal -/

/-- The worker row and the job row that the UPDATE of `renew_lease_with_time` joins. -/
def renewalJoin (claimed : ClaimedJob) (t : ℤ) (db : Db) : Option WorkerRow :=
  if (db.jobs.get? claimed.jobId.get).any fun r => r.state.isActive then
    activeWorker db claimed.workerId t
  else none

/-- `renew_lease_with_time`, with the new end of the lease. -/
def renewLeaseTx (claimed : ClaimedJob) (asOf : Option ℤ) (now : ℤ) : Tx ℤ := do
  let t := (asOf.map bindTimestamp).getD now
  match renewalJoin claimed t (← get) with
  | none => throw .claimLost
  | some worker => do
      let leaseExpiresAt := t + seconds worker.leaseDurationSeconds
      let renewed ← updateAttempts (claimed.fences t)
        fun a => { a with leaseExpiresAt := some leaseExpiresAt }
      ensureClaimRow renewed
      return leaseExpiresAt

/-- `renew_lease` and `renew_lease_at`. -/
def renewLease (claimed : ClaimedJob) (asOf : Option ℤ) (now : ℤ) : Session ℤ :=
  commit (renewLeaseTx claimed asOf now)

/-! ### Reclaim -/

inductive ReclaimDisposition where
  | retryScheduled (availableAt : ℤ)
  | failed
  | cancelled
  deriving DecidableEq

structure ReclaimedAttempt where
  jobId : JobId
  attemptId : ℕ
  workerId : Uuid
  disposition : ReclaimDisposition
  deriving DecidableEq

/-- `lease_expires_at <= t`. -/
def AttemptRow.leaseOver (a : AttemptRow) (t : ℤ) : Bool := a.leaseExpiresAt.any fun e => e ≤ t

/-- The attempt that `FOR UPDATE SKIP LOCKED LIMIT 1` selects when others hold locks on the
attempts in `locked`. -/
def expiredCandidate (db : Db) (asOf : ℤ) (locked : List ℕ) : Option AttemptRow :=
  Table.leastBy (fun a => toLex (a.leaseExpiresAt.getD 0, a.id))
    (db.jobAttempts.rows.filter fun a =>
      a.state == .running && a.leaseOver asOf && !locked.contains a.id &&
        (db.jobs.get? a.jobId).any fun r => r.state.isActive)

/-- `elapsed_milliseconds`. -/
def elapsedMilliseconds (startedAt finishedAt : ℤ) : Except RepositoryError ℕ :=
  let value := (max (wholeMilliseconds (finishedAt - startedAt)) 0).toNat
  if value ≤ i64Max then .ok value
  else .error (.invalidData "attempt duration exceeds BIGINT")

/-- The UPDATE of `finish_reclaimed_cancel`. -/
def finishReclaimedCancel (jobId : ℕ) (asOf : ℤ) : Tx Unit := do
  let updated ← updateJobs (JobRow.isAt jobId .cancelRequested)
    (JobRow.cancelled (bindTimestamp asOf))
  ensureOneRow updated "cancel expired job"

/-- The UPDATE of `schedule_reclaimed_retry`. -/
def scheduleReclaimedRetry (jobId : ℕ) (asOf availableAt : ℤ) : Tx Unit := do
  let updated ← updateJobs
    (fun r => r.isAt jobId .running && decide (bindTimestamp asOf ≤ bindTimestamp availableAt))
    (JobRow.retried (bindTimestamp availableAt) leaseExpiredMessage)
  ensureOneRow updated "retry expired job"

/-- The UPDATE of `fail_reclaimed_job`. -/
def failReclaimedJob (jobId : ℕ) (asOf : ℤ) : Tx Unit := do
  let updated ← updateJobs (JobRow.isAt jobId .running)
    (JobRow.failed (bindTimestamp asOf) leaseExpiredMessage)
  ensureOneRow updated "fail expired job"

/-- What the reclaim does to the job of an expired attempt. -/
def disposeReclaimed (attempt : AttemptRow) (job : JobRow) (asOf : ℤ) : Tx ReclaimDisposition := do
  if job.state = .cancelRequested then do
    finishReclaimedCancel attempt.jobId asOf
    return .cancelled
  else if attempt.attemptNumber < job.maxAttempts then do
    match checkedAdd asOf (seconds (retryBackoffSeconds attempt.attemptNumber)) with
    | none => throw (.invalidData "retry time overflowed")
    | some availableAt => do
        scheduleReclaimedRetry attempt.jobId asOf availableAt
        return .retryScheduled availableAt
  else do
    failReclaimedJob attempt.jobId asOf
    return .failed

/-- The attempt UPDATE of the reclaim. -/
def AttemptRow.expired (jobState : JobStatus) (asOf : ℤ) (durationMs : ℕ) (a : AttemptRow) :
    AttemptRow :=
  if jobState = .cancelRequested then
    a.closed .cancelled .cancelled leaseExpiredCancelMessage asOf durationMs
  else a.closed .failed .transient leaseExpiredMessage asOf durationMs

/-- The transaction of `reclaim_next_expired_attempt_at`. -/
def reclaimNextExpiredAttemptTx (asOf : ℤ) (locked : List ℕ) :
    Tx (Option (AttemptRow × Uuid × ReclaimDisposition)) := do
  let db ← get
  match expiredCandidate db (bindTimestamp asOf) locked with
  | none => return none
  | some attempt =>
      match db.jobs.get? attempt.jobId with
      | none => return none
      | some job => do
          let workerId ← match attempt.workerId with
            | some workerId => pure workerId
            | none => throw (.invalidData "running attempt has no worker owner")
          let durationMs ← elapsedMilliseconds attempt.startedAt asOf
          let expired ← updateAttempts
            (fun a => a.id == attempt.id && a.jobId == attempt.jobId && a.state == .running &&
              a.leaseOver (bindTimestamp asOf))
            (AttemptRow.expired job.state (bindTimestamp asOf) durationMs)
            (by intro a; unfold AttemptRow.expired; split <;> rfl)
          ensureOneRow expired "expire worker attempt"
          let disposition ← disposeReclaimed attempt job asOf
          return some (attempt, workerId, disposition)

/-- `reclaim_next_expired_attempt_at`. -/
def reclaimNextExpiredAttemptAt (asOf : ℤ) (locked : List ℕ) :
    Session (Option ReclaimedAttempt) := do
  match ← commit (reclaimNextExpiredAttemptTx asOf locked) with
  | none => return none
  | some (attempt, workerId, disposition) => do
      let jobId ← decodeJobId attempt.jobId
      return some { jobId, attemptId := attempt.id, workerId, disposition }

end TaskHarbor
