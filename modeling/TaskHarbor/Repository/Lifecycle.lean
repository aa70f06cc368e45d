import TaskHarbor.Repository.Postgres

/-! `lifecycle_repository.rs`: cancellation, failure with automatic retry, manual retry. Failure
texts are constants of the callers. `now` is `CURRENT_TIMESTAMP` of the transaction. -/
namespace TaskHarbor

open Relational Transaction

def maxBackoffSeconds : ℕ := 60

def cancelledMessage : String := "cancelled by user"

/-- `retry_backoff_seconds`. -/
def retryBackoffSeconds (attemptNumber : ℕ) : ℕ :=
  min (1 <<< min (attemptNumber - 1) 31) maxBackoffSeconds

/-- `cancellation_requested`. -/
def cancellationRequested (claimed : ClaimedJob) (now : ℤ) (db : Db) :
    Except RepositoryError Bool :=
  let state :=
    if db.jobAttempts.rows.any (claimed.fences now) then
      (db.jobs.get? claimed.jobId.get).map JobRow.state
    else none
  match state with
  | some .running => .ok false
  | some .cancelRequested => .ok true
  | _ => .error .claimLost

/-! ### Closing an attempt -/

/-- The attempt UPDATE of every unsuccessful end. -/
def AttemptRow.closed (state : AttemptStatus) (kind : ErrorKind) (message : String)
    (finishedAt : ℤ) (durationMs : ℕ) (a : AttemptRow) : AttemptRow :=
  { a with
    state
    finishedAt := some finishedAt
    durationMs := some durationMs
    errorKind := some kind
    errorMessage := some message }

/-- The job UPDATE of every cancellation of a running job. -/
def JobRow.cancelled (finishedAt : ℤ) (r : JobRow) : JobRow :=
  { r with
    state := .cancelled
    resultMessage := none
    resultDurationMs := none
    failureMessage := none
    finishedAt := some finishedAt }

/-- The job UPDATE of every automatic retry. -/
def JobRow.retried (availableAt : ℤ) (message : String) (r : JobRow) : JobRow :=
  { r with
    state := .retryWaiting
    availableAt
    progressCompleted := 0
    failureMessage := some message
    resultMessage := none
    resultDurationMs := none
    finishedAt := none }

/-- The job UPDATE of every final failure. -/
def JobRow.failed (finishedAt : ℤ) (message : String) (r : JobRow) : JobRow :=
  { r with
    state := .failed
    failureMessage := some message
    resultMessage := none
    resultDurationMs := none
    finishedAt := some finishedAt }

/-- The transaction of `finish_cancelled`. -/
def finishCancelledTx (claimed : ClaimedJob) (durationMs : ℕ) (now : ℤ) : Tx Unit := do
  let attempt ← updateAttempts (claimed.fences now)
    (AttemptRow.closed .cancelled .cancelled cancelledMessage now durationMs)
  ensureClaimRow attempt
  let job ← updateJobs (JobRow.isAt claimed.jobId.get .cancelRequested) (JobRow.cancelled now)
  ensureOneRow job "cancel job"

/-- `finish_cancelled`. -/
def finishCancelled (claimed : ClaimedJob) (duration : ℕ) (now : ℤ) : Session Unit := do
  let durationMs ← encodeDuration duration
  commit (finishCancelledTx claimed durationMs now)

inductive FailureDisposition where
  | retryScheduled (availableAt : ℤ)
  | failed
  deriving DecidableEq

/-- The transaction of `record_failure`. -/
def recordFailureTx (claimed : ClaimedJob) (durationMs : ℕ) (kind : FailureKind)
    (safeMessage : String) (now : ℤ) : Tx FailureDisposition := do
  let attempt ← updateAttempts (claimed.fences now)
    (AttemptRow.closed .failed kind.errorKind safeMessage now durationMs)
  ensureClaimRow attempt
  if kind = .transient ∧ claimed.attemptNumber < claimed.maxAttempts then do
    let availableAt := now + seconds (retryBackoffSeconds claimed.attemptNumber)
    let job ← updateJobs (JobRow.isAt claimed.jobId.get .running)
      (JobRow.retried availableAt safeMessage)
    ensureOneRow job "schedule retry"
    return .retryScheduled availableAt
  else do
    let job ← updateJobs (JobRow.isAt claimed.jobId.get .running) (JobRow.failed now safeMessage)
    ensureOneRow job "fail job"
    return .failed

/-- `record_failure`. -/
def recordFailure (claimed : ClaimedJob) (duration : ℕ) (kind : FailureKind)
    (safeMessage : String) (now : ℤ) : Session FailureDisposition := do
  let durationMs ← encodeDuration duration
  commit (recordFailureTx claimed durationMs kind safeMessage now)

/-! ### Cancelling -/

/-- The states that the UPDATE of `request_cancel_with_owner` selects. -/
def JobStatus.isCancellable : JobStatus → Bool
  | .succeeded | .failed => false
  | _ => true

/-- The UPDATE of `request_cancel_with_owner`. -/
def JobRow.cancelRequested (now : ℤ) (r : JobRow) : JobRow :=
  { r with
    state := match r.state with
      | .queued | .retryWaiting => .cancelled
      | .running => .cancelRequested
      | state => state
    cancelRequestedAt := some (r.cancelRequestedAt.getD now)
    finishedAt := if r.state.isPending then some now else r.finishedAt
    failureMessage := if r.state.isPending then none else r.failureMessage }

/-- The guard of that UPDATE. -/
def JobRow.cancellable (id : ℕ) (owner : Option ℕ) (r : JobRow) : Bool :=
  r.id == id && ownedBy owner r && r.state.isCancellable

/-- The read that follows the UPDATE of `request_cancel_with_owner`, in whatever state it runs. -/
def requestCancelReply (id : JobId) (owner : Option ℕ) (updated : ℕ) (db : Db) :
    Except RepositoryError (Option JobRecord) :=
  if updated = 0 then do
    let found ← getWithOwner id owner db
    if found.isSome then .error (.stateConflict "cancel terminal job") else .ok none
  else getWithOwner id owner db

/-- `request_cancel_with_owner`. -/
def requestCancel (id : JobId) (owner : Option ℕ) (now : ℤ) : Session (Option JobRecord) := do
  let updated ← commit (updateJobs (JobRow.cancellable id.get owner) (JobRow.cancelRequested now))
  query (requestCancelReply id owner updated)

/-! ### Manual retry -/

/-- The job row that `manual_retry_with_owner` inserts. -/
def JobRow.retryCopy (source : JobRow) (now : ℤ) (id : ℕ) : JobRow :=
  { JobRow.defaults id source.name now with
    jobType := source.jobType
    state := .queued
    progressTotal := source.progressTotal
    delayMs := source.delayMs
    maxWidth := source.maxWidth
    jpegQuality := source.jpegQuality
    maxAttempts := source.maxAttempts
    priority := source.priority
    retryOfJobId := some source.id
    ownerUserId := source.ownerUserId }

/-- An input row copied to another job. The checksum is not among the copied columns. -/
def ArtifactRow.retryCopy (source : ArtifactRow) (jobId : ℕ) (now : ℤ) (id : ℕ) : ArtifactRow :=
  { source with
    id
    jobId
    attemptId := none
    sourceArtifactId := none
    createdAt := now
    checksumSha256 := none }

/-- `INSERT INTO artifacts ... SELECT` over the selected input rows. -/
def copyInputs (jobId : ℕ) (now : ℤ) : List ArtifactRow → Tx Unit
  | [] => pure ()
  | source :: rest => do
      insertArtifact (source.retryCopy jobId now)
      copyInputs jobId now rest

/-- The transaction of `manual_retry_with_owner`. -/
def manualRetryTx (id : JobId) (owner : Option ℕ) (now : ℤ) : Tx (Option ℕ) := do
  match ((← get).jobs.get? id.get).filter (ownedBy owner) with
  | none => return none
  | some source => do
      if source.state ≠ .failed ∧ source.state ≠ .cancelled then
        throw (.stateConflict "manually retry job")
      let newId ← insertJob (source.retryCopy now)
      copyInputs newId now
        ((← get).artifacts.rows.filter fun a => a.jobId == source.id && a.kind == .input)
      return some newId

/-- `manual_retry_with_owner`. -/
def manualRetry (id : JobId) (owner : Option ℕ) (now : ℤ) : Session (Option JobRecord) := do
  match ← commit (manualRetryTx id owner now) with
  | none => return none
  | some newId => do
      let newId ← decodeJobId newId
      query (getWithOwner newId owner)

end TaskHarbor
