import TaskHarbor.Database.Schema
import Mathlib.Data.List.Sort
import Mathlib.Data.Prod.Lex

/-! `postgres.rs`: job records, creation, claiming and demo completion. `now` is the
`CURRENT_TIMESTAMP` of the transaction. -/
namespace TaskHarbor

open Relational Transaction

/-! ### Records -/

structure ArtifactRecord where
  id : ℕ
  jobId : JobId
  attemptId : Option ℕ
  sourceArtifactId : Option ℕ
  kind : ArtifactKind
  itemIndex : ℕ
  storageKey : String
  displayName : String
  mediaType : String
  byteSize : ℕ
  width : ℕ
  height : ℕ
  createdAt : ℤ
  deriving DecidableEq

/-- `TryFrom<ArtifactRow>`. -/
def ArtifactRecord.tryFrom (row : ArtifactRow) : Except RepositoryError ArtifactRecord := do
  if !imageMediaType row.mediaType then
    throw (.invalidData "artifact media type is not recognized")
  let jobId ← decodeJobId row.jobId
  return {
    id := row.id
    jobId
    attemptId := row.attemptId
    sourceArtifactId := row.sourceArtifactId
    kind := row.kind
    itemIndex := row.itemIndex
    storageKey := row.storageKey
    displayName := row.displayName
    mediaType := row.mediaType
    byteSize := row.byteSize
    width := row.width
    height := row.height
    createdAt := row.createdAt }

structure AttemptRecord where
  id : ℕ
  attemptNumber : ℕ
  status : AttemptStatus
  progressCompleted : ℕ
  progressTotal : ℕ
  startedAt : ℤ
  finishedAt : Option ℤ
  durationMs : Option ℕ
  queueWaitMs : ℕ
  encodingDurationMs : ℕ
  errorKind : Option ErrorKind
  errorMessage : Option String
  workerId : Option Uuid
  workerName : Option String
  leaseExpiresAt : Option ℤ
  deriving DecidableEq

/-- `TryFrom<AttemptRow>`, with the worker's name from the join. -/
def AttemptRecord.tryFrom (row : AttemptRow) (workerName : Option String) :
    Except RepositoryError AttemptRecord := do
  if row.progressTotal == 0 || row.progressTotal < row.progressCompleted then
    throw (.invalidData "attempt progress violates its invariant")
  return {
    id := row.id
    attemptNumber := row.attemptNumber
    status := row.state
    progressCompleted := row.progressCompleted
    progressTotal := row.progressTotal
    startedAt := row.startedAt
    finishedAt := row.finishedAt
    durationMs := row.durationMs
    queueWaitMs := row.queueWaitMs
    encodingDurationMs := row.encodingDurationMs
    errorKind := row.errorKind
    errorMessage := row.errorMessage
    workerId := row.workerId
    workerName
    leaseExpiresAt := row.leaseExpiresAt }

inductive JobSettings where
  | demoDelay (delayMs : ℕ)
  | imageResize (maxWidth jpegQuality : ℕ)
  deriving DecidableEq, Repr

structure JobRecord where
  id : JobId
  name : JobName
  jobType : JobType
  status : JobStatus
  settings : JobSettings
  progressCompleted : ℕ
  progressTotal : ℕ
  resultMessage : Option String
  resultDurationMs : Option ℕ
  failureMessage : Option String
  artifacts : List ArtifactRecord
  attempts : List AttemptRecord
  availableAt : ℤ
  maxAttempts : ℕ
  retryOfJobId : Option JobId
  cancelRequestedAt : Option ℤ
  priority : JobPriority
  scheduleId : Option ScheduleId
  scheduledFor : Option ℤ
  createdAt : ℤ
  startedAt : Option ℤ
  finishedAt : Option ℤ

def maxAttemptsLimit : ℕ := 10

/-- `JobName::new` with its error turned into invalid data. -/
def decodeJobName (value : String) : Except RepositoryError JobName :=
  match JobName.new value with
  | .ok name => .ok name
  | .error .empty =>
      .error (.invalidData "job name must contain at least one non-whitespace character")
  | .error (.tooLong max actual) =>
      .error (.invalidData ("job name must contain at most " ++ toString max ++
        " characters, but received " ++ toString actual))

/-- The settings part of `JobRow::try_into_record` and of `claim_next`. -/
def imageSettings (maxWidth jpegQuality : Option ℕ) : Except RepositoryError (ℕ × ℕ) :=
  match maxWidth, jpegQuality with
  | none, _ => .error (.invalidData "image job has no max width")
  | some _, none => .error (.invalidData "image job has no JPEG quality")
  | some w, some q => if q ≤ 255 then .ok (w, q) else .error (.invalidData "invalid JPEG quality")

/-- `JobRow::try_into_record`. -/
def JobRow.tryIntoRecord (row : JobRow) (artifacts : List ArtifactRecord)
    (attempts : List AttemptRecord) : Except RepositoryError JobRecord := do
  let id ← decodeJobId row.id
  let name ← decodeJobName row.name
  if row.progressTotal == 0 || row.progressTotal < row.progressCompleted then
    throw (.invalidData "job progress violates its invariant")
  if row.maxAttempts == 0 || maxAttemptsLimit < row.maxAttempts then
    throw (.invalidData "max attempts violates its invariant")
  let scheduleId ← row.scheduleId.mapM decodeScheduleId
  if scheduleId.isSome != row.scheduledFor.isSome then
    throw (.invalidData "job schedule origin violates its invariant")
  let settings ← match row.jobType with
    | .demoDelay => pure (JobSettings.demoDelay row.delayMs)
    | .imageResize => do
        let (maxWidth, jpegQuality) ← imageSettings row.maxWidth row.jpegQuality
        pure (JobSettings.imageResize maxWidth jpegQuality)
  let retryOfJobId ← row.retryOfJobId.mapM decodeJobId
  return {
    id, name, settings, artifacts, attempts, retryOfJobId, scheduleId
    jobType := row.jobType
    status := row.state
    progressCompleted := row.progressCompleted
    progressTotal := row.progressTotal
    resultMessage := row.resultMessage
    resultDurationMs := row.resultDurationMs
    failureMessage := row.failureMessage
    availableAt := row.availableAt
    maxAttempts := row.maxAttempts
    cancelRequestedAt := row.cancelRequestedAt
    priority := row.priority
    scheduledFor := row.scheduledFor
    createdAt := row.createdAt
    startedAt := row.startedAt
    finishedAt := row.finishedAt }

/-! ### Reads -/

/-- `ORDER BY kind, item_index`. -/
def artifactOrder (a b : ArtifactRow) : Prop :=
  (a.kind = .input ∧ b.kind = .output) ∨ (a.kind = b.kind ∧ a.itemIndex ≤ b.itemIndex)

instance : DecidableRel artifactOrder := fun a b => by
  unfold artifactOrder
  infer_instance

def attemptOrder (a b : AttemptRow) : Prop := a.attemptNumber ≤ b.attemptNumber

instance : DecidableRel attemptOrder := fun a b => by
  unfold attemptOrder
  infer_instance

/-- `load_artifacts`. -/
def loadArtifacts (db : Db) (jobId : ℕ) : Except RepositoryError (List ArtifactRecord) :=
  ((db.artifacts.rows.filter fun a => a.jobId == jobId).insertionSort artifactOrder).mapM
    ArtifactRecord.tryFrom

/-- `load_input_artifacts`. -/
def loadInputArtifacts (db : Db) (jobId : ℕ) : Except RepositoryError (List ArtifactRecord) :=
  ((db.artifacts.rows.filter fun a => a.jobId == jobId && a.kind == .input).insertionSort
    artifactOrder).mapM ArtifactRecord.tryFrom

/-- `load_attempts`. -/
def loadAttempts (db : Db) (jobId : ℕ) : Except RepositoryError (List AttemptRecord) :=
  ((db.jobAttempts.rows.filter fun a => a.jobId == jobId).insertionSort attemptOrder).mapM
    fun a => AttemptRecord.tryFrom a ((a.workerId.bind db.workers.get?).map WorkerRow.name)

/-- `$owner IS NULL OR owner_user_id = $owner`. -/
def ownedBy (owner : Option ℕ) (row : JobRow) : Bool := owner.all fun u => row.ownerUserId == u

def readJob (db : Db) (row : JobRow) : Except RepositoryError JobRecord := do
  let artifacts ← loadArtifacts db row.id
  let attempts ← loadAttempts db row.id
  row.tryIntoRecord artifacts attempts

/-- `get_with_owner`. -/
def getWithOwner (id : JobId) (owner : Option ℕ) (db : Db) :
    Except RepositoryError (Option JobRecord) :=
  match (db.jobs.get? id.get).filter (ownedBy owner) with
  | none => .ok none
  | some row => do
      let record ← readJob db row
      return some record

/-! ### Creation -/

def demoDelayMs : ℕ := 500

/-- The column defaults of `jobs`. -/
def JobRow.defaults (id : ℕ) (name : String) (now : ℤ) : JobRow where
  id := id
  name := name
  jobType := .demoDelay
  state := .queued
  availableAt := now
  progressCompleted := 0
  progressTotal := 1
  delayMs := 500
  resultMessage := none
  resultDurationMs := none
  createdAt := now
  startedAt := none
  finishedAt := none
  maxWidth := none
  jpegQuality := none
  failureMessage := none
  maxAttempts := 3
  retryOfJobId := none
  cancelRequestedAt := none
  priority := .normal
  scheduleId := none
  scheduledFor := none
  ownerUserId := 1
  idempotencyKey := none
  requestFingerprint := none
  outputsExpiredAt := none

/-- `create`. -/
def create (name : JobName) (now : ℤ) : Session JobRecord := do
  let id ← commit do
    let stored ← varcharParam 100 name.asStr
    insertJob fun id => { JobRow.defaults id stored now with delayMs := demoDelayMs }
  query fun db =>
    match db.jobs.get? id with
    | some row => row.tryIntoRecord [] []
    | none => .error (.database "no rows returned")

/-! ### Claims -/

inductive ClaimedWork where
  | demoDelay (delay : ℕ)
  | imageResize (maxWidth jpegQuality : ℕ) (inputs : List ArtifactRecord)
  deriving DecidableEq

structure ClaimedJob where
  jobId : JobId
  attemptId : ℕ
  attemptNumber : ℕ
  maxAttempts : ℕ
  workerId : Uuid
  claimToken : Uuid
  leaseExpiresAt : ℤ
  queueWaitMs : ℕ
  work : ClaimedWork
  deriving DecidableEq

/-- `lease_expires_at > t`. -/
def AttemptRow.leaseAfter (a : AttemptRow) (t : ℤ) : Bool := a.leaseExpiresAt.any fun e => t < e

/-- The fencing predicate: the attempt runs under this owner and token, and its lease is not over
at `t`. -/
def ClaimedJob.fences (claimed : ClaimedJob) (t : ℤ) (a : AttemptRow) : Bool :=
  a.id == claimed.attemptId && a.jobId == claimed.jobId.get && a.state == .running &&
    a.workerId == some claimed.workerId && a.claimToken == some claimed.claimToken &&
    a.leaseAfter t

/-- `COALESCE(MAX(attempt_number), 0) + 1`. -/
def nextAttemptNumber (db : Db) (jobId : ℕ) : ℕ :=
  ((db.jobAttempts.rows.filter fun a => a.jobId == jobId).map AttemptRow.attemptNumber).foldr
    max 0 + 1

/-- The row that `FOR UPDATE SKIP LOCKED LIMIT 1` selects when others hold locks on `locked`. -/
def claimCandidate (db : Db) (claimTime : ℤ) (locked : List ℕ) : Option JobRow :=
  Table.leastBy (fun r => toLex (r.priority.rank, toLex (r.availableAt, r.id)))
    (db.jobs.rows.filter fun r =>
      r.state.isPending && decide (r.availableAt ≤ claimTime) && !locked.contains r.id)

/-- The worker row that lets a claim through: not stopped, heartbeat not over at `t`. -/
def activeWorker (db : Db) (workerId : Uuid) (t : ℤ) : Option WorkerRow :=
  (db.workers.get? workerId).filter fun w => w.stoppedAt.isNone && decide (t < w.heartbeatExpiresAt)

/-- The work of a claim, read after the attempt is inserted. -/
def claimedWork (candidate : JobRow) (db : Db) : Except RepositoryError ClaimedWork :=
  match candidate.jobType with
  | .demoDelay => .ok (.demoDelay candidate.delayMs)
  | .imageResize => do
      let (maxWidth, jpegQuality) ← imageSettings candidate.maxWidth candidate.jpegQuality
      let inputs ← loadInputArtifacts db candidate.id
      if inputs.length ≠ candidate.progressTotal then
        throw (.invalidData "image input count does not match progress total")
      return .imageResize maxWidth jpegQuality inputs

/-- What a claim writes to the job row. -/
def JobRow.started (claimTime : ℤ) (r : JobRow) : JobRow :=
  { r with
    state := .running
    startedAt := some (r.startedAt.getD claimTime)
    progressCompleted := 0
    resultMessage := none
    resultDurationMs := none
    failureMessage := none
    finishedAt := none }

/-- How long the job waited, in whole milliseconds and never below zero. -/
def queueWait (claimTime availableAt : ℤ) : ℕ :=
  (max (wholeMilliseconds (claimTime - availableAt)) 0).toNat

/-- The attempt row that a claim inserts. -/
def JobRow.attempt (candidate : JobRow) (attemptNumber : ℕ) (worker : WorkerRow)
    (claimToken : Uuid) (claimTime : ℤ) (queueWaitMs id : ℕ) : AttemptRow where
  id := id
  jobId := candidate.id
  attemptNumber := attemptNumber
  state := .running
  progressCompleted := 0
  progressTotal := candidate.progressTotal
  startedAt := claimTime
  finishedAt := none
  durationMs := none
  errorMessage := none
  errorKind := none
  workerId := some worker.id
  claimToken := some claimToken
  leaseExpiresAt := some (claimTime + seconds worker.leaseDurationSeconds)
  queueWaitMs := queueWaitMs
  encodingDurationMs := 0

/-- The transaction of `claim_next_with_time`. -/
def claimNextWithTime (workerId : Uuid) (asOf : Option ℤ) (now : ℤ) (claimToken : Uuid)
    (locked : List ℕ) : Tx (Option ClaimedJob) := do
  let claimTime := (asOf.map bindTimestamp).getD now
  match claimCandidate (← get) claimTime locked with
  | none => return none
  | some candidate => do
      let jobId ← decodeJobId candidate.id
      let attemptNumber := nextAttemptNumber (← get) candidate.id
      if candidate.maxAttempts < attemptNumber then
        throw (.invalidData "job has no remaining attempts")
      let queueWaitMs := queueWait claimTime candidate.availableAt
      if u64Max < queueWaitMs then throw (.invalidData "queue wait exceeds u64")
      if i64Max < queueWaitMs then throw (.invalidData "queue wait exceeds BIGINT")
      let updated ← updateJobs (fun r => r.id == candidate.id && r.state.isPending)
        (JobRow.started claimTime)
      ensureOneRow updated "claim job"
      match activeWorker (← get) workerId claimTime with
      | none => throw (.stateConflict "claim job for inactive worker")
      | some worker => do
          let attemptId ← insertAttempt
            (candidate.attempt attemptNumber worker claimToken claimTime queueWaitMs)
          let work ← claimedWork candidate (← get)
          return some
            { jobId, attemptId, attemptNumber, workerId, claimToken, queueWaitMs, work
              maxAttempts := candidate.maxAttempts
              leaseExpiresAt := claimTime + seconds worker.leaseDurationSeconds }

/-- `claim_next` and `claim_next_at`. -/
def claimNext (workerId : Uuid) (asOf : Option ℤ) (now : ℤ) (claimToken : Uuid)
    (locked : List ℕ) : Session (Option ClaimedJob) :=
  commit (claimNextWithTime workerId asOf now claimToken locked)

/-! ### Completion -/

def resultMessage : String := "demo delay completed"

/-- `WHERE id = $1 AND state = ...`. -/
def JobRow.isAt (id : ℕ) (state : JobStatus) (r : JobRow) : Bool := r.id == id && r.state == state

/-- The attempt UPDATE that `complete` and `complete_attempt` share. -/
def AttemptRow.completed (now : ℤ) (durationMs : ℕ) (a : AttemptRow) : AttemptRow :=
  { a with
    state := .succeeded
    progressCompleted := a.progressTotal
    finishedAt := some now
    durationMs := some durationMs }

theorem AttemptRow.completed_key (now : ℤ) (durationMs : ℕ) (a : AttemptRow) :
    Keyed.key (AttemptRow.completed now durationMs a) = Keyed.key a := rfl

/-- The job UPDATE of both completions. -/
def JobRow.completed (now : ℤ) (durationMs : ℕ) (message : String) (r : JobRow) : JobRow :=
  { r with
    state := .succeeded
    progressCompleted := r.progressTotal
    resultMessage := some message
    resultDurationMs := some durationMs
    failureMessage := none
    finishedAt := some now }

/-- The transaction of `complete`. -/
def completeTx (claimed : ClaimedJob) (durationMs : ℕ) (now : ℤ) : Tx Unit := do
  let attempt ← updateAttempts (claimed.fences now) (AttemptRow.completed now durationMs)
    (AttemptRow.completed_key now durationMs)
  ensureClaimRow attempt
  let job ← updateJobs
    (fun r => r.isAt claimed.jobId.get .running && r.jobType == .demoDelay)
    (JobRow.completed now durationMs resultMessage)
  ensureOneRow job "complete job"

/-- `complete`. -/
def complete (claimed : ClaimedJob) (duration : ℕ) (now : ℤ) : Session Unit := do
  match claimed.work with
  | .imageResize .. => throw (.invalidData "image job cannot use demo completion")
  | .demoDelay _ => do
      if i64Max < duration then throw (.invalidData "worker duration exceeds BIGINT range")
      commit (completeTx claimed duration now)

end TaskHarbor
