import TaskHarbor.Repository.Schedule

/-! The records of schedules and workers, and the reads after the commits of `create_schedule`,
`update_schedule` and `register_worker`. -/
namespace TaskHarbor

open Relational Transaction

/-! ### Schedules -/

structure ScheduleInputRecord where
  id : ℕ
  itemIndex : ℕ
  storageKey : String
  displayName : String
  mediaType : String
  byteSize : ℕ
  width : ℕ
  height : ℕ
  deriving DecidableEq

/-- `TryFrom<ScheduleInputRow>`. -/
def ScheduleInputRecord.tryFrom (row : ScheduleInputRow) :
    Except RepositoryError ScheduleInputRecord := do
  if !imageMediaType row.mediaType then
    throw (.invalidData "schedule input media type is not recognized")
  return {
    id := row.id
    itemIndex := row.itemIndex
    storageKey := row.storageKey
    displayName := row.displayName
    mediaType := row.mediaType
    byteSize := row.byteSize
    width := row.width
    height := row.height }

structure ScheduleOccurrenceRecord where
  id : ℕ
  scheduledFor : ℤ
  outcome : ScheduleOccurrenceOutcome
  jobId : Option JobId
  jobStatus : Option JobStatus
  reason : Option String
  coalescedSlots : ℕ
  createdAt : ℤ

/-- The result of an occurrence agrees with its outcome. -/
def occurrenceResultValid (outcome : ScheduleOccurrenceOutcome) (jobId : Option JobId)
    (jobStatus : Option JobStatus) (reason : Option String) : Bool :=
  match outcome with
  | .created => jobId.isSome && jobStatus.isSome && reason.isNone
  | .skippedOverlap => jobId.isNone && jobStatus.isNone && reason.isSome

/-- `TryFrom<ScheduleOccurrenceRow>`, with the job's state from the join. -/
def ScheduleOccurrenceRecord.tryFrom (row : ScheduleOccurrenceRow)
    (jobStatus : Option JobStatus) : Except RepositoryError ScheduleOccurrenceRecord := do
  let jobId ← row.jobId.mapM decodeJobId
  if !occurrenceResultValid row.outcome jobId jobStatus row.reason then
    throw (.invalidData "schedule occurrence result violates its invariant")
  return {
    id := row.id
    scheduledFor := row.scheduledFor
    outcome := row.outcome
    jobId
    jobStatus
    reason := row.reason
    coalescedSlots := row.coalescedSlots
    createdAt := row.createdAt }

structure ScheduleRecord where
  id : ScheduleId
  name : JobName
  enabled : Bool
  intervalSeconds : ℕ
  anchorAt : ℤ
  nextRunAt : ℤ
  priority : JobPriority
  maxWidth : ℕ
  jpegQuality : ℕ
  inputs : List ScheduleInputRecord
  occurrences : List ScheduleOccurrenceRecord
  createdAt : ℤ
  updatedAt : ℤ

/-- `ScheduleRow::try_into_record`. -/
def ScheduleRow.tryIntoRecord (row : ScheduleRow) (inputs : List ScheduleInputRecord)
    (occurrences : List ScheduleOccurrenceRecord) : Except RepositoryError ScheduleRecord := do
  if 255 < row.jpegQuality then throw (.invalidData "invalid schedule JPEG quality")
  validateScheduleFields row.intervalSeconds row.maxWidth row.jpegQuality inputs.length
  let id ← decodeScheduleId row.id
  let name ← decodeJobName row.name
  return {
    id, name, inputs, occurrences
    enabled := row.enabled
    intervalSeconds := row.intervalSeconds
    anchorAt := row.anchorAt
    nextRunAt := row.nextRunAt
    priority := row.priority
    maxWidth := row.maxWidth
    jpegQuality := row.jpegQuality
    createdAt := row.createdAt
    updatedAt := row.updatedAt }

/-- `load_schedule_inputs`. -/
def loadScheduleInputs (db : Db) (scheduleId : ℕ) :
    Except RepositoryError (List ScheduleInputRecord) :=
  (scheduleInputsOf db scheduleId).mapM ScheduleInputRecord.tryFrom

/-- `ORDER BY scheduled_for DESC`. -/
def occurrenceOrder (a b : ScheduleOccurrenceRow) : Prop := b.scheduledFor ≤ a.scheduledFor

instance : DecidableRel occurrenceOrder := fun a b => by
  unfold occurrenceOrder
  infer_instance

/-- The state of an occurrence's job, by a left join. -/
def Db.jobStatusOf (db : Db) (o : ScheduleOccurrenceRow) : Option JobStatus :=
  (o.jobId.bind db.jobs.get?).map JobRow.state

/-- `load_schedule_occurrences`. -/
def loadScheduleOccurrences (db : Db) (scheduleId : ℕ) :
    Except RepositoryError (List ScheduleOccurrenceRecord) :=
  ((db.scheduleOccurrences.rows.filter fun o => o.scheduleId == scheduleId).insertionSort
    occurrenceOrder).mapM fun o => ScheduleOccurrenceRecord.tryFrom o (db.jobStatusOf o)

/-- `$owner IS NULL OR owner_user_id = $owner`. -/
def scheduleOwnedBy (owner : Option ℕ) (row : ScheduleRow) : Bool :=
  owner.all fun u => row.ownerUserId == u

def readSchedule (db : Db) (row : ScheduleRow) : Except RepositoryError ScheduleRecord := do
  let inputs ← loadScheduleInputs db row.id
  let occurrences ← loadScheduleOccurrences db row.id
  row.tryIntoRecord inputs occurrences

/-- `get_schedule_with_owner`. -/
def getScheduleWithOwner (id : ScheduleId) (owner : Option ℕ) (db : Db) :
    Except RepositoryError (Option ScheduleRecord) :=
  match (db.schedules.get? id.get).filter (scheduleOwnedBy owner) with
  | none => .ok none
  | some row => do
      let record ← readSchedule db row
      return some record

/-- `ORDER BY id`. -/
def scheduleOrder (a b : ScheduleRow) : Prop := a.id ≤ b.id

instance : DecidableRel scheduleOrder := fun a b => by
  unfold scheduleOrder
  infer_instance

/-- `list_schedules_with_owner`. -/
def listSchedulesWithOwner (owner : Option ℕ) (db : Db) :
    Except RepositoryError (List ScheduleRecord) :=
  ((db.schedules.rows.filter (scheduleOwnedBy owner)).insertionSort scheduleOrder).mapM
    (readSchedule db)

/-- `get_schedule(...).await?.ok_or(StateConflict(operation))`. -/
def readBackSchedule (id : ScheduleId) (operation : String) (db : Db) :
    Except RepositoryError ScheduleRecord := do
  match ← getScheduleWithOwner id none db with
  | some record => return record
  | none => throw (.stateConflict operation)

/-- `create_schedule`. -/
def createScheduleRecord (request : NewSchedule) (now : ℤ) : Session ScheduleRecord := do
  let id ← createSchedule request now
  query (readBackSchedule id "read created schedule")

/-- `update_schedule_at_with_owner`. -/
def updateScheduleRecord (id : ScheduleId) (request : UpdateSchedule) (asOf : ℤ)
    (owner : Option ℕ) (now : ℤ) : Session (Option ScheduleRecord) := do
  let updated ← updateScheduleAtWithOwner id request asOf owner now
  if updated then query (getScheduleWithOwner id owner) else return none

/-! ### Workers -/

inductive WorkerStatus where
  | online
  | offline
  | stopped
  deriving DecidableEq, Repr

structure WorkerRecord where
  id : Uuid
  name : String
  status : WorkerStatus
  concurrencyLimit : ℕ
  leaseDurationSeconds : ℕ
  activeAttempts : ℕ
  startedAt : ℤ
  lastHeartbeatAt : ℤ
  heartbeatExpiresAt : ℤ
  stoppedAt : Option ℤ

/-- The status column of `get_worker` at a given `CURRENT_TIMESTAMP`. -/
def WorkerRow.status (w : WorkerRow) (now : ℤ) : WorkerStatus :=
  if w.stoppedAt.isSome then .stopped
  else if now < w.heartbeatExpiresAt then .online
  else .offline

/-- The running attempts of a worker. -/
def activeAttempts (db : Db) (workerId : Uuid) : ℕ :=
  (db.jobAttempts.rows.filter fun a => a.workerId == some workerId && a.state == .running).length

/-- `TryFrom<WorkerRow>`, with the count of its running attempts. -/
def WorkerRecord.tryFrom (row : WorkerRow) (active : ℕ) (now : ℤ) :
    Except RepositoryError WorkerRecord := do
  if i32Max < active then
    throw (.invalidData "worker active attempt count exceeds INTEGER")
  return {
    id := row.id
    name := row.name
    status := row.status now
    concurrencyLimit := row.concurrencyLimit
    leaseDurationSeconds := row.leaseDurationSeconds
    activeAttempts := active
    startedAt := row.startedAt
    lastHeartbeatAt := row.lastHeartbeatAt
    heartbeatExpiresAt := row.heartbeatExpiresAt
    stoppedAt := row.stoppedAt }

/-- `get_worker`. -/
def getWorker (id : Uuid) (now : ℤ) (db : Db) : Except RepositoryError (Option WorkerRecord) :=
  match db.workers.get? id with
  | none => .ok none
  | some row => do
      let record ← WorkerRecord.tryFrom row (activeAttempts db id) now
      return some record

/-- `ORDER BY started_at DESC, id`. -/
def workerOrder (a b : WorkerRow) : Prop :=
  b.startedAt < a.startedAt ∨ (a.startedAt = b.startedAt ∧ a.id ≤ b.id)

instance : DecidableRel workerOrder := fun a b => by
  unfold workerOrder
  infer_instance

/-- `list_workers`. -/
def listWorkers (now : ℤ) (db : Db) : Except RepositoryError (List WorkerRecord) :=
  (db.workers.rows.insertionSort workerOrder).mapM fun w =>
    WorkerRecord.tryFrom w (activeAttempts db w.id) now

/-- `get_worker(...).await?.ok_or(StateConflict(operation))`. -/
def readBackWorker (id : Uuid) (now : ℤ) (db : Db) : Except RepositoryError WorkerRecord := do
  match ← getWorker id now db with
  | some record => return record
  | none => throw (.stateConflict "read registered worker")

/-- `register_worker_at`. -/
def registerWorkerRecord (registration : WorkerRegistration) (asOf now : ℤ) :
    Session WorkerRecord := do
  registerWorker registration asOf
  query (readBackWorker registration.id now)

/-! ### What the reads add -/

section Writes

variable {db : Db} {now asOf : ℤ}

/-- A read after a session leaves what the session wrote. -/
theorem createScheduleRecord_db (request : NewSchedule) :
    (createScheduleRecord request now db).2 = (createSchedule request now db).2 := by
  unfold createScheduleRecord
  rw [Session.bind_run]
  rcases createSchedule request now db with ⟨e | id, db'⟩ <;> rfl

theorem updateScheduleRecord_db (id : ScheduleId) (request : UpdateSchedule) (owner : Option ℕ) :
    (updateScheduleRecord id request asOf owner now db).2 =
      (updateScheduleAtWithOwner id request asOf owner now db).2 := by
  unfold updateScheduleRecord
  rw [Session.bind_run]
  rcases updateScheduleAtWithOwner id request asOf owner now db with ⟨e | updated, db'⟩
  · rfl
  · cases updated <;> rfl

theorem registerWorkerRecord_db (registration : WorkerRegistration) :
    (registerWorkerRecord registration asOf now db).2 =
    (registerWorker registration asOf db).2 := by
  unfold registerWorkerRecord
  rw [Session.bind_run]
  rcases registerWorker registration asOf db with ⟨e | u, db'⟩ <;> rfl

end Writes

end TaskHarbor
