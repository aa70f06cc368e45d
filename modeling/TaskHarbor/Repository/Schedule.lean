import TaskHarbor.Repository.Worker

/-! `schedule_repository.rs`: schedules, their edits and the materialization of due slots. -/
namespace TaskHarbor

open Relational Transaction

def minScheduleIntervalSeconds : ℕ := 60

def maxScheduleIntervalSeconds : ℕ := 31536000

def overlapReason : String := "previous occurrence is still active"

/-! ### Slot arithmetic -/

/-- `latest_due_slot`: the slot to run, the next cursor and the number of older due slots. -/
def latestDueSlot (nextRunAt : ℤ) (intervalSeconds : ℕ) (asOf : ℤ) :
    Except RepositoryError (ℤ × ℤ × ℕ) := do
  if asOf < nextRunAt then
    throw (.invalidData "schedule is not due at the supplied clock time")
  let elapsed := wholeSeconds (asOf - nextRunAt)
  let coalesced := elapsed.tdiv intervalSeconds
  if coalesced < 0 then
    throw (.invalidData "schedule clock moved before its cursor")
  let offset := coalesced.toNat * intervalSeconds
  if i64Max < offset then throw (.invalidData "schedule offset is too large")
  match checkedAdd nextRunAt (seconds offset) with
  | none => throw (.invalidData "scheduled time overflowed")
  | some scheduledFor =>
      match checkedAdd scheduledFor (seconds intervalSeconds) with
      | none => throw (.invalidData "next schedule time overflowed")
      | some next => return (scheduledFor, next, coalesced.toNat)

/-- `next_slot_after`. -/
def nextSlotAfter (anchorAt : ℤ) (intervalSeconds : ℕ) (asOf : ℤ) : Except RepositoryError ℤ := do
  if asOf < anchorAt then return anchorAt
  if intervalSeconds = 0 then throw (.invalidData "schedule interval overflowed")
  let steps := (asOf - anchorAt).tdiv (seconds intervalSeconds) + 1
  let offset := steps * intervalSeconds
  if (i64Max : ℤ) < offset then throw (.invalidData "schedule cursor is too large")
  match checkedAdd anchorAt (seconds offset) with
  | none => throw (.invalidData "schedule cursor overflowed")
  | some next => return next

/-! ### Requests -/

structure NewSchedule where
  ownerUserId : ℕ
  name : JobName
  intervalSeconds : ℕ
  anchorAt : ℤ
  priority : JobPriority
  maxWidth : ℕ
  jpegQuality : ℕ
  inputs : List NewInputArtifact

structure UpdateSchedule where
  name : JobName
  enabled : Bool
  intervalSeconds : ℕ
  anchorAt : ℤ
  priority : JobPriority
  maxWidth : ℕ
  jpegQuality : ℕ

/-- `validate_schedule_fields`. -/
def validateScheduleFields (intervalSeconds maxWidth jpegQuality inputCount : ℕ) :
    Except RepositoryError Unit := do
  if ¬(minScheduleIntervalSeconds ≤ intervalSeconds ∧
      intervalSeconds ≤ maxScheduleIntervalSeconds) then
    throw (.invalidData "schedule interval must be between 60 and 31536000 seconds")
  if maxWidth = 0 ∨ maxOutputWidth < maxWidth ∨ ¬(1 ≤ jpegQuality ∧ jpegQuality ≤ 100) then
    throw (.invalidData "schedule image settings are outside the supported range")
  if inputCount = 0 ∨ maxFilesPerJob < inputCount then
    throw (.invalidData "schedule must contain between 1 and 10 inputs")

/-- `NewSchedule::validate`. -/
def NewSchedule.validate (request : NewSchedule) : Except RepositoryError Unit :=
  validateScheduleFields request.intervalSeconds request.maxWidth request.jpegQuality
    request.inputs.length

/-- `UpdateSchedule::validate`. -/
def UpdateSchedule.validate (request : UpdateSchedule) : Except RepositoryError Unit :=
  validateScheduleFields request.intervalSeconds request.maxWidth request.jpegQuality 1

/-! ### Creation -/

/-- The row that `create_schedule` inserts. -/
def NewSchedule.row (request : NewSchedule) (name : String) (now : ℤ) (id : ℕ) : ScheduleRow where
  id := id
  name := name
  enabled := true
  intervalSeconds := request.intervalSeconds
  anchorAt := bindTimestamp request.anchorAt
  nextRunAt := bindTimestamp request.anchorAt
  priority := request.priority
  maxWidth := request.maxWidth
  jpegQuality := request.jpegQuality
  createdAt := now
  updatedAt := now
  ownerUserId := request.ownerUserId

/-- The row that `insert_schedule_input` inserts. -/
def NewInputArtifact.scheduleRow (input : NewInputArtifact) (scheduleId itemIndex : ℕ)
    (displayName : String) (now : ℤ) (id : ℕ) : ScheduleInputRow where
  id := id
  scheduleId := scheduleId
  itemIndex := itemIndex
  storageKey := input.storageKey
  displayName := displayName
  mediaType := input.mediaType
  byteSize := input.byteSize
  width := input.width
  height := input.height
  createdAt := now
  checksumSha256 := some input.checksumSha256

/-- `insert_schedule_input`. -/
def insertScheduleInput (scheduleId itemIndex : ℕ) (input : NewInputArtifact) (now : ℤ) :
    Tx Unit := do
  let _ ← encodeU64 input.byteSize "schedule input byte size"
  let _ ← encodeU32 input.width "schedule input width"
  let _ ← encodeU32 input.height "schedule input height"
  let _ ← textParam input.storageKey
  let displayName ← varcharParam 255 input.displayName
  let _ ← textParam input.mediaType
  insertScheduleInputRow (input.scheduleRow scheduleId itemIndex displayName now)

/-- The loop over the inputs, from an item index on. -/
def insertScheduleInputs (scheduleId : ℕ) (now : ℤ) : ℕ → List NewInputArtifact → Tx Unit
  | _, [] => pure ()
  | itemIndex, input :: rest => do
      insertScheduleInput scheduleId itemIndex input now
      insertScheduleInputs scheduleId now (itemIndex + 1) rest

/-- The transaction of `create_schedule`. -/
def createScheduleTx (request : NewSchedule) (now : ℤ) : Tx ℕ := do
  let name ← varcharParam 100 request.name.asStr
  let _ ← encodeU32 request.intervalSeconds "schedule interval"
  let _ ← encodeU32 request.maxWidth "schedule max width"
  let id ← insertSchedule (request.row name now)
  insertScheduleInputs id now 0 request.inputs
  return id

/-- `create_schedule` up to its read-back of the committed rows. -/
def createSchedule (request : NewSchedule) (now : ℤ) : Session ScheduleId := do
  request.validate
  let id ← commit (createScheduleTx request now)
  decodeScheduleId id

/-! ### Edits -/

/-- The UPDATE of `update_schedule_at_with_owner`. -/
def ScheduleRow.edited (request : UpdateSchedule) (name : String) (nextRunAt now : ℤ)
    (r : ScheduleRow) : ScheduleRow :=
  { r with
    name
    enabled := request.enabled
    intervalSeconds := request.intervalSeconds
    anchorAt := bindTimestamp request.anchorAt
    nextRunAt := bindTimestamp nextRunAt
    priority := request.priority
    maxWidth := request.maxWidth
    jpegQuality := request.jpegQuality
    updatedAt := now }

/-- The statement of `update_schedule_at_with_owner`, with the number of rows affected. -/
def updateScheduleTx (id : ScheduleId) (request : UpdateSchedule) (nextRunAt : ℤ)
    (owner : Option ℕ) (now : ℤ) : Tx ℕ := do
  let name ← varcharParam 100 request.name.asStr
  let _ ← encodeU32 request.intervalSeconds "schedule interval"
  let _ ← encodeU32 request.maxWidth "schedule max width"
  updateSchedules
    (fun r => r.id == id.get && owner.all fun u => r.ownerUserId == u)
    (ScheduleRow.edited request name nextRunAt now)

/-- `update_schedule_at_with_owner` up to its read-back; `false` is `Ok(None)`. -/
def updateScheduleAtWithOwner (id : ScheduleId) (request : UpdateSchedule) (asOf : ℤ)
    (owner : Option ℕ) (now : ℤ) : Session Bool := do
  request.validate
  let nextRunAt ← nextSlotAfter request.anchorAt request.intervalSeconds asOf
  let updated ← commit (updateScheduleTx id request nextRunAt owner now)
  return updated != 0

/-! ### Materialization -/

structure ScheduleTick where
  scheduleId : ScheduleId
  scheduledFor : ℤ
  outcome : ScheduleOccurrenceOutcome
  jobId : Option JobId
  coalescedSlots : ℕ
  deriving DecidableEq

/-- The schedule that `FOR UPDATE SKIP LOCKED LIMIT 1` selects when others hold locks on
`locked`. -/
def scheduleCandidate (db : Db) (asOf : ℤ) (locked : List ℕ) : Option ScheduleRow :=
  Table.leastBy (fun s => toLex (s.nextRunAt, s.id))
    (db.schedules.rows.filter fun s =>
      s.enabled && decide (s.nextRunAt ≤ asOf) && !locked.contains s.id)

def inputOrder (a b : ScheduleInputRow) : Prop := a.itemIndex ≤ b.itemIndex

instance : DecidableRel inputOrder := fun a b => by
  unfold inputOrder
  infer_instance

/-- The inputs of a schedule, `ORDER BY item_index`. -/
def scheduleInputsOf (db : Db) (scheduleId : ℕ) : List ScheduleInputRow :=
  (db.scheduleInputs.rows.filter fun i => i.scheduleId == scheduleId).insertionSort inputOrder

/-- `EXISTS (SELECT 1 FROM jobs WHERE schedule_id = $1 AND state IN (...))`. -/
def hasOverlap (db : Db) (scheduleId : ℕ) : Bool :=
  db.jobs.rows.any fun r => r.scheduleId == some scheduleId && !r.state.isTerminal

/-- The job row of an occurrence. -/
def ScheduleRow.jobRow (candidate : ScheduleRow) (scheduledFor : ℤ) (inputCount : ℕ) (now : ℤ)
    (id : ℕ) : JobRow :=
  { JobRow.defaults id candidate.name now with
    jobType := .imageResize
    availableAt := scheduledFor
    progressTotal := inputCount
    maxWidth := some candidate.maxWidth
    jpegQuality := some candidate.jpegQuality
    priority := candidate.priority
    scheduleId := some candidate.id
    scheduledFor := some scheduledFor
    ownerUserId := candidate.ownerUserId }

/-- A schedule input copied into an occurrence's job. -/
def ScheduleInputRow.artifact (source : ScheduleInputRow) (jobId : ℕ) (now : ℤ) (id : ℕ) :
    ArtifactRow where
  id := id
  jobId := jobId
  attemptId := none
  sourceArtifactId := none
  kind := .input
  itemIndex := source.itemIndex
  storageKey := source.storageKey
  displayName := source.displayName
  mediaType := source.mediaType
  byteSize := source.byteSize
  width := source.width
  height := source.height
  createdAt := now
  checksumSha256 := source.checksumSha256

/-- `INSERT INTO artifacts ... SELECT` over the schedule's inputs. -/
def copyScheduleInputs (jobId : ℕ) (now : ℤ) : List ScheduleInputRow → Tx Unit
  | [] => pure ()
  | source :: rest => do
      insertArtifact (source.artifact jobId now)
      copyScheduleInputs jobId now rest

/-- The row that a materialization records. -/
def occurrenceRow (scheduleId : ℕ) (scheduledFor : ℤ) (jobId : Option ℕ) (coalescedSlots : ℕ)
    (now : ℤ) (id : ℕ) : ScheduleOccurrenceRow where
  id := id
  scheduleId := scheduleId
  scheduledFor := scheduledFor
  outcome := if jobId.isSome then .created else .skippedOverlap
  jobId := jobId
  reason := if jobId.isSome then none else some overlapReason
  coalescedSlots := coalescedSlots
  createdAt := now

/-- The job of an occurrence, none when an earlier one is still active. -/
def materializeJob (candidate : ScheduleRow) (scheduledFor : ℤ) (inputCount : ℕ) (now : ℤ) :
    Tx (Option JobId) := do
  let db ← get
  if hasOverlap db candidate.id then return none
  let id ← insertJob (candidate.jobRow scheduledFor inputCount now)
  let sources := scheduleInputsOf db candidate.id
  copyScheduleInputs id now sources
  if sources.length ≠ inputCount then
    throw (.stateConflict "copy schedule inputs into occurrence")
  let jobId ← decodeJobId id
  return some jobId

/-- The transaction of `materialize_next_schedule_at` on its candidate. -/
def materializeCandidate (candidate : ScheduleRow) (asOf now : ℤ) :
    Tx (ℤ × Option JobId × ℕ) := do
  let (scheduledFor, nextRunAt, coalescedSlots) ←
    latestDueSlot candidate.nextRunAt candidate.intervalSeconds asOf
  let inputCount := (scheduleInputsOf (← get) candidate.id).length
  if inputCount = 0 ∨ maxFilesPerJob < inputCount then
    throw (.invalidData "schedule input count violates its invariant")
  let jobId ← materializeJob candidate scheduledFor inputCount now
  let _ ← encodeU64 coalescedSlots "coalesced slots"
  insertOccurrence
    (occurrenceRow candidate.id scheduledFor (jobId.map JobId.get) coalescedSlots now)
  let advanced ← updateSchedules (fun r => r.id == candidate.id)
    fun r => { r with nextRunAt, updatedAt := now }
  ensureOneRow advanced "advance schedule cursor"
  return (scheduledFor, jobId, coalescedSlots)

/-- The transaction of `materialize_next_schedule_at`. -/
def materializeNextScheduleTx (asOf : ℤ) (locked : List ℕ) (now : ℤ) :
    Tx (Option (ScheduleRow × ℤ × Option JobId × ℕ)) := do
  match scheduleCandidate (← get) (bindTimestamp asOf) locked with
  | none => return none
  | some candidate => do
      let tick ← materializeCandidate candidate asOf now
      return some (candidate, tick)

/-- `materialize_next_schedule_at`. -/
def materializeNextScheduleAt (asOf : ℤ) (locked : List ℕ) (now : ℤ) :
    Session (Option ScheduleTick) := do
  match ← commit (materializeNextScheduleTx asOf locked now) with
  | none => return none
  | some (candidate, scheduledFor, jobId, coalescedSlots) => do
      let scheduleId ← decodeScheduleId candidate.id
      return some
        { scheduleId, scheduledFor, jobId, coalescedSlots
          outcome := if jobId.isSome then .created else .skippedOverlap }

end TaskHarbor
