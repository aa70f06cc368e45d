import TaskHarbor.Core.Job
import TaskHarbor.Core.Time
import TaskHarbor.Library.Table
import TaskHarbor.Library.Transaction

/-! The schema after all migrations. Integer columns are natural numbers: a CHECK keeps each of
them nonnegative. Columns with a CHECK over a list of words are enumerations: the words in the SQL
texts, the lists of the CHECKs and the arms of `from_str` and `try_from` were compared, and they are
the same, so no stored word fails to parse. The other CHECKs are lists of named tests. Every INSERT
runs them; the UPDATEs of the program set constants, guarded counts and validated settings, which
meet them. -/
namespace TaskHarbor

open Relational Transaction

/-! ### Rows -/

structure WorkerRow where
  id : Uuid
  name : String
  concurrencyLimit : ℕ
  leaseDurationSeconds : ℕ
  startedAt : ℤ
  lastHeartbeatAt : ℤ
  heartbeatExpiresAt : ℤ
  stoppedAt : Option ℤ
  deriving DecidableEq

structure JobRow where
  id : ℕ
  name : String
  jobType : JobType
  state : JobStatus
  availableAt : ℤ
  progressCompleted : ℕ
  progressTotal : ℕ
  delayMs : ℕ
  resultMessage : Option String
  resultDurationMs : Option ℕ
  createdAt : ℤ
  startedAt : Option ℤ
  finishedAt : Option ℤ
  maxWidth : Option ℕ
  jpegQuality : Option ℕ
  failureMessage : Option String
  maxAttempts : ℕ
  retryOfJobId : Option ℕ
  cancelRequestedAt : Option ℤ
  priority : JobPriority
  scheduleId : Option ℕ
  scheduledFor : Option ℤ
  ownerUserId : ℕ
  idempotencyKey : Option String
  requestFingerprint : Option (List UInt8)
  outputsExpiredAt : Option ℤ
  deriving DecidableEq

structure AttemptRow where
  id : ℕ
  jobId : ℕ
  attemptNumber : ℕ
  state : AttemptStatus
  progressCompleted : ℕ
  progressTotal : ℕ
  startedAt : ℤ
  finishedAt : Option ℤ
  durationMs : Option ℕ
  errorMessage : Option String
  errorKind : Option ErrorKind
  workerId : Option Uuid
  claimToken : Option Uuid
  leaseExpiresAt : Option ℤ
  queueWaitMs : ℕ
  encodingDurationMs : ℕ
  deriving DecidableEq

structure ArtifactRow where
  id : ℕ
  jobId : ℕ
  attemptId : Option ℕ
  sourceArtifactId : Option ℕ
  kind : ArtifactKind
  itemIndex : ℕ
  storageKey : String
  displayName : String
  mediaType : String
  byteSize : ℕ
  width : ℕ
  height : ℕ
  createdAt : ℤ
  checksumSha256 : Option (List UInt8)
  deriving DecidableEq

structure ScheduleRow where
  id : ℕ
  name : String
  enabled : Bool
  intervalSeconds : ℕ
  anchorAt : ℤ
  nextRunAt : ℤ
  priority : JobPriority
  maxWidth : ℕ
  jpegQuality : ℕ
  createdAt : ℤ
  updatedAt : ℤ
  ownerUserId : ℕ
  deriving DecidableEq

structure ScheduleInputRow where
  id : ℕ
  scheduleId : ℕ
  itemIndex : ℕ
  storageKey : String
  displayName : String
  mediaType : String
  byteSize : ℕ
  width : ℕ
  height : ℕ
  createdAt : ℤ
  checksumSha256 : Option (List UInt8)
  deriving DecidableEq

inductive ScheduleOccurrenceOutcome where
  | created
  | skippedOverlap
  deriving DecidableEq, Repr

structure ScheduleOccurrenceRow where
  id : ℕ
  scheduleId : ℕ
  scheduledFor : ℤ
  outcome : ScheduleOccurrenceOutcome
  jobId : Option ℕ
  reason : Option String
  coalescedSlots : ℕ
  createdAt : ℤ
  deriving DecidableEq

instance : Keyed WorkerRow := ⟨WorkerRow.id⟩
instance : Keyed JobRow := ⟨JobRow.id⟩
instance : Keyed AttemptRow := ⟨AttemptRow.id⟩
instance : Keyed ArtifactRow := ⟨ArtifactRow.id⟩
instance : Keyed ScheduleRow := ⟨ScheduleRow.id⟩
instance : Keyed ScheduleInputRow := ⟨ScheduleInputRow.id⟩
instance : Keyed ScheduleOccurrenceRow := ⟨ScheduleOccurrenceRow.id⟩

@[simp] theorem key_workerRow (r : WorkerRow) : Keyed.key r = r.id := rfl

@[simp] theorem key_jobRow (r : JobRow) : Keyed.key r = r.id := rfl

@[simp] theorem key_attemptRow (r : AttemptRow) : Keyed.key r = r.id := rfl

@[simp] theorem key_artifactRow (r : ArtifactRow) : Keyed.key r = r.id := rfl

@[simp] theorem key_scheduleRow (r : ScheduleRow) : Keyed.key r = r.id := rfl

structure Db where
  workers : Table WorkerRow
  jobs : Table JobRow
  jobAttempts : Table AttemptRow
  artifacts : Table ArtifactRow
  schedules : Table ScheduleRow
  scheduleInputs : Table ScheduleInputRow
  scheduleOccurrences : Table ScheduleOccurrenceRow

/-- The migrated database without rows. -/
def Db.empty : Db :=
  ⟨Table.empty, Table.empty, Table.empty, Table.empty, Table.empty, Table.empty, Table.empty⟩

/-! ### Declared constraints -/

/-- A named CHECK and its value on a row. -/
abbrev Check := String × Bool

def holdsAll (checks : List Check) : Bool := checks.all Prod.snd

/-- Storing a row whose checks are `checks`: PostgreSQL names the first violated constraint. -/
def enforce (checks : List Check) : Except RepositoryError Unit :=
  match checks.find? fun c => !c.2 with
  | some c => .error (.database c.1)
  | none => .ok ()

theorem enforce_ok_iff {checks : List Check} {u : Unit} :
    enforce checks = .ok u ↔ holdsAll checks = true := by
  unfold enforce holdsAll
  cases h : checks.find? fun c => !c.2 with
  | none =>
    have hall : checks.all Prod.snd = true := by
      simpa [List.find?_eq_none, List.all_eq_true] using h
    simp [hall]
  | some c =>
    have hc := List.mem_of_find?_eq_some h
    have hf := List.find?_some h
    have hnall : checks.all Prod.snd = false := by
      rw [List.all_eq_false]
      exact ⟨c, hc, by simpa using hf⟩
    simp [hnall]

def imageMediaType (mediaType : String) : Bool :=
  mediaType == "image/jpeg" || mediaType == "image/png"

def checksumValid (checksum : Option (List UInt8)) : Bool :=
  checksum.all fun bytes => bytes.length == 32

def JobRow.checks (row : JobRow) : List Check :=
  [("jobs_name_valid", btrimLengthBetween 100 row.name),
   ("jobs_progress_valid", decide (0 < row.progressTotal ∧
      row.progressCompleted ≤ row.progressTotal)),
   ("jobs_delay_valid", decide (1 ≤ row.delayMs ∧ row.delayMs ≤ 30000)),
   ("jobs_image_settings_valid",
      match row.jobType with
      | .demoDelay => row.maxWidth.isNone && row.jpegQuality.isNone
      | .imageResize => row.maxWidth.any (fun w => 1 ≤ w && w ≤ 8192) &&
          row.jpegQuality.any fun q => 1 ≤ q && q ≤ 100),
   ("jobs_image_item_count_valid",
      row.jobType != .imageResize || decide (1 ≤ row.progressTotal ∧ row.progressTotal ≤ 10)),
   ("jobs_max_attempts_valid", decide (1 ≤ row.maxAttempts ∧ row.maxAttempts ≤ 10)),
   ("jobs_retry_parent_valid", decide (row.retryOfJobId ≠ some row.id)),
   ("jobs_schedule_origin_valid", row.scheduleId.isSome == row.scheduledFor.isSome),
   ("jobs_idempotency_fields_valid",
      match row.idempotencyKey, row.requestFingerprint with
      | none, none => true
      | some key, some fingerprint =>
          decide (1 ≤ key.length ∧ key.length ≤ 128) && fingerprint.length == 32
      | _, _ => false)]

def ArtifactRow.checks (row : ArtifactRow) : List Check :=
  [("artifacts_item_index_valid", decide (row.itemIndex ≤ 9)),
   ("artifacts_name_valid", btrimLengthBetween 255 row.displayName),
   ("artifacts_media_type_valid", imageMediaType row.mediaType),
   ("artifacts_size_valid", decide (0 < row.byteSize)),
   ("artifacts_dimensions_valid", decide (0 < row.width ∧ 0 < row.height)),
   ("artifacts_relation_valid",
      match row.kind with
      | .input => row.attemptId.isNone && row.sourceArtifactId.isNone
      | .output => row.attemptId.isSome && row.sourceArtifactId.isSome &&
          row.mediaType == "image/jpeg"),
   ("artifacts_checksum_valid", checksumValid row.checksumSha256)]

def ScheduleRow.checks (row : ScheduleRow) : List Check :=
  [("schedules_name_valid", btrimLengthBetween 100 row.name),
   ("schedules_interval_valid",
      decide (60 ≤ row.intervalSeconds ∧ row.intervalSeconds ≤ 31536000)),
   ("schedules_image_settings_valid",
      decide (1 ≤ row.maxWidth ∧ row.maxWidth ≤ 8192 ∧
        1 ≤ row.jpegQuality ∧ row.jpegQuality ≤ 100))]

/-- Unlike `artifacts`, this table bounds neither the item index nor the blankness of a name. -/
def ScheduleInputRow.checks (row : ScheduleInputRow) : List Check :=
  [("schedule_inputs_media_type_valid", imageMediaType row.mediaType),
   ("schedule_inputs_size_valid", decide (0 < row.byteSize)),
   ("schedule_inputs_dimensions_valid", decide (0 < row.width ∧ 0 < row.height)),
   ("schedule_inputs_checksum_valid", checksumValid row.checksumSha256)]

def ScheduleOccurrenceRow.checks (row : ScheduleOccurrenceRow) : List Check :=
  [("schedule_occurrences_result_valid",
      match row.outcome with
      | .created => row.jobId.isSome && row.reason.isNone
      | .skippedOverlap => row.jobId.isNone && row.reason.isSome)]

def WorkerRow.checks (row : WorkerRow) : List Check :=
  [("workers_name_valid", btrimLengthBetween 100 row.name),
   ("workers_concurrency_valid", decide (1 ≤ row.concurrencyLimit ∧ row.concurrencyLimit ≤ 64)),
   ("workers_lease_duration_valid",
      decide (2 ≤ row.leaseDurationSeconds ∧ row.leaseDurationSeconds ≤ 3600)),
   ("workers_heartbeat_window_valid", decide (row.lastHeartbeatAt < row.heartbeatExpiresAt))]

/-- The text a `VARCHAR(n)` parameter stores, or the error of PostgreSQL. -/
def varcharParam (n : ℕ) (s : String) : Except RepositoryError String :=
  if storableText s then
    match storeVarchar n s with
    | some stored => .ok stored
    | none => .error (.database "value too long for type character varying")
  else .error (.database "invalid byte sequence for encoding UTF8: 0x00")

def textParam (s : String) : Except RepositoryError String :=
  if storableText s then .ok s
  else .error (.database "invalid byte sequence for encoding UTF8: 0x00")

/-- An identity column runs out at the largest `BIGINT`. -/
def identityLeft (next : ℕ) : Except RepositoryError Unit :=
  if next ≤ i64Max then .ok () else .error (.database "reached maximum value of sequence")

/-! ### Statements -/

abbrev Tx (α : Type) := Transaction.Tx Db RepositoryError α

abbrev Session (α : Type) := Transaction.Session Db RepositoryError α

/-- `UPDATE jobs SET f WHERE p`, with the number of rows affected. -/
def updateJobs (p : JobRow → Bool) (f : JobRow → JobRow)
    (hf : ∀ r, Keyed.key (f r) = Keyed.key r := by intro r; rfl) : Tx ℕ := fun db =>
  .ok (db.jobs.count p, { db with jobs := db.jobs.update p f hf })

def updateAttempts (p : AttemptRow → Bool) (f : AttemptRow → AttemptRow)
    (hf : ∀ r, Keyed.key (f r) = Keyed.key r := by intro r; rfl) : Tx ℕ := fun db =>
  .ok (db.jobAttempts.count p, { db with jobAttempts := db.jobAttempts.update p f hf })

def updateSchedules (p : ScheduleRow → Bool) (f : ScheduleRow → ScheduleRow)
    (hf : ∀ r, Keyed.key (f r) = Keyed.key r := by intro r; rfl) : Tx ℕ := fun db =>
  .ok (db.schedules.count p, { db with schedules := db.schedules.update p f hf })

def updateWorkers (p : WorkerRow → Bool) (f : WorkerRow → WorkerRow)
    (hf : ∀ r, Keyed.key (f r) = Keyed.key r := by intro r; rfl) : Tx ℕ := fun db =>
  .ok (db.workers.count p, { db with workers := db.workers.update p f hf })

/-- `INSERT INTO jobs`, with the partial unique index on the owner's idempotency keys. -/
def insertJob (mk : ℕ → JobRow) (hk : ∀ n, (mk n).id = n := by intro n; rfl) : Tx ℕ := fun db => do
  identityLeft db.jobs.next
  let row := mk db.jobs.next
  enforce row.checks
  enforce [("jobs_owner_idempotency_unique",
    row.idempotencyKey.isNone || db.jobs.rows.all fun r =>
      !(r.ownerUserId == row.ownerUserId && r.idempotencyKey == row.idempotencyKey))]
  return (db.jobs.next, { db with jobs := db.jobs.insertNew mk hk })

/-- `INSERT INTO job_attempts`. -/
def insertAttempt (mk : ℕ → AttemptRow) (hk : ∀ n, (mk n).id = n := by intro n; rfl) :
    Tx ℕ := fun db => do
  identityLeft db.jobAttempts.next
  let row := mk db.jobAttempts.next
  enforce [("job_attempts_number_valid", decide (0 < row.attemptNumber)),
    ("job_attempts_progress_valid", decide (0 < row.progressTotal ∧
      row.progressCompleted ≤ row.progressTotal)),
    ("job_attempts_job_number_unique", db.jobAttempts.rows.all fun r =>
      !(r.jobId == row.jobId && r.attemptNumber == row.attemptNumber)),
    ("job_attempts_claim_token_unique", db.jobAttempts.rows.all fun r =>
      !(r.claimToken == row.claimToken))]
  return (db.jobAttempts.next, { db with jobAttempts := db.jobAttempts.insertNew mk hk })

/-- `INSERT INTO artifacts`, with the uniqueness of `(job_id, kind, item_index)`. -/
def insertArtifact (mk : ℕ → ArtifactRow) (hk : ∀ n, (mk n).id = n := by intro n; rfl) :
    Tx Unit := fun db => do
  identityLeft db.artifacts.next
  let row := mk db.artifacts.next
  enforce row.checks
  enforce [("artifacts_job_kind_item_unique", db.artifacts.rows.all fun r =>
    !(r.jobId == row.jobId && r.kind == row.kind && r.itemIndex == row.itemIndex))]
  return ((), { db with artifacts := db.artifacts.insertNew mk hk })

def insertSchedule (mk : ℕ → ScheduleRow) (hk : ∀ n, (mk n).id = n := by intro n; rfl) :
    Tx ℕ := fun db => do
  identityLeft db.schedules.next
  enforce (mk db.schedules.next).checks
  return (db.schedules.next, { db with schedules := db.schedules.insertNew mk hk })

def insertScheduleInputRow (mk : ℕ → ScheduleInputRow)
    (hk : ∀ n, (mk n).id = n := by intro n; rfl) : Tx Unit := fun db => do
  identityLeft db.scheduleInputs.next
  let row := mk db.scheduleInputs.next
  enforce row.checks
  enforce [("schedule_inputs_schedule_item_unique", db.scheduleInputs.rows.all fun r =>
    !(r.scheduleId == row.scheduleId && r.itemIndex == row.itemIndex))]
  return ((), { db with scheduleInputs := db.scheduleInputs.insertNew mk hk })

/-- `INSERT INTO schedule_occurrences`, with the uniqueness of `(schedule_id, scheduled_for)`. -/
def insertOccurrence (mk : ℕ → ScheduleOccurrenceRow)
    (hk : ∀ n, (mk n).id = n := by intro n; rfl) : Tx Unit := fun db => do
  identityLeft db.scheduleOccurrences.next
  let row := mk db.scheduleOccurrences.next
  enforce row.checks
  enforce [("schedule_occurrences_slot_unique", db.scheduleOccurrences.rows.all fun r =>
    !(r.scheduleId == row.scheduleId && r.scheduledFor == row.scheduledFor))]
  return ((), { db with scheduleOccurrences := db.scheduleOccurrences.insertNew mk hk })

/-! ### Row counts and codecs -/

/-- `ensure_one_row`. -/
def ensureOneRow (rowsAffected : ℕ) (operation : String) : Except RepositoryError Unit :=
  if rowsAffected = 1 then .ok () else .error (.stateConflict operation)

/-- `ensure_claim_row`. -/
def ensureClaimRow (rowsAffected : ℕ) : Except RepositoryError Unit :=
  if rowsAffected = 1 then .ok () else .error .claimLost

/-- `decode_job_id`. -/
def decodeJobId (value : ℕ) : Except RepositoryError JobId :=
  match JobId.new value with
  | some id => .ok id
  | none => .error (.invalidData "job ID must be a positive signed 64-bit integer")

/-- `decode_schedule_id`. -/
def decodeScheduleId (value : ℕ) : Except RepositoryError ScheduleId :=
  match ScheduleId.new value with
  | some id => .ok id
  | none => .error (.invalidData "schedule ID must be a positive signed 64-bit integer")

/-- `encode_duration` on a duration in whole milliseconds. -/
def encodeDuration (milliseconds : ℕ) : Except RepositoryError ℕ :=
  if milliseconds ≤ i64Max then .ok milliseconds
  else .error (.invalidData "worker duration exceeds BIGINT")

/-- `encode_u64`. -/
def encodeU64 (value : ℕ) (field : String) : Except RepositoryError ℕ :=
  if value ≤ i64Max then .ok value else .error (.invalidData (field ++ " exceeds BIGINT"))

/-- `encode_u32`. -/
def encodeU32 (value : ℕ) (field : String) : Except RepositoryError ℕ :=
  if value ≤ i32Max then .ok value else .error (.invalidData (field ++ " exceeds INTEGER"))

end TaskHarbor
