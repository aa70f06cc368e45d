import TaskHarbor.Repository.Lifecycle

/-! `image_repository.rs`: image jobs, downloads, progress, publication. -/
namespace TaskHarbor

open Relational Transaction

def maxFilesPerJob : ℕ := 10

def maxOutputWidth : ℕ := 8192

/-! ### Requests -/

structure IdempotencyRequest where
  key : String
  fingerprint : List UInt8
  deriving DecidableEq

structure NewInputArtifact where
  storageKey : String
  displayName : String
  mediaType : String
  byteSize : ℕ
  width : ℕ
  height : ℕ
  checksumSha256 : List UInt8
  deriving DecidableEq

structure NewImageJob where
  ownerUserId : ℕ
  name : JobName
  maxWidth : ℕ
  jpegQuality : ℕ
  availableAt : Option ℤ
  priority : JobPriority
  inputs : List NewInputArtifact
  idempotency : Option IdempotencyRequest

structure PendingOutputArtifact where
  sourceArtifactId : ℕ
  itemIndex : ℕ
  storageKey : String
  displayName : String
  mediaType : String
  byteSize : ℕ
  width : ℕ
  height : ℕ
  deriving DecidableEq

/-- The idempotency part of `NewImageJob::validate`. `str::len` counts UTF-8 bytes. -/
def IdempotencyRequest.validate (request : IdempotencyRequest) : Except RepositoryError Unit :=
  if request.key.isEmpty ∨ 128 < request.key.utf8ByteSize ∨ request.fingerprint.length ≠ 32 then
    .error (.invalidData "idempotency data is outside the supported range")
  else .ok ()

/-- `NewImageJob::validate`. -/
def NewImageJob.validate (request : NewImageJob) : Except RepositoryError Unit := do
  if request.inputs.isEmpty ∨ maxFilesPerJob < request.inputs.length then
    throw (.invalidData ("image job must contain between 1 and " ++ toString maxFilesPerJob ++
      " inputs"))
  if request.maxWidth = 0 ∨ maxOutputWidth < request.maxWidth ∨
      ¬(1 ≤ request.jpegQuality ∧ request.jpegQuality ≤ 100) then
    throw (.invalidData "image settings are outside the supported range")
  match request.idempotency with
  | none => return ()
  | some idempotency => idempotency.validate

/-! ### Creation -/

/-- The row under the owner's idempotency key. -/
def idempotentRow (db : Db) (owner : ℕ) (key : String) : Option JobRow :=
  db.jobs.rows.find? fun r => r.ownerUserId == owner && r.idempotencyKey == some key

/-- A key may be replayed with its first fingerprint only. -/
def replay (row : JobRow) (idempotency : IdempotencyRequest) : Except RepositoryError ℕ :=
  if row.requestFingerprint = some idempotency.fingerprint then .ok row.id
  else .error .idempotencyConflict

/-- `get(...).await?.ok_or(StateConflict(operation))`. -/
def readBack (id : ℕ) (owner : Option ℕ) (operation : String) (db : Db) :
    Except RepositoryError JobRecord := do
  let jobId ← decodeJobId id
  match ← getWithOwner jobId owner db with
  | some record => return record
  | none => throw (.stateConflict operation)

/-- `find_idempotent_image_job`. -/
def findIdempotentImageJob (owner : ℕ) (idempotency : IdempotencyRequest) (db : Db) :
    Except RepositoryError (Option JobRecord) := do
  idempotency.validate
  match idempotentRow db owner idempotency.key with
  | none => return none
  | some row => do
      let id ← replay row idempotency
      let record ← readBack id (some owner) "read idempotent image job" db
      return some record

/-- The job row that `create_image_job` inserts. -/
def NewImageJob.row (request : NewImageJob) (name : String) (now : ℤ) (id : ℕ) : JobRow :=
  { JobRow.defaults id name now with
    jobType := .imageResize
    availableAt := (request.availableAt.map bindTimestamp).getD now
    priority := request.priority
    progressTotal := request.inputs.length
    maxWidth := some request.maxWidth
    jpegQuality := some request.jpegQuality
    ownerUserId := request.ownerUserId
    idempotencyKey := request.idempotency.map IdempotencyRequest.key
    requestFingerprint := request.idempotency.map IdempotencyRequest.fingerprint }

theorem NewImageJob.row_id (request : NewImageJob) (name : String) (now : ℤ) (id : ℕ) :
    (request.row name now id).id = id := rfl

/-- The input row that `insert_input_artifact` inserts. -/
def NewInputArtifact.row (input : NewInputArtifact) (jobId itemIndex : ℕ) (displayName : String)
    (now : ℤ) (id : ℕ) : ArtifactRow where
  id := id
  jobId := jobId
  attemptId := none
  sourceArtifactId := none
  kind := .input
  itemIndex := itemIndex
  storageKey := input.storageKey
  displayName := displayName
  mediaType := input.mediaType
  byteSize := input.byteSize
  width := input.width
  height := input.height
  createdAt := now
  checksumSha256 := some input.checksumSha256

/-- `insert_input_artifact`. -/
def insertInputArtifact (jobId itemIndex : ℕ) (input : NewInputArtifact) (now : ℤ) : Tx Unit := do
  let _ ← encodeU64 input.byteSize "input byte size"
  let _ ← encodeU32 input.width "input width"
  let _ ← encodeU32 input.height "input height"
  let _ ← textParam input.storageKey
  let displayName ← varcharParam 255 input.displayName
  let _ ← textParam input.mediaType
  insertArtifact (input.row jobId itemIndex displayName now)

/-- The loop over the inputs, from an item index on. -/
def insertInputArtifacts (jobId : ℕ) (now : ℤ) : ℕ → List NewInputArtifact → Tx Unit
  | _, [] => pure ()
  | itemIndex, input :: rest => do
      insertInputArtifact jobId itemIndex input now
      insertInputArtifacts jobId now (itemIndex + 1) rest

/-- What the transaction of `create_image_job` found or made. -/
inductive Creation where
  | existing (id : ℕ)
  | created (id : ℕ)

/-- The lookup that `create_image_job` makes under its advisory lock. -/
def existingImageJob (request : NewImageJob) (db : Db) : Except RepositoryError (Option ℕ) :=
  match request.idempotency with
  | none => .ok none
  | some idempotency => do
      let key ← textParam idempotency.key
      match idempotentRow db request.ownerUserId key with
      | none => return none
      | some row => do
          let id ← replay row idempotency
          return some id

/-- The transaction of `create_image_job`. -/
def createImageJobTx (request : NewImageJob) (now : ℤ) : Tx Creation := do
  match ← existingImageJob request (← get) with
  | some id => return .existing id
  | none => do
      let name ← varcharParam 100 request.name.asStr
      let id ← insertJob (request.row name now) (request.row_id name now)
      insertInputArtifacts id now 0 request.inputs
      return .created id

/-- `create_image_job`. -/
def createImageJob (request : NewImageJob) (now : ℤ) : Session JobRecord := do
  request.validate
  match ← commit (createImageJobTx request now) with
  | .existing id =>
      query (readBack id (some request.ownerUserId) "read idempotent image job")
  | .created id => query (readBack id none "read created image job")

/-! ### Downloads -/

/-- The join of a download: an output of a succeeded job that the caller may see. -/
def ArtifactRow.downloadable (db : Db) (owner : Option ℕ) (row : ArtifactRow) : Bool :=
  row.kind == .output &&
    (db.jobs.get? row.jobId).any fun r => r.state == .succeeded && ownedBy owner r

/-- `get_downloadable_artifact_with_owner`. -/
def getDownloadableArtifactWithOwner (artifactId : ℕ) (owner : Option ℕ) (db : Db) :
    Except RepositoryError (Option ArtifactRecord) := do
  let artifactId ← encodeU64 artifactId "artifact ID"
  match (db.artifacts.get? artifactId).filter (ArtifactRow.downloadable db owner) with
  | none => return none
  | some row => do
      let record ← ArtifactRecord.tryFrom row
      return some record

/-! ### Progress -/

/-- `$completed BETWEEN progress_completed AND progress_total`. -/
def betweenProgress (completed progressCompleted progressTotal : ℕ) : Bool :=
  progressCompleted ≤ completed && completed ≤ progressTotal

/-- The transaction of `update_progress`. -/
def updateProgressTx (claimed : ClaimedJob) (completed : ℕ) (now : ℤ) : Tx Unit := do
  let attempt ← updateAttempts
    (fun a => claimed.fences now a && betweenProgress completed a.progressCompleted a.progressTotal)
    fun a => { a with progressCompleted := completed }
  ensureClaimRow attempt
  let job ← updateJobs
    (fun r => r.isAt claimed.jobId.get .running &&
      betweenProgress completed r.progressCompleted r.progressTotal)
    fun r => { r with progressCompleted := completed }
  ensureOneRow job "update job progress"

/-- `update_progress`. -/
def updateProgress (claimed : ClaimedJob) (completed : ℕ) (now : ℤ) : Session Unit := do
  if i32Max < completed then throw (.invalidData "progress exceeds INTEGER")
  commit (updateProgressTx claimed completed now)

/-- The statement of `record_encoding_duration`; `BIGINT` addition overflows with an error. -/
def recordEncodingDurationTx (claimed : ClaimedJob) (durationMs : ℕ) (now : ℤ) : Tx Unit := do
  if (← get).jobAttempts.rows.any fun a =>
      claimed.fences now a && decide (i64Max < a.encodingDurationMs + durationMs) then
    throw (.database "bigint out of range")
  let updated ← updateAttempts (claimed.fences now)
    fun a => { a with encodingDurationMs := a.encodingDurationMs + durationMs }
  ensureClaimRow updated

/-- `record_encoding_duration`. -/
def recordEncodingDuration (claimed : ClaimedJob) (duration : ℕ) (now : ℤ) : Session Unit := do
  if i64Max < duration then throw (.invalidData "encoding duration exceeds BIGINT")
  commit (recordEncodingDurationTx claimed duration now)

/-! ### Publication -/

/-- The output row that `insert_output_artifact` inserts for a source row. -/
def PendingOutputArtifact.row (output : PendingOutputArtifact) (jobId attemptId : ℕ)
    (source : ArtifactRow) (displayName : String) (now : ℤ) (id : ℕ) : ArtifactRow where
  id := id
  jobId := jobId
  attemptId := some attemptId
  sourceArtifactId := some source.id
  kind := .output
  itemIndex := output.itemIndex
  storageKey := output.storageKey
  displayName := displayName
  mediaType := output.mediaType
  byteSize := output.byteSize
  width := output.width
  height := output.height
  createdAt := now
  checksumSha256 := none

/-- The source row that the INSERT selects: this job's input with the same item index. -/
def PendingOutputArtifact.source (output : PendingOutputArtifact) (jobId : ℕ) (db : Db) :
    Option ArtifactRow :=
  (db.artifacts.get? output.sourceArtifactId).filter fun source =>
    source.jobId == jobId && source.kind == .input && source.itemIndex == output.itemIndex

/-- Binding the parameters of `insert_output_artifact`; the result is the stored display name. -/
def PendingOutputArtifact.encode (output : PendingOutputArtifact) :
    Except RepositoryError String := do
  if i16Max < output.itemIndex then
    throw (.invalidData "output item index exceeds SMALLINT")
  let _ ← encodeU64 output.byteSize "output byte size"
  let _ ← encodeU32 output.width "output width"
  let _ ← encodeU32 output.height "output height"
  let _ ← encodeU64 output.sourceArtifactId "source artifact ID"
  let _ ← textParam output.storageKey
  let _ ← textParam output.mediaType
  textParam output.displayName

/-- `insert_output_artifact`. The length of a display name is enforced when a row is stored. -/
def insertOutputArtifact (jobId attemptId : ℕ) (output : PendingOutputArtifact) (now : ℤ) :
    Tx Unit := do
  let displayName ← output.encode
  match output.source jobId (← get) with
  | none => throw (.stateConflict "publish output artifact")
  | some source => do
      let displayName ← varcharParam 255 displayName
      insertArtifact (output.row jobId attemptId source displayName now)

/-- The loop over the outputs. -/
def insertOutputArtifacts (jobId attemptId : ℕ) (now : ℤ) : List PendingOutputArtifact → Tx Unit
  | [] => pure ()
  | output :: rest => do
      insertOutputArtifact jobId attemptId output now
      insertOutputArtifacts jobId attemptId now rest

/-- `lock_active_claim`: the fencing predicate, and the job is running. -/
def lockActiveClaim (claimed : ClaimedJob) (now : ℤ) : Tx Unit := do
  let db ← get
  let active := db.jobAttempts.rows.any (claimed.fences now) &&
    (db.jobs.get? claimed.jobId.get).any fun r => r.state == .running
  if active then return () else throw .claimLost

/-- `complete_attempt`. -/
def completeAttempt (claimed : ClaimedJob) (durationMs : ℕ) (now : ℤ) : Tx Unit := do
  let attempt ← updateAttempts (claimed.fences now) (AttemptRow.completed now durationMs)
    (AttemptRow.completed_key now durationMs)
  ensureClaimRow attempt

/-- The result text of `complete_image_job`. -/
def resizedMessage (count : ℕ) : String :=
  toString count ++ " " ++ (if count = 1 then "image" else "images") ++ " resized"

/-- The transaction of `complete_image_job`. -/
def completeImageJobTx (claimed : ClaimedJob) (inputCount durationMs : ℕ)
    (outputs : List PendingOutputArtifact) (now : ℤ) : Tx Unit := do
  lockActiveClaim claimed now
  insertOutputArtifacts claimed.jobId.get claimed.attemptId now outputs
  completeAttempt claimed durationMs now
  let job ← updateJobs
    (fun r => r.isAt claimed.jobId.get .running && r.jobType == .imageResize)
    (JobRow.completed now durationMs (resizedMessage inputCount))
  ensureOneRow job "complete image job"

/-- `complete_image_job`. -/
def completeImageJob (claimed : ClaimedJob) (duration : ℕ) (outputs : List PendingOutputArtifact)
    (now : ℤ) : Session Unit := do
  match claimed.work with
  | .demoDelay _ => throw (.invalidData "demo job cannot publish image outputs")
  | .imageResize _ _ inputs => do
      if outputs.length ≠ inputs.length then
        throw (.invalidData "output count does not match input count")
      let durationMs ← encodeDuration duration
      commit (completeImageJobTx claimed inputs.length durationMs outputs now)

end TaskHarbor
