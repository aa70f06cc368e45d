import TaskHarbor.Api.Error
import TaskHarbor.Repository.Maintenance
import TaskHarbor.Repository.Records

/-! `upload.rs`: the two upload handlers. A request's fields arrive in any order and in chunks of
any size; a field, and the request, may break off. `stage_fields` writes every image to a fresh
batch directory before it knows whether the request is acceptable. -/
namespace TaskHarbor

open Transaction

def maxTextFieldBytes : ℕ := 512

def maxFileBytes : ℕ := 5 * 1024 * 1024

def maxTotalFileBytes : ℕ := 25 * 1024 * 1024

def defaultOutputWidth : ℕ := 1600

def defaultJpegQuality : ℕ := 85

abbrev ApiSession (α : Type) := Transaction.Session Storage ApiError α

/-! ### Requests -/

/-- The chunks of a field; an incomplete one fails after them. -/
structure UploadField where
  name : Option String
  fileName : Option String
  chunks : List (List UInt8)
  complete : Bool

structure Multipart where
  fields : List UploadField
  complete : Bool

inductive UploadTarget where
  | job
  | schedule
  deriving DecidableEq

structure StagedImageFields where
  name : JobName
  maxWidth : ℕ
  jpegQuality : ℕ
  availableAt : Option ℤ
  priority : JobPriority
  intervalSeconds : Option ℕ
  anchorAt : Option ℤ
  inputs : List NewInputArtifact

/-- What the handlers use of the application: its limits, its storage and its libraries. A SHA-256
digest has 32 bytes. -/
structure AppState where
  storageBudgetBytes : ℕ
  maxActiveJobs : ℕ
  disk : Disk
  images : ImageService
  parseRfc3339 : String → Option ℤ
  sha256 : List UInt8 → Vector UInt8 32

/-- The fresh UUIDs of a request: its batch, and its files in order. -/
structure FreshIds where
  batch : Uuid
  file : ℕ → Uuid

/-! ### Text fields -/

/-- `set_once`. -/
def setOnce {α : Type} (slot : Option α) (value : α) (field : String) :
    Except ApiError (Option α) :=
  match slot with
  | some _ => .error (.uploadValidation "duplicate_field"
      ("multipart field '" ++ field ++ "' can only appear once") field)
  | none => .ok (some value)

/-- The loop of `read_small_text`, after the bytes read so far. -/
def collectSmallText (fieldName : String) :
    List UInt8 → List (List UInt8) → Except ApiError (List UInt8)
  | bytes, [] => .ok bytes
  | bytes, chunk :: rest =>
      if maxTextFieldBytes < bytes.length + chunk.length then
        .error (.uploadValidation "invalid_field" "multipart text field is too long" fieldName)
      else collectSmallText fieldName (bytes ++ chunk) rest

/-- `read_small_text`. -/
def readSmallText (field : UploadField) (fieldName : String) : Except ApiError String := do
  let bytes ← collectSmallText fieldName [] field.chunks
  if ¬field.complete then
    throw (.invalidMultipart "multipart text field could not be read")
  match decodeUtf8 bytes with
  | some text => return text
  | none => throw (.uploadValidation "invalid_field" "multipart text field must be UTF-8" fieldName)

/-- A field that holds one value: its text, what the text stands for, and its only occurrence. -/
def stageText {α : Type} (field : UploadField) (fieldName : String)
    (parse : String → Except ApiError α) (slot : Option α) : Except ApiError (Option α) := do
  let text ← readSmallText field fieldName
  let value ← parse text
  setOnce slot value fieldName

/-- A number in an inclusive range. -/
def parseBounded (typeMax least most : ℕ) (refusal : ApiError) (text : String) :
    Except ApiError ℕ :=
  match parseUnsigned typeMax text with
  | none => .error refusal
  | some value => if least ≤ value ∧ value ≤ most then .ok value else .error refusal

def parseMaxWidth : String → Except ApiError ℕ :=
  parseBounded u32Max 1 maxOutputWidth (.uploadValidation "invalid_max_width"
    ("max width must be between 1 and " ++ toString maxOutputWidth ++ " pixels") "max_width")

def parseJpegQuality : String → Except ApiError ℕ :=
  parseBounded u8Max 1 100 (.uploadValidation "invalid_jpeg_quality"
    "JPEG quality must be between 1 and 100" "jpeg_quality")

/-- `invalid_interval`. -/
def invalidInterval : ApiError :=
  .uploadValidation "invalid_interval" ("interval must be between " ++
    toString minScheduleIntervalSeconds ++ " and " ++ toString maxScheduleIntervalSeconds ++
    " seconds") "interval_seconds"

def parseInterval : String → Except ApiError ℕ :=
  parseBounded u32Max minScheduleIntervalSeconds maxScheduleIntervalSeconds invalidInterval

def parsePriority (text : String) : Except ApiError JobPriority :=
  match JobPriority.fromStr text with
  | some priority => .ok priority
  | none => .error (.uploadValidation "invalid_priority" "priority must be high, normal, or low"
      "priority")

/-- `parse_timestamp`. -/
def parseTimestamp (app : AppState) (field : String) (text : String) : Except ApiError ℤ :=
  match app.parseRfc3339 (trim text) with
  | some timestamp => .ok timestamp
  | none => .error (.uploadValidation "invalid_timestamp"
      "timestamp must be an RFC 3339 value with a UTC offset" field)

/-! ### Images -/

/-- The part of a file name after its last separator, trimmed. -/
def baseName (rawName : String) : List Char :=
  trimBy isWhitespace (rawName.toList.rtakeWhile fun c => c != '/' && c != '\\')

/-- The characters that `safe_display_name` keeps of a file name. -/
def cleanedName (rawName : String) : List Char :=
  ((baseName rawName).filter fun c => !isControl c).take 255

/-- `safe_display_name`. -/
def safeDisplayName (rawName : String) (itemIndex : ℕ) : String :=
  if cleanedName rawName = [] then "image-" ++ toString (itemIndex + 1)
  else String.ofList (cleanedName rawName)

/-- `map_image_error`. -/
def mapImageError (error : ImageError) : ApiError :=
  if error.isInvalidInput then .uploadValidation "invalid_image" error.safeMessage "images"
  else .imageInspection error

/-- The checks of `write_image_field` on a chunk, after `fileBytes` of this file and `totalBytes` of
all files. -/
def admitChunk (app : AppState) (storageUsage fileBytes totalBytes size : ℕ) :
    Except ApiError Unit := do
  if u64Max < fileBytes + size then
    throw (.uploadTooLarge "file_too_large" "uploaded image exceeds the supported size" "images")
  if maxFileBytes < fileBytes + size then
    throw (.uploadTooLarge "file_too_large" "each image must be 5 MiB or smaller" "images")
  if u64Max < totalBytes + size then
    throw (.uploadTooLarge "upload_too_large" "combined image size exceeds the supported limit"
      "images")
  if u64Max < storageUsage + (totalBytes + size) ∨
      app.storageBudgetBytes < storageUsage + (totalBytes + size) then
    throw (.resourceLimit "storage_budget_exceeded"
      "the storage budget does not have enough room for this upload")
  if maxTotalFileBytes < totalBytes + size then
    throw (.uploadTooLarge "upload_too_large" "combined image size must be 25 MiB or smaller"
      "images")

/-- The loop of `write_image_field` over the chunks, after `content`. -/
def writeChunks (app : AppState) (path : Path) (storageUsage totalBytes : ℕ) :
    List UInt8 → List (List UInt8) → ApiSession (List UInt8)
  | content, [] => pure content
  | content, chunk :: rest => do
      admitChunk app storageUsage content.length (totalBytes + content.length) chunk.length
      Session.mapError ApiError.storage (writeAll app.disk path content.length chunk)
      writeChunks app path storageUsage totalBytes (content ++ chunk) rest

/-- `write_image_field`, with the bytes it wrote. -/
def writeImageField (app : AppState) (path : Path) (storageUsage totalBytes : ℕ)
    (field : UploadField) : ApiSession (List UInt8) := do
  let content ← writeChunks app path storageUsage totalBytes [] field.chunks
  if ¬field.complete then throw (.invalidMultipart "uploaded image could not be read")
  if content.length = 0 then
    throw (.uploadValidation "empty_file" "uploaded images cannot be empty" "images")
  return content

/-! ### `stage_fields` -/

/-- The variables of `stage_fields`. -/
structure Staging where
  name : Option String
  maxWidth : Option ℕ
  jpegQuality : Option ℕ
  availableAt : Option ℤ
  priority : Option JobPriority
  intervalSeconds : Option ℕ
  anchorAt : Option ℤ
  inputs : List NewInputArtifact
  totalBytes : ℕ

def Staging.initial : Staging := ⟨none, none, none, none, none, none, none, [], 0⟩

/-- The branch of an `images` field. -/
def stageImage (app : AppState) (batch : UploadBatch) (ids : FreshIds) (storageUsage : ℕ)
    (s : Staging) (field : UploadField) : ApiSession Staging := do
  if maxFilesPerJob ≤ s.inputs.length then
    throw (.uploadValidation "too_many_files"
      ("a job can contain at most " ++ toString maxFilesPerJob ++ " images") "images")
  match field.fileName with
  | none => throw (.uploadValidation "missing_filename" "each image field must include a filename"
      "images")
  | some rawName => do
      let displayName := safeDisplayName rawName s.inputs.length
      let (storageKey, path) ← Session.mapError ApiError.storage
        (batch.createFile app.disk (ids.file s.inputs.length))
      let content ← writeImageField app path storageUsage s.totalBytes field
      Session.mapError ApiError.storage (flush app.disk path)
      let metadata ← Session.mapError mapImageError (inspect app.images storageKey)
      let input : NewInputArtifact :=
        { storageKey, displayName
          mediaType := metadata.mediaType
          byteSize := content.length
          width := metadata.width
          height := metadata.height
          checksumSha256 := (app.sha256 content).toList }
      return { s with inputs := s.inputs ++ [input], totalBytes := s.totalBytes + content.length }

def unexpectedField (fieldName : String) : ApiError :=
  .uploadValidation "unexpected_field" ("multipart field '" ++ fieldName ++ "' is not supported")
    "images"

/-- The branches of the fields other than `images`. -/
def stageValue (app : AppState) (target : UploadTarget) (s : Staging) (field : UploadField)
    (fieldName : String) : Except ApiError Staging :=
  match fieldName, target with
  | "name", _ => do
      let name ← stageText field "name" .ok s.name
      return { s with name }
  | "max_width", _ => do
      let maxWidth ← stageText field "max_width" parseMaxWidth s.maxWidth
      return { s with maxWidth }
  | "jpeg_quality", _ => do
      let jpegQuality ← stageText field "jpeg_quality" parseJpegQuality s.jpegQuality
      return { s with jpegQuality }
  | "priority", _ => do
      let priority ← stageText field "priority" parsePriority s.priority
      return { s with priority }
  | "available_at", .job => do
      let availableAt ← stageText field "available_at" (parseTimestamp app "available_at")
        s.availableAt
      return { s with availableAt }
  | "interval_seconds", .schedule => do
      let intervalSeconds ← stageText field "interval_seconds" parseInterval s.intervalSeconds
      return { s with intervalSeconds }
  | "anchor_at", .schedule => do
      let anchorAt ← stageText field "anchor_at" (parseTimestamp app "anchor_at") s.anchorAt
      return { s with anchorAt }
  | fieldName, _ => .error (unexpectedField fieldName)

/-- One round of the loop of `stage_fields`. -/
def stageField (app : AppState) (batch : UploadBatch) (ids : FreshIds) (target : UploadTarget)
    (storageUsage : ℕ) (s : Staging) (field : UploadField) : ApiSession Staging :=
  let fieldName := field.name.getD ""
  if fieldName = "images" then stageImage app batch ids storageUsage s field
  else liftM (stageValue app target s field fieldName)

/-- The loop of `stage_fields`. -/
def stageAll (app : AppState) (batch : UploadBatch) (ids : FreshIds) (target : UploadTarget)
    (storageUsage : ℕ) : Staging → List UploadField → ApiSession Staging
  | s, [] => pure s
  | s, field :: rest => do
      let s ← stageField app batch ids target storageUsage s field
      stageAll app batch ids target storageUsage s rest

/-- The end of `stage_fields`: required fields and defaults. -/
def Staging.finish (s : Staging) : Except ApiError StagedImageFields := do
  match s.name with
  | none => throw (.uploadValidation "missing_name" "job name is required" "name")
  | some name => do
      let name ← (JobName.new name).mapError ApiError.invalidJobName
      if s.inputs = [] then
        throw (.uploadValidation "missing_images" "select at least one JPEG or PNG image" "images")
      return {
        name
        maxWidth := s.maxWidth.getD defaultOutputWidth
        jpegQuality := s.jpegQuality.getD defaultJpegQuality
        availableAt := s.availableAt
        priority := s.priority.getD .normal
        intervalSeconds := s.intervalSeconds
        anchorAt := s.anchorAt
        inputs := s.inputs }

/-- `stage_fields`. -/
def stageFields (app : AppState) (batch : UploadBatch) (ids : FreshIds) (multipart : Multipart)
    (target : UploadTarget) (storageUsage : ℕ) : ApiSession StagedImageFields := do
  let s ← stageAll app batch ids target storageUsage .initial multipart.fields
  if ¬multipart.complete then
    throw (.invalidMultipart "multipart body could not be read")
  s.finish

/-! ### Fingerprints -/

/-- The last `n` bytes of a number, most significant first. -/
def bigEndian (n value : ℕ) : List UInt8 :=
  (List.range n).map fun i => UInt8.ofNat (value / 256 ^ (n - 1 - i) % 256)

def textBytes (s : String) : List UInt8 := s.toUTF8.data.toList

/-- `fingerprint_part`. -/
def fingerprintPart (value : List UInt8) : List UInt8 :=
  bigEndian 8 (min value.length u64Max) ++ value

/-- `unix_timestamp_nanos` as the bytes of an `i128`. -/
def timestampBytes (timestamp : ℤ) : List UInt8 := bigEndian 16 (timestamp % 2 ^ 128).toNat

def NewInputArtifact.fingerprintParts (input : NewInputArtifact) : List (List UInt8) :=
  [textBytes input.displayName, textBytes input.mediaType, bigEndian 8 input.byteSize,
    bigEndian 4 input.width, bigEndian 4 input.height, input.checksumSha256]

/-- `request_fingerprint`. -/
def requestFingerprint (app : AppState) (request : StagedImageFields) : List UInt8 :=
  let parts := [textBytes request.name.asStr, bigEndian 4 request.maxWidth,
    bigEndian 1 request.jpegQuality, textBytes request.priority.asStr,
    (request.availableAt.map timestampBytes).getD []]
  let inputs := request.inputs.flatMap NewInputArtifact.fingerprintParts
  (app.sha256 ((parts ++ inputs).flatMap fingerprintPart)).toList

/-! ### The handlers -/

/-- `storage_usage`. -/
def storageUsage (app : AppState) : ApiSession ℕ := do
  let usage ← Session.mapError ApiError.storage (usageBytes app.disk)
  if app.storageBudgetBytes ≤ usage then
    throw (.resourceLimit "storage_budget_exceeded"
      "the storage budget is full; wait for retention cleanup before uploading")
  return usage

/-- `let _ = batch.cleanup().await`. -/
def UploadBatch.discard (batch : UploadBatch) (disk : Disk) : ApiSession Unit := fun st =>
  (.ok (), (batch.cleanup disk st).2)

/-- An error of `x` removes the batch before it is returned. -/
def UploadBatch.orDiscard {α : Type} (batch : UploadBatch) (disk : Disk) (x : ApiSession α) :
    ApiSession α :=
  tryCatch x fun e => do
    batch.discard disk
    throw e

/-- What the two handlers do first: the storage budget, the request's form and a batch. -/
def beginRequest (app : AppState) (ids : FreshIds) (multipart : Option Multipart) :
    ApiSession (ℕ × Multipart × UploadBatch) := do
  let usage ← storageUsage app
  match multipart with
  | none => throw (.invalidMultipart "request must be valid multipart form data")
  | some multipart => do
      let batch ← Session.mapError ApiError.storage (beginUpload app.disk ids.batch)
      return (usage, multipart, batch)

/-- The request of `create_image_job` to the repository. -/
def StagedImageFields.imageJob (request : StagedImageFields) (owner : ℕ)
    (idempotency : Option IdempotencyRequest) : NewImageJob where
  ownerUserId := owner
  name := request.name
  maxWidth := request.maxWidth
  jpegQuality := request.jpegQuality
  availableAt := request.availableAt
  priority := request.priority
  inputs := request.inputs
  idempotency := idempotency

/-- The database and its clock at the three repository calls of `create_image_job`. -/
structure Moments where
  lookup : Db
  count : Db
  create : Db
  now : ℤ

/-- The lookup of `create_image_job`. -/
def findReplay (owner : ℕ) (idempotency : Option IdempotencyRequest) (db : Db) :
    Except ApiError (Option JobRecord) :=
  match idempotency with
  | none => .ok none
  | some idempotency => (findIdempotentImageJob owner idempotency db).mapError ApiError.repository

/-- `create_image_job` after its staging. -/
def submitImageJob (app : AppState) (batch : UploadBatch) (owner : ℕ)
    (idempotency : Option IdempotencyRequest) (request : StagedImageFields) (moments : Moments) :
    ApiSession JobRecord := do
  match ← batch.orDiscard app.disk (liftM (findReplay owner idempotency moments.lookup)) with
  | some job => do
      batch.discard app.disk
      return job
  | none => do
      let activeJobs ← batch.orDiscard app.disk
        (liftM ((activeJobCountForOwner owner moments.count).mapError ApiError.repository))
      if app.maxActiveJobs ≤ activeJobs then
        batch.discard app.disk
        throw (.resourceLimit "active_job_limit"
          "finish or cancel an active job before creating another")
      liftM ((createImageJob (request.imageJob owner idempotency) moments.now
        moments.create).1.mapError ApiError.repository)

/-- `create_image_job` of `upload.rs`. -/
def Upload.createImageJob (app : AppState) (ids : FreshIds) (owner : ℕ)
    (idempotencyKey : Option String) (multipart : Option Multipart) (moments : Moments) :
    ApiSession JobRecord := do
  let (usage, multipart, batch) ← beginRequest app ids multipart
  let request ← batch.orDiscard app.disk (stageFields app batch ids multipart .job usage)
  let idempotency := idempotencyKey.map fun key =>
    (⟨key, requestFingerprint app request⟩ : IdempotencyRequest)
  submitImageJob app batch owner idempotency request moments

/-- The request of `create_schedule` to the repository. -/
def StagedImageFields.schedule (request : StagedImageFields) (owner : ℕ) :
    Except ApiError NewSchedule := do
  match request.intervalSeconds with
  | none => throw (.uploadValidation "missing_interval" "schedule interval is required"
      "interval_seconds")
  | some intervalSeconds =>
      match request.anchorAt with
      | none => throw (.uploadValidation "missing_anchor" "schedule anchor time is required"
          "anchor_at")
      | some anchorAt => return {
          ownerUserId := owner
          name := request.name
          intervalSeconds
          anchorAt
          priority := request.priority
          maxWidth := request.maxWidth
          jpegQuality := request.jpegQuality
          inputs := request.inputs }

/-- `create_schedule` of `upload.rs`, on the database at its only repository call. -/
def Upload.createSchedule (app : AppState) (ids : FreshIds) (owner : ℕ)
    (multipart : Option Multipart) (db : Db) (now : ℤ) : ApiSession ScheduleRecord := do
  let (usage, multipart, batch) ← beginRequest app ids multipart
  let request ← batch.orDiscard app.disk (stageFields app batch ids multipart .schedule usage)
  let schedule ← request.schedule owner
  liftM ((createScheduleRecord schedule now db).1.mapError ApiError.repository)

/-! ### `http.rs` -/

/-- `HeaderValue::to_str`, empty where it fails. -/
def headerText (value : List UInt8) : String :=
  if value.all fun b => b == 9 || (32 ≤ b && b ≤ 126) then
    String.ofList (value.map fun b => Char.ofNat b.toNat)
  else ""

/-- `parse_idempotency_key`. -/
def parseIdempotencyKey : Option (List UInt8) → Except ApiError (Option String)
  | none => .ok none
  | some value =>
      let key := trim (headerText value)
      if key = "" ∨ 128 < key.utf8ByteSize then
        .error (.uploadValidation "invalid_idempotency_key"
          "Idempotency-Key must contain between 1 and 128 visible characters" "idempotency_key")
      else .ok (some key)

/-- `POST jobs`; `limited` is the limiter's refusal. -/
def postJobs (app : AppState) (ids : FreshIds) (owner : ℕ) (limited : Option ℕ)
    (header : Option (List UInt8)) (multipart : Option Multipart) (moments : Moments) :
    ApiSession JobRecord := do
  if let some retryAfter := limited then throw (.rateLimited retryAfter)
  let idempotencyKey ← parseIdempotencyKey header
  Upload.createImageJob app ids owner idempotencyKey multipart moments

/-- `POST schedules`. -/
def postSchedules (app : AppState) (ids : FreshIds) (owner : ℕ) (limited : Option ℕ)
    (multipart : Option Multipart) (db : Db) (now : ℤ) : ApiSession ScheduleRecord := do
  if let some retryAfter := limited then throw (.rateLimited retryAfter)
  Upload.createSchedule app ids owner multipart db now

end TaskHarbor
