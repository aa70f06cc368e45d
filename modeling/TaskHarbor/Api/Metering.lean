import TaskHarbor.Api.Accepted
import TaskHarbor.Library.Program

/-! The loop of `stage_fields` as a program that calls out to the storage and to the codec, whatever
they answer. Every call is recorded, and the limits are on the record, so that they hold at every
moment and also of a request that is rejected. -/
namespace TaskHarbor

open Interleaving Transaction

/-! ### Calls -/

/-- The calls about the file of one image, by its index. -/
inductive UploadCall where
  | createFile (index : ℕ)
  | writeAll (index offset : ℕ) (chunk : List UInt8)
  | flush (index : ℕ)
  | inspect (index : ℕ)
  deriving DecidableEq

/-- A new file is known by its storage key. -/
def UploadCall.Reply : UploadCall → Type
  | .createFile _ => Except StorageError String
  | .writeAll _ _ _ => Except StorageError Unit
  | .flush _ => Except StorageError Unit
  | .inspect _ => Except ImageError ImageMetadata

abbrev UploadProgram (α : Type) := ExceptT ApiError (Program UploadCall UploadCall.Reply) α

namespace UploadProgram

/-- A call with the error that `map_err` makes of its reply. -/
def request {α : Type} (q : UploadCall) (reply : q.Reply → Except ApiError α) : UploadProgram α :=
  ExceptT.mk (.call q fun r => .done (reply r))

def createFile (n : ℕ) : UploadProgram String :=
  request (.createFile n) (Except.mapError ApiError.storage)

def writeAll (n offset : ℕ) (chunk : List UInt8) : UploadProgram Unit :=
  request (.writeAll n offset chunk) (Except.mapError ApiError.storage)

def flush (n : ℕ) : UploadProgram Unit := request (.flush n) (Except.mapError ApiError.storage)

def inspect (n : ℕ) : UploadProgram ImageMetadata :=
  request (.inspect n) (Except.mapError mapImageError)

/-! ### The loop -/

/-- The loop of `write_image_field` for the file with index `n`. -/
def writeChunks (app : AppState) (n storageUsage totalBytes : ℕ) :
    List UInt8 → List (List UInt8) → UploadProgram (List UInt8)
  | content, [] => pure content
  | content, chunk :: rest => do
      admitChunk app storageUsage content.length (totalBytes + content.length) chunk.length
      writeAll n content.length chunk
      writeChunks app n storageUsage totalBytes (content ++ chunk) rest

/-- `write_image_field`. -/
def writeImageField (app : AppState) (n storageUsage totalBytes : ℕ) (field : UploadField) :
    UploadProgram (List UInt8) := do
  let content ← writeChunks app n storageUsage totalBytes [] field.chunks
  if ¬field.complete then throw (.invalidMultipart "uploaded image could not be read")
  if content.length = 0 then
    throw (.uploadValidation "empty_file" "uploaded images cannot be empty" "images")
  return content

/-- The branch of an `images` field. -/
def stageImage (app : AppState) (storageUsage : ℕ) (s : Staging) (field : UploadField) :
    UploadProgram Staging := do
  if maxFilesPerJob ≤ s.inputs.length then
    throw (.uploadValidation "too_many_files"
      ("a job can contain at most " ++ toString maxFilesPerJob ++ " images") "images")
  match field.fileName with
  | none => throw (.uploadValidation "missing_filename" "each image field must include a filename"
      "images")
  | some rawName => do
      let displayName := safeDisplayName rawName s.inputs.length
      let storageKey ← createFile s.inputs.length
      let content ← writeImageField app s.inputs.length storageUsage s.totalBytes field
      flush s.inputs.length
      let metadata ← inspect s.inputs.length
      let input : NewInputArtifact :=
        { storageKey, displayName
          mediaType := metadata.mediaType
          byteSize := content.length
          width := metadata.width
          height := metadata.height
          checksumSha256 := (app.sha256 content).toList }
      return { s with inputs := s.inputs ++ [input], totalBytes := s.totalBytes + content.length }

def stageField (app : AppState) (target : UploadTarget) (storageUsage : ℕ) (s : Staging)
    (field : UploadField) : UploadProgram Staging :=
  let fieldName := field.name.getD ""
  if fieldName = "images" then stageImage app storageUsage s field
  else liftM (stageValue app target s field fieldName)

/-- The loop of `stage_fields`. -/
def stageAll (app : AppState) (target : UploadTarget) (storageUsage : ℕ) :
    Staging → List UploadField → UploadProgram Staging
  | s, [] => pure s
  | s, field :: rest => do
      let s ← stageField app target storageUsage s field
      stageAll app target storageUsage s rest

end UploadProgram

/-! ### The program and the storage -/

/-- What the storage and the codec answer; the batch and its files have the identifiers `ids`. -/
def FreshIds.serve (ids : FreshIds) (app : AppState) (st : Storage) :
    (q : UploadCall) → q.Reply × Storage
  | .createFile n =>
      let r := ids.uploadBatch.createFile app.disk (ids.file n) st
      (r.1.map Prod.fst, r.2)
  | .writeAll n offset chunk => TaskHarbor.writeAll app.disk (ids.filePath n) offset chunk st
  | .flush n => TaskHarbor.flush app.disk (ids.filePath n) st
  | .inspect n => TaskHarbor.inspect app.images (ids.fileKey n) st

/-- The program with any service that answers its calls. -/
def UploadProgram.served {ω α : Type} (serve : ω → (q : UploadCall) → q.Reply × ω)
    (x : UploadProgram α) : Transaction.Session ω ApiError α := fun w => x.run.run serve w

section Served

variable {ω α β : Type} {serve : ω → (q : UploadCall) → q.Reply × ω}

theorem UploadProgram.served_bind (x : UploadProgram α) (f : α → UploadProgram β) :
    (x >>= f).served serve = x.served serve >>= fun a => (f a).served serve := by
  funext w
  rw [Session.bind_run]
  unfold UploadProgram.served
  rw [Program.run_except_bind]
  rcases x.run.run serve w with ⟨r, w'⟩
  cases r <;> rfl

theorem UploadProgram.served_lift (x : Except ApiError α) :
    (liftM x : UploadProgram α).served serve = liftM x := by
  funext w
  cases x <;> rfl

theorem UploadProgram.served_request {q : UploadCall} {reply : q.Reply → Except ApiError α}
    {w w' : ω} {r : q.Reply} (h : serve w q = (r, w')) :
    (request q reply).served serve w = (reply r, w') :=
  congrArg (fun p : q.Reply × ω => (reply p.1, p.2)) h

end Served

/-- The program against the storage. -/
def UploadProgram.against {α : Type} (x : UploadProgram α) (ids : FreshIds) (app : AppState) :
    ApiSession α := x.served (ids.serve app)

section Against

variable {α β : Type} {app : AppState} {ids : FreshIds} {st : Storage}

theorem UploadProgram.against_bind (x : UploadProgram α) (f : α → UploadProgram β) :
    (x >>= f).against ids app = x.against ids app >>= fun a => (f a).against ids app :=
  served_bind x f

theorem UploadProgram.against_lift (x : Except ApiError α) :
    (liftM x : UploadProgram α).against ids app = liftM x := served_lift x

theorem UploadProgram.against_createFile {n : ℕ} {r : Except StorageError (String × Path)}
    {st' : Storage} (h : ids.uploadBatch.createFile app.disk (ids.file n) st = (r, st')) :
    (createFile n).against ids app st = ((r.map Prod.fst).mapError ApiError.storage, st') := by
  have hserve : ids.serve app st (.createFile n) = (r.map Prod.fst, st') :=
    congrArg (fun r : Except StorageError (String × Path) × Storage => (r.1.map Prod.fst, r.2)) h
  exact served_request hserve

theorem UploadProgram.against_writeAll (n offset : ℕ) (chunk : List UInt8) :
    (writeAll n offset chunk).against ids app =
      Session.mapError ApiError.storage
        (TaskHarbor.writeAll app.disk (ids.filePath n) offset chunk) := rfl

theorem UploadProgram.against_flush (n : ℕ) :
    (flush n).against ids app =
      Session.mapError ApiError.storage (TaskHarbor.flush app.disk (ids.filePath n)) := rfl

theorem UploadProgram.against_inspect (n : ℕ) :
    (inspect n).against ids app =
      Session.mapError mapImageError (TaskHarbor.inspect app.images (ids.fileKey n)) := rfl

theorem UploadProgram.writeChunks_against (n usage total : ℕ) (content : List UInt8)
    (chunks : List (List UInt8)) :
    (writeChunks app n usage total content chunks).against ids app =
      TaskHarbor.writeChunks app (ids.filePath n) usage total content chunks := by
  induction chunks generalizing content with
  | nil => rfl
  | cons chunk rest ih =>
    unfold writeChunks TaskHarbor.writeChunks
    simp only [against_bind, against_lift, against_writeAll, ih]

theorem UploadProgram.writeImageField_against (n usage total : ℕ) (field : UploadField) :
    (writeImageField app n usage total field).against ids app =
      TaskHarbor.writeImageField app (ids.filePath n) usage total field := by
  unfold writeImageField TaskHarbor.writeImageField
  rw [against_bind, writeChunks_against]
  congr 1
  funext content
  by_cases hcomplete : field.complete <;> by_cases hempty : content.length = 0 <;>
    simp only [hcomplete, hempty] <;> rfl

theorem UploadProgram.stageImage_against (usage : ℕ) (s : Staging) (field : UploadField) :
    (stageImage app usage s field).against ids app =
      TaskHarbor.stageImage app ids.uploadBatch ids usage s field := by
  unfold stageImage TaskHarbor.stageImage
  by_cases hmany : maxFilesPerJob ≤ s.inputs.length
  · simp only [hmany]
    rfl
  · simp only [hmany, if_false]
    cases field.fileName with
    | none => rfl
    | some rawName =>
      funext st
      dsimp only
      rw [against_bind, Session.bind_run, Session.bind_run]
      rcases hrun : ids.uploadBatch.createFile app.disk (ids.file s.inputs.length) st with ⟨r, st'⟩
      rw [against_createFile hrun]
      unfold Session.mapError
      rw [hrun]
      cases r with
      | error e => rfl
      | ok created =>
        obtain ⟨key, path⟩ := created
        obtain ⟨rfl, rfl, -⟩ := createFile_run app.disk s.inputs.length hrun
        simp only [Except.map, Except.mapError, against_bind, writeImageField_against,
          against_flush, against_inspect]
        rfl

theorem UploadProgram.stageField_against (target : UploadTarget) (usage : ℕ) (s : Staging)
    (field : UploadField) : (stageField app target usage s field).against ids app =
      TaskHarbor.stageField app ids.uploadBatch ids target usage s field := by
  unfold stageField TaskHarbor.stageField
  by_cases himages : field.name.getD "" = "images"
  · simp only [himages, if_true]
    exact stageImage_against usage s field
  · simp only [himages, if_false]
    exact against_lift _

/-- Against the storage the program is the loop of `stage_fields`. -/
theorem UploadProgram.stageAll_against (target : UploadTarget) (usage : ℕ) (s : Staging)
    (fields : List UploadField) : (stageAll app target usage s fields).against ids app =
      TaskHarbor.stageAll app ids.uploadBatch ids target usage s fields := by
  induction fields generalizing s with
  | nil => rfl
  | cons field rest ih =>
    unfold stageAll TaskHarbor.stageAll
    simp only [against_bind, stageField_against, ih]

end Against

end TaskHarbor
