import TaskHarbor.Api.Guard
import TaskHarbor.Repository.Image

/-! `download_artifact`: a look-up in the database, and later the opening of the file. -/
namespace TaskHarbor

open Transaction

/-- `LocalStorage::open`, with what a stream reads from the file. -/
def Storage.openFile (st : Storage) (key : String) : Except StorageError (List UInt8) := do
  let path ← resolveKey key
  match st.read? path with
  | some bytes => .ok bytes
  | none => .error .io

/-- The id of the path: a positive `u64`. -/
def parseArtifactId (rawId : String) : Option ℕ := (parseUnsigned u64Max rawId).filter (0 < ·)

/-- The look-up of `download_artifact`, with the id that it has parsed. -/
def findDownload (rawId : String) (session : AuthSession) (db : Db) :
    Except ApiError (ℕ × ArtifactRecord) := do
  let artifactId ← okOrElse (parseArtifactId rawId) .artifactNotFound
  let found ← (getDownloadableArtifactWithOwner artifactId (some session.userId) db).mapError
    .repository
  let artifact ← okOrElse found .artifactNotFound
  return (artifactId, artifact)

structure DownloadResponse where
  contentType : String
  contentLength : ℕ
  contentDisposition : String
  body : List UInt8

/-- The rest of `download_artifact`. -/
def serveDownload (artifactId : ℕ) (artifact : ArtifactRecord) (st : Storage) :
    Except ApiError DownloadResponse := do
  let body ← (st.openFile artifact.storageKey).mapError .artifactUnavailable
  return {
    contentType := "image/jpeg"
    contentLength := artifact.byteSize
    contentDisposition :=
      "attachment; filename=\"taskharbor-artifact-" ++ toString artifactId ++ ".jpg\""
    body }

/-- The row that a path names for a user: an output of one of his succeeded jobs. -/
structure ArtifactRow.Downloads (row : ArtifactRow) (rawId : String) (userId : ℕ) (db : Db) :
    Prop where
  mem : row ∈ db.artifacts
  named : parseArtifactId rawId = some row.id
  output : row.kind = .output
  job : ∃ r, db.jobs.get? row.jobId = some r ∧ r.state = .succeeded ∧ r.ownerUserId = userId

section Find

variable {rawId : String} {session : AuthSession} {db : Db} {row : ArtifactRow}

theorem downloadable_iff {userId : ℕ} : row.downloadable db (some userId) = true ↔
    row.kind = .output ∧
      ∃ r, db.jobs.get? row.jobId = some r ∧ r.state = .succeeded ∧ r.ownerUserId = userId := by
  simp [ArtifactRow.downloadable, ownedBy, Option.any_eq_true]

/-- The look-up for an id that fits the column. -/
theorem findDownload_parsed {artifactId : ℕ} (hparse : parseArtifactId rawId = some artifactId)
    (hle : artifactId ≤ i64Max) : findDownload rawId session db =
      ((db.artifacts.get? artifactId).filter
        (ArtifactRow.downloadable db (some session.userId))).elim (.error .artifactNotFound)
        fun row => ((ArtifactRecord.tryFrom row).mapError ApiError.repository).map
          fun record => (artifactId, record) := by
  have hencode : encodeU64 artifactId "artifact ID" = .ok artifactId := if_pos hle
  unfold findDownload getDownloadableArtifactWithOwner
  simp only [hparse, okOrElse, Option.elim_some, except_ok_bind, hencode]
  cases (db.artifacts.get? artifactId).filter
    (ArtifactRow.downloadable db (some session.userId)) with
  | none => rfl
  | some row =>
    simp only [Option.elim_some]
    cases ArtifactRecord.tryFrom row <;> rfl

end Find

end TaskHarbor
