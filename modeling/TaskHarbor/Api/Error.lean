import TaskHarbor.Core.Job
import TaskHarbor.Storage.Images

/-! `error.rs`: what the API answers when a request fails, as far as the modelled handlers use
it. -/
namespace TaskHarbor

structure ApiError where
  status : ℕ
  code : String
  message : String
  field : Option String
  deriving DecidableEq, Repr

namespace ApiError

def unauthorized : ApiError :=
  ⟨401, "authentication_required", "sign in to access TaskHarbor", none⟩

def invalidCredentials : ApiError :=
  ⟨401, "invalid_credentials", "username or password is incorrect", none⟩

def invalidCsrf : ApiError :=
  ⟨403, "invalid_csrf_token", "the request is missing a valid CSRF token", none⟩

def internal : ApiError := ⟨500, "internal_error", "the request could not be completed", none⟩

/-- `rate_limited`, with the waiting time in whole seconds. -/
def rateLimited (retryAfter : ℕ) : ApiError :=
  ⟨429, "rate_limited", "too many requests; try again in " ++ toString (max retryAfter 1) ++
    " seconds", none⟩

def resourceLimit (code message : String) : ApiError := ⟨507, code, message, none⟩

/-- `invalid_job_name`, with the text of `JobNameError`. -/
def invalidJobName : JobNameError → ApiError
  | .empty => ⟨422, "validation_error",
      "job name must contain at least one non-whitespace character", some "name"⟩
  | .tooLong max actual => ⟨422, "validation_error",
      "job name must contain at most " ++ toString max ++ " characters, but received " ++
        toString actual, some "name"⟩

def invalidMultipart (message : String) : ApiError := ⟨400, "invalid_multipart", message, none⟩

def uploadValidation (code message field : String) : ApiError := ⟨422, code, message, some field⟩

def uploadTooLarge (code message field : String) : ApiError := ⟨413, code, message, some field⟩

def storage (_error : StorageError) : ApiError :=
  ⟨500, "storage_error", "file storage is temporarily unavailable", none⟩

def artifactUnavailable (_error : StorageError) : ApiError :=
  ⟨500, "artifact_unavailable", "the output file is temporarily unavailable", none⟩

def artifactNotFound : ApiError :=
  ⟨404, "artifact_not_found", "output artifact was not found", none⟩

def imageInspection (_error : ImageError) : ApiError :=
  ⟨500, "image_inspection_error", "the uploaded image could not be inspected", some "images"⟩

def repository : RepositoryError → ApiError
  | .database _ => ⟨503, "database_unavailable", "the database is temporarily unavailable", none⟩
  | .stateConflict _ | .claimLost =>
      ⟨409, "job_state_conflict", "the job is no longer in a state that allows this action", none⟩
  | .idempotencyConflict => ⟨409, "idempotency_conflict",
      "the idempotency key was already used for different job data", none⟩
  | .invalidData _ => ⟨500, "internal_error", "the request could not be completed", none⟩

/-- A client error, among them an idempotency conflict, or a resource limit. -/
def isRejection (error : ApiError) : Bool :=
  (400 ≤ error.status && error.status ≤ 499) || error.status == 507

end ApiError

end TaskHarbor
