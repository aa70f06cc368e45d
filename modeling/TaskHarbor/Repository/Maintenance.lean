import TaskHarbor.Repository.Schedule

/-! `maintenance_repository.rs`: the active jobs of an owner, the storage references, the prefixes
of running attempts and the expiry of outputs. Metrics are not modelled, and the purge of sessions
is in `Repository.Auth`. -/
namespace TaskHarbor

open Relational Transaction

/-- `active_job_count_for_owner`. -/
def activeJobCountForOwner (ownerUserId : ℕ) (db : Db) : Except RepositoryError ℕ :=
  .ok (db.jobs.count fun r => r.ownerUserId == ownerUserId && !r.state.isTerminal)

/-- `attempt_output_prefix`, also the text that `active_attempt_output_prefixes` builds. -/
def attemptOutputPrefix (jobId attemptId : ℕ) : String :=
  "outputs/job-" ++ toString jobId ++ "/attempt-" ++ toString attemptId

/-- `storage_references`. -/
def storageReferences (db : Db) : List String :=
  db.artifacts.rows.map ArtifactRow.storageKey ++
    db.scheduleInputs.rows.map ScheduleInputRow.storageKey

/-- `active_attempt_output_prefixes`. -/
def activeAttemptOutputPrefixes (db : Db) : List String :=
  (db.jobAttempts.rows.filter fun a => a.state == .running).map fun a =>
    attemptOutputPrefix a.jobId a.id

/-- `finished_at <= CURRENT_TIMESTAMP - retention` on a terminal job. -/
def JobRow.retentionOver (r : JobRow) (retentionSeconds : ℕ) (now : ℤ) : Bool :=
  r.state.isTerminal && r.finishedAt.any fun f => f ≤ now - seconds retentionSeconds

/-- The output rows that `expire_output_artifacts` deletes. -/
def expiredOutput (db : Db) (retentionSeconds : ℕ) (now : ℤ) (a : ArtifactRow) : Bool :=
  a.kind == .output && (db.jobs.get? a.jobId).any fun r => r.retentionOver retentionSeconds now

/-- The transaction of `expire_output_artifacts`, with the deleted keys. -/
def expireOutputArtifactsTx (retentionSeconds : ℕ) (now : ℤ) : Tx (List String) := do
  let db ← get
  let keys := (db.artifacts.rows.filter (expiredOutput db retentionSeconds now)).map
    ArtifactRow.storageKey
  set { db with artifacts := db.artifacts.delete (expiredOutput db retentionSeconds now) }
  let _ ← updateJobs
    (fun r => r.retentionOver retentionSeconds now && r.outputsExpiredAt.isNone)
    fun r => { r with outputsExpiredAt := some now }
  return keys

/-- `expire_output_artifacts`. -/
def expireOutputArtifacts (retentionSeconds : ℕ) (now : ℤ) : Session (List String) := do
  if i64Max < retentionSeconds then throw (.invalidData "output retention exceeds BIGINT")
  commit (expireOutputArtifactsTx retentionSeconds now)

end TaskHarbor
