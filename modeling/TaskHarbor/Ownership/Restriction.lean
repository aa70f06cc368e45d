import TaskHarbor.Lifecycle.Artifacts
import TaskHarbor.Repository.Maintenance
import TaskHarbor.Repository.Readers
import TaskHarbor.Repository.Records

/-! The rows of one user, as a database of its own. A statement that is pinned to rows of the user
does on it what it does on the whole database. -/
namespace TaskHarbor

open Relational Transaction

def Db.jobOwner (db : Db) (id : ℕ) : Option ℕ := (db.jobs.get? id).map JobRow.ownerUserId

def Db.scheduleOwner (db : Db) (id : ℕ) : Option ℕ :=
  (db.schedules.get? id).map ScheduleRow.ownerUserId

/-- The database without the rows of other users. The identity counters stay. -/
def Db.only (u : ℕ) (db : Db) : Db where
  workers := db.workers
  jobs := db.jobs.restrict fun r => r.ownerUserId == u
  jobAttempts := db.jobAttempts.restrict fun a => db.jobOwner a.jobId == some u
  artifacts := db.artifacts.restrict fun a => db.jobOwner a.jobId == some u
  schedules := db.schedules.restrict fun s => s.ownerUserId == u
  scheduleInputs := db.scheduleInputs.restrict fun i => db.scheduleOwner i.scheduleId == some u
  scheduleOccurrences :=
    db.scheduleOccurrences.restrict fun o => db.scheduleOwner o.scheduleId == some u

/-- Every child row has its parent. -/
structure Db.Rooted (db : Db) : Prop where
  attempts : ∀ a ∈ db.jobAttempts, (db.jobOwner a.jobId).isSome = true
  artifacts : ∀ a ∈ db.artifacts, (db.jobOwner a.jobId).isSome = true
  inputs : ∀ i ∈ db.scheduleInputs, (db.scheduleOwner i.scheduleId).isSome = true
  occurrences : ∀ o ∈ db.scheduleOccurrences, (db.scheduleOwner o.scheduleId).isSome = true

section Reads

variable {db : Db} {u : ℕ}

theorem jobOwner_eq_some {id : ℕ} :
    db.jobOwner id = some u ↔ ∃ r, db.jobs.get? id = some r ∧ r.ownerUserId = u := by
  simp [Db.jobOwner]

theorem scheduleOwner_eq_some {id : ℕ} :
    db.scheduleOwner id = some u ↔ ∃ s, db.schedules.get? id = some s ∧ s.ownerUserId = u := by
  simp [Db.scheduleOwner]

theorem only_job (id : ℕ) :
    (db.only u).jobs.get? id = (db.jobs.get? id).filter (ownedBy (some u)) :=
  Table.get?_restrict _ _ _

theorem only_job_of_owner {id : ℕ} (h : db.jobOwner id = some u) :
    (db.only u).jobs.get? id = db.jobs.get? id := by
  obtain ⟨r, hr, howner⟩ := jobOwner_eq_some.mp h
  have howned : ownedBy (some u) r = true := by simp [ownedBy, howner]
  rw [only_job, hr, Option.filter_some, if_pos howned]

theorem only_schedule (id : ℕ) :
    (db.only u).schedules.get? id = (db.schedules.get? id).filter (scheduleOwnedBy (some u)) :=
  Table.get?_restrict _ _ _

theorem loadArtifacts_only {id : ℕ} (h : db.jobOwner id = some u) :
    loadArtifacts (db.only u) id = loadArtifacts db id := by
  have hrows : (db.only u).artifacts.rows.filter (fun a => a.jobId == id) =
      db.artifacts.rows.filter fun a => a.jobId == id := by
    refine Table.filter_restrict fun a _ ha => ?_
    rw [beq_iff_eq] at ha ⊢
    rw [ha, h]
  unfold loadArtifacts
  rw [hrows]

theorem loadAttempts_only {id : ℕ} (h : db.jobOwner id = some u) :
    loadAttempts (db.only u) id = loadAttempts db id := by
  have hrows : (db.only u).jobAttempts.rows.filter (fun a => a.jobId == id) =
      db.jobAttempts.rows.filter fun a => a.jobId == id := by
    refine Table.filter_restrict fun a _ ha => ?_
    rw [beq_iff_eq] at ha ⊢
    rw [ha, h]
  unfold loadAttempts
  rw [hrows]
  rfl

theorem readJob_only {row : JobRow} (h : db.jobOwner row.id = some u) :
    readJob (db.only u) row = readJob db row := by
  unfold readJob
  rw [loadArtifacts_only h, loadAttempts_only h]

/-- A user reads one job. -/
theorem getWithOwner_only (id : JobId) :
    getWithOwner id (some u) (db.only u) = getWithOwner id (some u) db := by
  unfold getWithOwner
  rw [only_job]
  cases hr : (db.jobs.get? id.get).filter (ownedBy (some u)) with
  | none => rfl
  | some r =>
    obtain ⟨hget, howned⟩ := Option.filter_eq_some_iff.mp hr
    have hid : r.id = id.get := Table.key_of_get? hget
    have howner : db.jobOwner r.id = some u := by
      rw [hid, jobOwner_eq_some]
      exact ⟨r, hget, by simpa [ownedBy] using howned⟩
    rw [Option.filter_some, if_pos howned]
    simp only [readJob_only howner]

/-- The program reads back a job of the user. -/
theorem getWithOwner_none_only {id : JobId} (h : db.jobOwner id.get = some u) :
    getWithOwner id none (db.only u) = getWithOwner id none db := by
  unfold getWithOwner
  rw [only_job_of_owner h]
  cases hr : (db.jobs.get? id.get).filter (ownedBy none) with
  | none => rfl
  | some r =>
    obtain ⟨hget, -⟩ := Option.filter_eq_some_iff.mp hr
    have hid : r.id = id.get := Table.key_of_get? hget
    have howner : db.jobOwner r.id = some u := by rwa [hid]
    simp only [readJob_only howner]

theorem readJobs_only {rows : List JobRow} (h : ∀ r ∈ rows, db.jobOwner r.id = some u) (k : ℕ) :
    readJobs (fun _ => db.only u) k rows = readJobs (fun _ => db) k rows := by
  induction rows generalizing k with
  | nil => rfl
  | cons row rest ih =>
    have hrow : readJobAcross (db.only u) (db.only u) row = readJobAcross db db row :=
      readJob_only (h row List.mem_cons_self)
    unfold readJobs
    rw [hrow, ih fun r hr => h r (List.mem_cons_of_mem row hr)]

/-- A user lists their jobs. -/
theorem listWithOwner_only :
    listWithOwner (some u) (fun _ => db.only u) = listWithOwner (some u) fun _ => db := by
  have hrows : (db.only u).jobs.rows.filter (ownedBy (some u)) =
      db.jobs.rows.filter (ownedBy (some u)) := Table.filter_restrict fun _ _ h => h
  unfold listWithOwner
  rw [hrows]
  refine readJobs_only (fun r hr => ?_) 0
  have hmem := (List.mem_insertionSort jobOrder).mp hr
  rw [List.mem_filter] at hmem
  rw [jobOwner_eq_some]
  exact ⟨r, Table.get?_key hmem.1, by simpa [ownedBy] using hmem.2⟩

theorem activeJobCountForOwner_only :
    activeJobCountForOwner u (db.only u) = activeJobCountForOwner u db := by
  have hcount : (db.only u).jobs.count (fun r => r.ownerUserId == u && !r.state.isTerminal) =
      db.jobs.count fun r => r.ownerUserId == u && !r.state.isTerminal := by
    refine Table.count_restrict fun r _ hr => ?_
    rw [Bool.and_eq_true] at hr
    exact hr.1
  unfold activeJobCountForOwner
  rw [hcount]

theorem idempotentRow_only (key : String) :
    idempotentRow (db.only u) u key = idempotentRow db u key := by
  refine Table.find?_restrict fun r _ hr => ?_
  rw [Bool.and_eq_true] at hr
  exact hr.1

theorem readBack_only {id : ℕ} {caller : Option ℕ} (operation : String)
    (h : caller = some u ∨ caller = none ∧ db.jobOwner id = some u) :
    readBack id caller operation (db.only u) = readBack id caller operation db := by
  unfold readBack
  cases hid : decodeJobId id with
  | error e => rfl
  | ok jobId =>
    have hget : jobId.get = id := decodeJobId_ok.mp hid
    have hsame : getWithOwner jobId caller (db.only u) = getWithOwner jobId caller db := by
      rcases h with rfl | ⟨rfl, howner⟩
      · exact getWithOwner_only jobId
      · exact getWithOwner_none_only (hget ▸ howner)
    simp only [except_ok_bind, hsame]

theorem findIdempotentImageJob_only (idempotency : IdempotencyRequest) :
    findIdempotentImageJob u idempotency (db.only u) =
      findIdempotentImageJob u idempotency db := by
  unfold findIdempotentImageJob
  rw [idempotentRow_only]
  simp only [readBack_only "read idempotent image job" (Or.inl rfl)]

theorem existingImageJob_only {request : NewImageJob} (h : request.ownerUserId = u) :
    existingImageJob request (db.only u) = existingImageJob request db := by
  subst h
  unfold existingImageJob
  simp only [idempotentRow_only]

theorem downloadable_only {row : ArtifactRow} (h : row.downloadable db (some u) = true) :
    db.jobOwner row.jobId = some u := by
  unfold ArtifactRow.downloadable at h
  rw [Bool.and_eq_true] at h
  obtain ⟨r, hr, hr'⟩ := (Option.any_eq_true _ _).mp h.2
  rw [Bool.and_eq_true] at hr'
  exact jobOwner_eq_some.mpr ⟨r, hr, by simpa [ownedBy] using hr'.2⟩

theorem only_artifact (id : ℕ) : (db.only u).artifacts.get? id =
    (db.artifacts.get? id).filter fun a => db.jobOwner a.jobId == some u :=
  Table.get?_restrict _ _ _

theorem filter_downloadable_only (id : ℕ) :
    ((db.only u).artifacts.get? id).filter (ArtifactRow.downloadable (db.only u) (some u)) =
      (db.artifacts.get? id).filter (ArtifactRow.downloadable db (some u)) := by
  rw [only_artifact]
  cases db.artifacts.get? id with
  | none => rfl
  | some a =>
    by_cases howner : db.jobOwner a.jobId = some u
    · have hsame : a.downloadable (db.only u) (some u) = a.downloadable db (some u) := by
        unfold ArtifactRow.downloadable
        rw [only_job_of_owner howner]
      rw [Option.filter_some, if_pos (by simpa using howner), Option.filter_some,
        Option.filter_some, hsame]
    · have hforeign : ¬a.downloadable db (some u) = true := fun h => howner (downloadable_only h)
      rw [Option.filter_some, if_neg (by simpa using howner), Option.filter_none,
        Option.filter_some, if_neg hforeign]

/-- A user downloads an output. -/
theorem getDownloadableArtifactWithOwner_only (artifactId : ℕ) :
    getDownloadableArtifactWithOwner artifactId (some u) (db.only u) =
      getDownloadableArtifactWithOwner artifactId (some u) db := by
  unfold getDownloadableArtifactWithOwner
  simp only [filter_downloadable_only]

/-! Schedules -/

theorem loadScheduleInputs_only {id : ℕ} (h : db.scheduleOwner id = some u) :
    loadScheduleInputs (db.only u) id = loadScheduleInputs db id := by
  have hrows : (db.only u).scheduleInputs.rows.filter (fun i => i.scheduleId == id) =
      db.scheduleInputs.rows.filter fun i => i.scheduleId == id := by
    refine Table.filter_restrict fun i _ hi => ?_
    rw [beq_iff_eq] at hi ⊢
    rw [hi, h]
  unfold loadScheduleInputs scheduleInputsOf
  rw [hrows]

/-- The job of an occurrence belongs to the owner of the schedule. -/
def Db.Inherits (db : Db) : Prop :=
  ∀ o ∈ db.scheduleOccurrences, ∀ j, o.jobId = some j →
    db.jobOwner j = db.scheduleOwner o.scheduleId

theorem loadScheduleOccurrences_only {id : ℕ} (hinherits : db.Inherits)
    (h : db.scheduleOwner id = some u) :
    loadScheduleOccurrences (db.only u) id = loadScheduleOccurrences db id := by
  have hrows : (db.only u).scheduleOccurrences.rows.filter (fun o => o.scheduleId == id) =
      db.scheduleOccurrences.rows.filter fun o => o.scheduleId == id := by
    refine Table.filter_restrict fun o _ ho => ?_
    rw [beq_iff_eq] at ho ⊢
    rw [ho, h]
  unfold loadScheduleOccurrences
  rw [hrows]
  refine except_mapM_congr fun o ho => ?_
  have hmem := (List.mem_insertionSort occurrenceOrder).mp ho
  rw [List.mem_filter, beq_iff_eq] at hmem
  have hstatus : (db.only u).jobStatusOf o = db.jobStatusOf o := by
    unfold Db.jobStatusOf
    cases hj : o.jobId with
    | none => rfl
    | some j =>
      have howner : db.jobOwner j = some u := by rw [hinherits o hmem.1 j hj, hmem.2, h]
      rw [Option.bind_some, Option.bind_some, only_job_of_owner howner]
  rw [hstatus]

theorem readSchedule_only {row : ScheduleRow} (hinherits : db.Inherits)
    (h : db.scheduleOwner row.id = some u) :
    readSchedule (db.only u) row = readSchedule db row := by
  unfold readSchedule
  rw [loadScheduleInputs_only h, loadScheduleOccurrences_only hinherits h]

/-- A user reads one schedule. -/
theorem getScheduleWithOwner_only (hinherits : db.Inherits) (id : ScheduleId) :
    getScheduleWithOwner id (some u) (db.only u) = getScheduleWithOwner id (some u) db := by
  unfold getScheduleWithOwner
  rw [only_schedule]
  cases hr : (db.schedules.get? id.get).filter (scheduleOwnedBy (some u)) with
  | none => rfl
  | some r =>
    obtain ⟨hget, howned⟩ := Option.filter_eq_some_iff.mp hr
    have howner : db.scheduleOwner r.id = some u := by
      rw [show r.id = id.get from Table.key_of_get? hget, scheduleOwner_eq_some]
      exact ⟨r, hget, by simpa [scheduleOwnedBy] using howned⟩
    rw [Option.filter_some, if_pos howned]
    simp only [readSchedule_only hinherits howner]

theorem getScheduleWithOwner_none_only (hinherits : db.Inherits) {id : ScheduleId}
    (h : db.scheduleOwner id.get = some u) :
    getScheduleWithOwner id none (db.only u) = getScheduleWithOwner id none db := by
  obtain ⟨r, hr, howner⟩ := scheduleOwner_eq_some.mp h
  have howned : scheduleOwnedBy (some u) r = true := by simp [scheduleOwnedBy, howner]
  have hread : readSchedule (db.only u) r = readSchedule db r := by
    refine readSchedule_only hinherits ?_
    rwa [show r.id = id.get from Table.key_of_get? hr]
  unfold getScheduleWithOwner
  rw [only_schedule, hr, Option.filter_some, if_pos howned, Option.filter_some,
    if_pos (show scheduleOwnedBy none r = true from rfl)]
  simp only [hread]

/-- A user lists their schedules. -/
theorem listSchedulesWithOwner_only (hinherits : db.Inherits) :
    listSchedulesWithOwner (some u) (db.only u) = listSchedulesWithOwner (some u) db := by
  have hrows : (db.only u).schedules.rows.filter (scheduleOwnedBy (some u)) =
      db.schedules.rows.filter (scheduleOwnedBy (some u)) := Table.filter_restrict fun _ _ h => h
  unfold listSchedulesWithOwner
  rw [hrows]
  refine except_mapM_congr fun r hr => ?_
  have hmem := (List.mem_insertionSort scheduleOrder).mp hr
  rw [List.mem_filter] at hmem
  refine readSchedule_only hinherits ?_
  rw [scheduleOwner_eq_some]
  exact ⟨r, Table.get?_key hmem.1, by simpa [scheduleOwnedBy] using hmem.2⟩

end Reads

end TaskHarbor
