import TaskHarbor.System.Descent
import TaskHarbor.System.Readers

/-! Every stored row decodes, to the values of its columns, so that no row makes a list of jobs or
schedules fail. A worker row decodes as long as the count of its running attempts fits. -/
namespace TaskHarbor

open Relational Transaction Runs

/-! ### Records of the same values -/

/-- The settings of a job row. -/
def JobRow.hasSettings (r : JobRow) : JobSettings → Prop
  | .demoDelay delayMs => r.jobType = .demoDelay ∧ r.delayMs = delayMs
  | .imageResize maxWidth jpegQuality =>
      r.jobType = .imageResize ∧ r.maxWidth = some maxWidth ∧ r.jpegQuality = some jpegQuality

structure JobRecord.Mirrors (record : JobRecord) (r : JobRow) : Prop where
  id : record.id.get = r.id
  name : record.name.asStr = r.name
  jobType : record.jobType = r.jobType
  status : record.status = r.state
  priority : record.priority = r.priority
  settings : r.hasSettings record.settings
  progress : record.progressCompleted = r.progressCompleted ∧
    record.progressTotal = r.progressTotal
  maxAttempts : record.maxAttempts = r.maxAttempts
  parent : record.retryOfJobId.map JobId.get = r.retryOfJobId
  schedule : record.scheduleId.map ScheduleId.get = r.scheduleId
  scheduledFor : record.scheduledFor = r.scheduledFor

structure AttemptRecord.Mirrors (record : AttemptRecord) (a : AttemptRow) : Prop where
  id : record.id = a.id
  number : record.attemptNumber = a.attemptNumber
  status : record.status = a.state
  progress : record.progressCompleted = a.progressCompleted ∧
    record.progressTotal = a.progressTotal
  error : record.errorKind = a.errorKind ∧ record.errorMessage = a.errorMessage
  worker : record.workerId = a.workerId

structure ArtifactRecord.Mirrors (record : ArtifactRecord) (a : ArtifactRow) : Prop where
  id : record.id = a.id
  jobId : record.jobId.get = a.jobId
  attempt : record.attemptId = a.attemptId
  source : record.sourceArtifactId = a.sourceArtifactId
  kind : record.kind = a.kind
  itemIndex : record.itemIndex = a.itemIndex
  stored : record.storageKey = a.storageKey ∧ record.displayName = a.displayName ∧
    record.mediaType = a.mediaType

structure ScheduleRecord.Mirrors (record : ScheduleRecord) (r : ScheduleRow) : Prop where
  id : record.id.get = r.id
  name : record.name.asStr = r.name
  enabled : record.enabled = r.enabled
  slots : record.intervalSeconds = r.intervalSeconds ∧ record.anchorAt = r.anchorAt ∧
    record.nextRunAt = r.nextRunAt
  priority : record.priority = r.priority
  settings : record.maxWidth = r.maxWidth ∧ record.jpegQuality = r.jpegQuality

structure ScheduleOccurrenceRecord.Mirrors (record : ScheduleOccurrenceRecord)
    (o : ScheduleOccurrenceRow) (status : Option JobStatus) : Prop where
  id : record.id = o.id
  scheduledFor : record.scheduledFor = o.scheduledFor
  outcome : record.outcome = o.outcome
  job : record.jobId.map JobId.get = o.jobId
  status : record.jobStatus = status
  reason : record.reason = o.reason

structure WorkerRecord.Mirrors (record : WorkerRecord) (w : WorkerRow) : Prop where
  id : record.id = w.id
  name : record.name = w.name
  limits : record.concurrencyLimit = w.concurrencyLimit ∧
    record.leaseDurationSeconds = w.leaseDurationSeconds

/-! ### Decoders -/

section Decoders

variable {r : JobRow}

theorem decodeJobId_map {value : Option ℕ} {id : Option JobId}
    (h : value.mapM decodeJobId = .ok id) : id.map JobId.get = value := by
  cases value with
  | none =>
    cases h
    rfl
  | some n =>
    rw [Option.mapM_some] at h
    obtain ⟨i, hi, h⟩ := except_bind_ok.mp h
    cases h
    exact congrArg some (decodeJobId_ok.mp hi)

theorem decodeScheduleId_map {value : Option ℕ} {id : Option ScheduleId}
    (h : value.mapM decodeScheduleId = .ok id) : id.map ScheduleId.get = value := by
  cases value with
  | none =>
    cases h
    rfl
  | some n =>
    rw [Option.mapM_some] at h
    obtain ⟨i, hi, h⟩ := except_bind_ok.mp h
    cases h
    exact congrArg some (decodeScheduleId_ok.mp hi)

theorem imageSettings_columns {maxWidth jpegQuality : Option ℕ} {settings : ℕ × ℕ}
    (h : imageSettings maxWidth jpegQuality = .ok settings) :
    maxWidth = some settings.1 ∧ jpegQuality = some settings.2 := by
  unfold imageSettings at h
  split at h
  · cases h
  · cases h
  · split at h
    · cases h
      exact ⟨rfl, rfl⟩
    · cases h

theorem JobRow.tryIntoRecord_mirrors {artifacts : List ArtifactRecord}
    {attempts : List AttemptRecord} {record : JobRecord}
    (h : r.tryIntoRecord artifacts attempts = .ok record) : record.Mirrors r := by
  unfold JobRow.tryIntoRecord at h
  obtain ⟨id, hid, h⟩ := except_bind_ok.mp h
  obtain ⟨name, hname, h⟩ := except_bind_ok.mp h
  obtain ⟨-, h⟩ := except_unless_ok.mp h
  obtain ⟨-, h⟩ := except_unless_ok.mp h
  obtain ⟨scheduleId, hschedule, h⟩ := except_bind_ok.mp h
  obtain ⟨-, h⟩ := except_unless_ok.mp h
  cases htype : r.jobType with
  | demoDelay =>
    simp only [htype] at h
    obtain ⟨settings, hsettings, h⟩ := except_bind_ok.mp h
    obtain ⟨parent, hparent, h⟩ := except_bind_ok.mp h
    cases hsettings
    cases h
    exact ⟨decodeJobId_ok.mp hid, asStr_of_decodeJobName hname, htype.symm, rfl, rfl, ⟨htype, rfl⟩,
      ⟨rfl, rfl⟩, rfl, decodeJobId_map hparent, decodeScheduleId_map hschedule, rfl⟩
  | imageResize =>
    simp only [htype] at h
    obtain ⟨limits, hlimits, h⟩ := except_bind_ok.mp h
    obtain ⟨settings, hsettings, h⟩ := except_bind_ok.mp h
    obtain ⟨parent, hparent, h⟩ := except_bind_ok.mp h
    cases hsettings
    cases h
    exact ⟨decodeJobId_ok.mp hid, asStr_of_decodeJobName hname, htype.symm, rfl, rfl,
      ⟨htype, imageSettings_columns hlimits⟩, ⟨rfl, rfl⟩, rfl, decodeJobId_map hparent,
      decodeScheduleId_map hschedule, rfl⟩

theorem AttemptRecord.tryFrom_mirrors {a : AttemptRow} {name : Option String}
    {record : AttemptRecord} (h : AttemptRecord.tryFrom a name = .ok record) :
    record.Mirrors a := by
  unfold AttemptRecord.tryFrom at h
  obtain ⟨-, h⟩ := except_unless_ok.mp h
  cases h
  exact ⟨rfl, rfl, rfl, ⟨rfl, rfl⟩, ⟨rfl, rfl⟩, rfl⟩

theorem ArtifactRecord.tryFrom_mirrors {a : ArtifactRow} {record : ArtifactRecord}
    (h : ArtifactRecord.tryFrom a = .ok record) : record.Mirrors a := by
  unfold ArtifactRecord.tryFrom at h
  obtain ⟨-, h⟩ := except_unless_ok.mp h
  obtain ⟨jobId, hid, h⟩ := except_bind_ok.mp h
  cases h
  exact ⟨rfl, decodeJobId_ok.mp hid, rfl, rfl, rfl, rfl, rfl, rfl, rfl⟩

theorem ScheduleRow.tryIntoRecord_mirrors {r : ScheduleRow} {inputs : List ScheduleInputRecord}
    {occurrences : List ScheduleOccurrenceRecord} {record : ScheduleRecord}
    (h : r.tryIntoRecord inputs occurrences = .ok record) : record.Mirrors r := by
  unfold ScheduleRow.tryIntoRecord at h
  obtain ⟨-, h⟩ := except_unless_ok.mp h
  obtain ⟨-, -, h⟩ := except_bind_ok.mp h
  obtain ⟨id, hid, h⟩ := except_bind_ok.mp h
  obtain ⟨name, hname, h⟩ := except_bind_ok.mp h
  cases h
  exact ⟨decodeScheduleId_ok.mp hid, asStr_of_decodeJobName hname, rfl, ⟨rfl, rfl, rfl⟩, rfl,
    rfl, rfl⟩

theorem ScheduleOccurrenceRecord.tryFrom_mirrors {o : ScheduleOccurrenceRow}
    {status : Option JobStatus} {record : ScheduleOccurrenceRecord}
    (h : ScheduleOccurrenceRecord.tryFrom o status = .ok record) : record.Mirrors o status := by
  unfold ScheduleOccurrenceRecord.tryFrom at h
  obtain ⟨jobId, hid, h⟩ := except_bind_ok.mp h
  obtain ⟨-, h⟩ := except_unless_ok.mp h
  cases h
  exact ⟨rfl, rfl, rfl, decodeJobId_map hid, rfl, rfl⟩

theorem WorkerRecord.tryFrom_mirrors {w : WorkerRow} {active : ℕ} {now : ℤ}
    {record : WorkerRecord} (h : WorkerRecord.tryFrom w active now = .ok record) :
    record.Mirrors w := by
  unfold WorkerRecord.tryFrom at h
  obtain ⟨-, h⟩ := except_unless_ok.mp h
  cases h
  exact ⟨rfl, rfl, rfl, rfl⟩

/-- The count of a worker's running attempts has to fit an `INTEGER`. -/
theorem WorkerRecord.tryFrom_ok_iff {w : WorkerRow} {active : ℕ} {now : ℤ} :
    (∃ record, WorkerRecord.tryFrom w active now = .ok record ∧ record.Mirrors w) ↔
      active ≤ i32Max := by
  constructor
  · rintro ⟨record, h, -⟩
    unfold WorkerRecord.tryFrom at h
    obtain ⟨hfits, -⟩ := except_unless_ok.mp h
    omega
  · intro hfits
    obtain ⟨record, h⟩ : ∃ record, WorkerRecord.tryFrom w active now = .ok record := by
      unfold WorkerRecord.tryFrom
      rw [if_neg (by omega)]
      exact ⟨_, rfl⟩
    exact ⟨record, h, WorkerRecord.tryFrom_mirrors h⟩

end Decoders

/-! ### The rows of a database -/

/-- Every row decodes to a record of its values; a worker row does if and only if the count of its
running attempts fits. -/
structure Db.ReadsBack (db : Db) : Prop where
  jobs : ∀ r ∈ db.jobs, ∀ artifacts attempts, ∃ record,
    r.tryIntoRecord artifacts attempts = .ok record ∧ record.Mirrors r
  attempts : ∀ a ∈ db.jobAttempts, ∀ name, ∃ record,
    AttemptRecord.tryFrom a name = .ok record ∧ record.Mirrors a
  artifacts : ∀ a ∈ db.artifacts, ∃ record,
    ArtifactRecord.tryFrom a = .ok record ∧ record.Mirrors a
  schedules : ∀ r ∈ db.schedules, ∃ inputs occurrences record,
    loadScheduleInputs db r.id = .ok inputs ∧ loadScheduleOccurrences db r.id = .ok occurrences ∧
      r.tryIntoRecord inputs occurrences = .ok record ∧ record.Mirrors r
  occurrences : ∀ o ∈ db.scheduleOccurrences, ∃ record,
    ScheduleOccurrenceRecord.tryFrom o (db.jobStatusOf o) = .ok record ∧
      record.Mirrors o (db.jobStatusOf o)
  workers : ∀ w ∈ db.workers, ∀ now,
    (∃ record, WorkerRecord.tryFrom w (activeAttempts db w.id) now = .ok record ∧
      record.Mirrors w) ↔ activeAttempts db w.id ≤ i32Max

section Database

variable {db : Db}

/-- An artifact meets its constraints, and its job has a valid id. -/
theorem Db.Inv.artifact (hinv : db.Inv) (hrooted : db.Rooted) {a : ArtifactRow}
    (ha : a ∈ db.artifacts) : holdsAll a.checks = true ∧ 0 < a.jobId ∧ a.jobId ≤ i64Max := by
  have hreadable := hinv.readable a.jobId
  obtain ⟨owner, howner⟩ := Option.isSome_iff_exists.mp (hrooted.artifacts a ha)
  obtain ⟨r, hr, -⟩ := jobOwner_eq_some.mp howner
  have hid := (hreadable.job r hr).id
  rw [show r.id = a.jobId from Table.key_of_get? hr] at hid
  refine ⟨?_, hid⟩
  cases hkind : a.kind with
  | input => exact hreadable.inputs a (mem_artifactsOf.mpr ⟨ha, rfl, hkind⟩)
  | output => exact hreadable.outputs a (mem_artifactsOf.mpr ⟨ha, rfl, hkind⟩)

theorem Db.Legible.readsBack (h : db.Legible) : db.ReadsBack where
  jobs := by
    intro r hr artifacts attempts
    have hsound := (h.inv.readable r.id).job r (Table.get?_key hr)
    obtain ⟨record, hrecord⟩ := JobRow.tryIntoRecord_ok hsound artifacts attempts
    exact ⟨record, hrecord, JobRow.tryIntoRecord_mirrors hrecord⟩
  attempts := by
    intro a ha name
    have hsound := (h.inv.readable a.jobId).attempts a (mem_attemptsOf.mpr ⟨ha, rfl⟩)
    obtain ⟨record, hrecord⟩ := AttemptRecord.tryFrom_ok hsound name
    exact ⟨record, hrecord, AttemptRecord.tryFrom_mirrors hrecord⟩
  artifacts := by
    intro a ha
    obtain ⟨hchecks, hid⟩ := h.inv.artifact (h.inv.rooted h.scheduled) ha
    obtain ⟨record, hrecord⟩ := ArtifactRecord.tryFrom_ok hchecks hid
    exact ⟨record, hrecord, ArtifactRecord.tryFrom_mirrors hrecord⟩
  schedules := by
    intro r hr
    obtain ⟨record, hrecord⟩ := readSchedule_ok h (Table.get?_key hr)
    obtain ⟨inputs, hinputs, hrest⟩ := except_bind_ok.mp hrecord
    obtain ⟨occurrences, hoccurrences, hrow⟩ := except_bind_ok.mp hrest
    exact ⟨inputs, occurrences, record, hinputs, hoccurrences, hrow,
      ScheduleRow.tryIntoRecord_mirrors hrow⟩
  occurrences := by
    intro o ho
    obtain ⟨record, hrecord⟩ := ScheduleOccurrenceRecord.tryFrom_ok h.inv h.linked ho
    exact ⟨record, hrecord, ScheduleOccurrenceRecord.tryFrom_mirrors hrecord⟩
  workers := fun _ _ _ => WorkerRecord.tryFrom_ok_iff

/-! ### Reads -/

/-- The artifacts and attempts of two later moments decode, whatever they are. -/
theorem readJobAcross_ok {t u : Db} {r : JobRow} (hsound : r.Sound) (ht : t.Legible)
    (hu : u.Legible) : ∃ record, readJobAcross t u r = .ok record ∧ record.Mirrors r := by
  obtain ⟨artifacts, hartifacts⟩ : ∃ artifacts, loadArtifacts t r.id = .ok artifacts := by
    refine except_mapM_exists fun a ha => ?_
    have hmem := (List.mem_insertionSort artifactOrder).mp ha
    obtain ⟨record, hrecord, -⟩ := ht.readsBack.artifacts a (List.mem_filter.mp hmem).1
    exact ⟨record, hrecord⟩
  obtain ⟨attempts, hattempts⟩ : ∃ attempts, loadAttempts u r.id = .ok attempts := by
    refine except_mapM_exists fun a ha => ?_
    have hmem := (List.mem_insertionSort attemptOrder).mp ha
    obtain ⟨record, hrecord, -⟩ := hu.readsBack.attempts a (List.mem_filter.mp hmem).1 _
    exact ⟨record, hrecord⟩
  obtain ⟨record, hrecord⟩ := JobRow.tryIntoRecord_ok hsound artifacts attempts
  refine ⟨record, ?_, JobRow.tryIntoRecord_mirrors hrecord⟩
  unfold readJobAcross
  rw [hartifacts, hattempts]
  exact hrecord

theorem readJobs_ok {moment : ℕ → Db} (hmoment : ∀ k, (moment k).Legible) (rows : List JobRow) :
    ∀ k, (∀ r ∈ rows, r.Sound) → ∃ records, readJobs moment k rows = .ok records ∧
      List.Forall₂ JobRecord.Mirrors records rows := by
  induction rows with
  | nil =>
    intro k _
    exact ⟨[], rfl, .nil⟩
  | cons r rows ih =>
    intro k hsound
    obtain ⟨record, hrecord, hmirrors⟩ := readJobAcross_ok (hsound r List.mem_cons_self)
      (hmoment (k + 1)) (hmoment (k + 2))
    obtain ⟨records, hrecords, hall⟩ := ih (k + 2) fun s hs =>
      hsound s (List.mem_cons_of_mem r hs)
    refine ⟨record :: records, ?_, .cons hmirrors hall⟩
    rw [readJobs, hrecord]
    change (readJobs moment (k + 2) rows >>= _) = _
    rw [hrecords]
    rfl

/-- `list` answers with all rows of the owner in the order of their ids. -/
theorem listWithOwner_ok {moment : ℕ → Db} (hmoment : ∀ k, (moment k).Legible)
    (owner : Option ℕ) : ∃ records, listWithOwner owner moment = .ok records ∧
      List.Forall₂ JobRecord.Mirrors records
        (((moment 0).jobs.rows.filter (ownedBy owner)).insertionSort jobOrder) := by
  refine readJobs_ok hmoment _ 0 fun r hr => ?_
  have hmem := (List.mem_filter.mp ((List.mem_insertionSort jobOrder).mp hr)).1
  exact ((hmoment 0).inv.readable r.id).job r (Table.get?_key hmem)

theorem getWithOwnerAcross_ok {moment : ℕ → Db} (hmoment : ∀ k, (moment k).Legible) (id : JobId)
    (owner : Option ℕ) : ∃ found, getWithOwnerAcross id owner moment = .ok found := by
  unfold getWithOwnerAcross
  cases hrow : ((moment 0).jobs.get? id.get).filter (ownedBy owner) with
  | none => exact ⟨none, rfl⟩
  | some r =>
    have hget := (Option.filter_eq_some_iff.mp hrow).1
    have hsound := ((hmoment 0).inv.readable id.get).job r hget
    obtain ⟨record, hrecord, -⟩ := readJobAcross_ok hsound (hmoment 1) (hmoment 2)
    dsimp only
    rw [hrecord]
    exact ⟨some record, rfl⟩

theorem listSchedulesWithOwner_ok (h : db.Legible) (owner : Option ℕ) :
    ∃ records, listSchedulesWithOwner owner db = .ok records := by
  refine except_mapM_exists fun r hr => ?_
  have hmem := (List.mem_filter.mp ((List.mem_insertionSort scheduleOrder).mp hr)).1
  exact readSchedule_ok h (Table.get?_key hmem)

/-- `list_workers` fails for all workers as soon as one count is too large. -/
theorem listWorkers_ok_iff (now : ℤ) : (∃ records, listWorkers now db = .ok records) ↔
    ∀ w ∈ db.workers, activeAttempts db w.id ≤ i32Max := by
  constructor
  · rintro ⟨records, h⟩ w hw
    have hmem : w ∈ db.workers.rows.insertionSort workerOrder :=
      (List.mem_insertionSort workerOrder).mpr hw
    obtain ⟨record, -, hrecord⟩ := forall₂_mem_right (except_mapM_ok.mp h).flip hmem
    by_contra hover
    unfold WorkerRecord.tryFrom at hrecord
    rw [if_pos (by omega)] at hrecord
    cases hrecord
  · intro hfits
    refine except_mapM_exists fun w hw => ?_
    have hmem := (List.mem_insertionSort workerOrder).mp hw
    obtain ⟨record, hrecord, -⟩ := WorkerRecord.tryFrom_ok_iff.mpr (hfits w hmem)
    exact ⟨record, hrecord⟩

end Database

end TaskHarbor
