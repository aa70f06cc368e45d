import TaskHarbor.System.Cancel
import TaskHarbor.System.Keys
import TaskHarbor.System.Records

/-! Failed operations leave no trace. An error before the commit rolls the transaction back, and the
reads and conversions after a commit cannot fail. -/
namespace TaskHarbor

open Relational Transaction Runs

/-! ### Complete operations -/

def discard {α : Type} (x : Session α) : Session Unit := do
  let _ ← x
  return ()

/-- An operation with the reads that follow its commit. -/
def System.session (s : System) : Op → Session Unit
  | .create name => discard (create name s.now)
  | .createImageJob request => discard (createImageJob request s.now)
  | .manualRetry id owner => discard (manualRetry id owner s.now)
  | .requestCancel id owner => discard (requestCancel id owner s.now)
  | .registerWorker registration asOf => discard (registerWorkerRecord registration asOf s.now)
  | .heartbeatWorker workerId ttl asOf => discard (heartbeatWorker workerId ttl asOf)
  | .stopWorker workerId => discard (stopWorker workerId s.now)
  | .claimNext workerId claimToken locked =>
      discard (claimNext workerId none s.now claimToken locked)
  | .renewLease claimed => discard (renewLease claimed none s.now)
  | .updateProgress claimed completed => discard (updateProgress claimed completed s.now)
  | .recordEncodingDuration claimed duration =>
      discard (recordEncodingDuration claimed duration s.now)
  | .recordFailure claimed duration kind message =>
      discard (recordFailure claimed duration kind message s.now)
  | .finishCancelled claimed duration => discard (finishCancelled claimed duration s.now)
  | .complete claimed duration => discard (complete claimed duration s.now)
  | .completeImageJob claimed duration outputs =>
      discard (completeImageJob claimed duration outputs s.now)
  | .reclaim asOf locked => discard (reclaimNextExpiredAttemptAt asOf locked)
  | .createSchedule request => discard (createScheduleRecord request s.now)
  | .updateSchedule id request asOf owner =>
      discard (updateScheduleRecord id request asOf owner s.now)
  | .materialize asOf locked => discard (materializeNextScheduleAt asOf locked s.now)
  | .expireOutputs retentionSeconds => discard (expireOutputArtifacts retentionSeconds s.now)
  | .tick _ | .readClock => pure ()

def RepositoryError.isDatabase : RepositoryError → Bool
  | .database _ => true
  | _ => false

/-- `StateConflict`, `ClaimLost`, `IdempotencyConflict` and `InvalidData`. -/
def RepositoryError.Refusal (e : RepositoryError) : Prop := e.isDatabase = false

theorem discard_run {α : Type} (x : Session α) (db : Db) :
    discard x db = ((x db).1.map fun _ => (), (x db).2) := by
  unfold discard
  rw [Session.bind_run]
  rcases x db with ⟨e | a, db'⟩ <;> rfl

/-- The steps of the machine are the complete operations. -/
theorem System.session_db (s : System) (op : Op) : (s.session op s.db).2 = (s.apply op).db := by
  cases op <;> simp only [System.session, discard_run, createScheduleRecord_db,
    updateScheduleRecord_db, registerWorkerRecord_db, System.apply, System.run, System.runClaim,
    Session.pure_run]

/-! ### Each operation -/

/-- Refusals leave no trace. -/
abbrev Clean {α : Type} (x : Session α) (db : Db) : Prop :=
  Session.Traceless RepositoryError.Refusal x db

theorem discard_clean {α : Type} {x : Session α} {db : Db} (h : Clean x db) :
    Clean (discard x) db := by
  intro e he hrefused
  rw [discard_run] at he ⊢
  cases hx : (x db).1 with
  | ok a =>
    rw [hx] at he
    cases he
  | error e' =>
    rw [hx] at he
    cases he
    exact h e hx hrefused

section Operations

variable {db : Db} {now asOf : ℤ} {claimed : ClaimedJob}

/-- A new job reads back after its commit. -/
theorem insertJob_get? {mk : ℕ → JobRow} {hk} {db db₁ db' : Db} {id : ℕ} {rows : List ArtifactRow}
    (hinsert : insertJob mk hk db = .ok (id, db₁)) (happended : Appended db₁ db' id .input rows) :
    db'.jobs.get? id = some (mk id) := by
  obtain ⟨rfl, -, -, -, rfl⟩ := insertJob_ok.mp hinsert
  rw [happended.jobs]
  exact (Table.get?_insertNew _ _ hk _).trans (if_pos rfl)

theorem create_clean (name : JobName) : Clean (create name now) db := by
  refine Session.traceless_commit_bind fun id db' h => ?_
  simp only [Tx.bind_ok, lift_ok] at h
  obtain ⟨stored, _, ⟨hstored, rfl⟩, hinsert⟩ := h
  have hget := insertJob_get? hinsert (.refl _ _ _)
  have hnew : JobRow.New { JobRow.defaults id stored now with delayMs := demoDelayMs } :=
    insertJob_new hinsert (JobName.stored hstored) rfl rfl rfl rfl (fun _ h => by cases h)
      fun _ h => by cases h
  obtain ⟨record, hrecord⟩ := JobRow.tryIntoRecord_ok hnew.sound [] []
  refine ⟨record, ?_⟩
  simp only [query_run, hget, hrecord]

/-- A key that was found belongs to a job of the caller. -/
theorem existingImageJob_some {request : NewImageJob} {id : ℕ}
    (h : existingImageJob request db = .ok (some id)) :
    ∃ r ∈ db.jobs, r.ownerUserId = request.ownerUserId ∧ r.id = id := by
  unfold existingImageJob at h
  split at h
  · cases h
  · obtain ⟨key, -, h⟩ := except_bind_ok.mp h
    split at h
    · cases h
    · rename_i r hr
      obtain ⟨id', hreplay, h⟩ := except_bind_ok.mp h
      cases h
      have hfound := List.find?_some hr
      simp only [Bool.and_eq_true, beq_iff_eq] at hfound
      refine ⟨r, List.mem_of_find?_eq_some hr, hfound.1, ?_⟩
      unfold replay at hreplay
      split at hreplay
      · cases hreplay
        rfl
      · cases hreplay

theorem createImageJob_clean (hinv : db.Inv) (request : NewImageJob) :
    Clean (createImageJob request now) db := by
  refine Session.traceless_lift_bind fun _ _ => ?_
  refine Session.traceless_commit_bind fun creation db' h => ?_
  have hinv' := (createImageJobTx_evolves h).inv hinv
  rcases createImageJobTx_ok h with ⟨id, hfound, rfl, rfl⟩ |
    ⟨-, id, db₁, rows, hinsert, happended, -, rfl⟩
  · obtain ⟨r, hr, howner, rfl⟩ := existingImageJob_some hfound
    have howned : ownedBy (some request.ownerUserId) r = true := by simp [ownedBy, howner]
    obtain ⟨record, hrecord, -⟩ := readBack_ok hinv' hr howned "read idempotent image job"
    exact ⟨record, hrecord⟩
  · have hget := insertJob_get? hinsert happended
    have hanyone : ownedBy none (request.row request.name.asStr now id) = true := rfl
    obtain ⟨record, hrecord, -⟩ :=
      readBack_ok hinv' (Table.mem_of_get? hget) hanyone "read created image job"
    exact ⟨record, hrecord⟩

theorem getWithOwner_answers (hinv : db.Inv) (id : JobId) (owner : Option ℕ) :
    ∃ found, getWithOwner id owner db = .ok found := by
  rcases getWithOwner_cases hinv id owner with ⟨r, record, -, -, h⟩ | ⟨-, h⟩
  · exact ⟨some record, h⟩
  · exact ⟨none, h⟩

theorem manualRetry_clean (hinv : db.Inv) (id : JobId) (owner : Option ℕ) :
    Clean (manualRetry id owner now) db := by
  refine Session.traceless_commit_bind fun result db' h => ?_
  have hinv' := (manualRetryTx_evolves hinv h).inv hinv
  rcases manualRetryTx_ok h with ⟨-, rfl, -⟩ |
    ⟨source, newId, db₁, rows, -, -, -, rfl, hinsert, happended, -⟩
  · exact ⟨none, rfl⟩
  · have hget := insertJob_get? hinsert happended
    obtain ⟨hpos, hle⟩ := ((hinv'.readable newId).job _ hget).id
    have hdecode : decodeJobId newId = .ok ⟨newId, hpos, hle⟩ := decodeJobId_ok.mpr rfl
    obtain ⟨found, hfound⟩ := getWithOwner_answers hinv' ⟨newId, hpos, hle⟩ owner
    refine ⟨found, ?_⟩
    simp only [Session.bind_run, Session.liftExcept_run, hdecode, query_run, hfound]

theorem requestCancel_clean (hinv : db.Inv) (id : JobId) (owner : Option ℕ) :
    Clean (requestCancel id owner now) db := by
  refine Session.traceless_bind (Session.traceless_commit _ _) fun n db' h e he _ => ?_
  have htx := commit_eq_ok.mp h
  have hinv' := (cancelUpdate_evolves htx).inv hinv
  rcases cancelUpdate_cases htx with ⟨rfl, rfl, -⟩ | ⟨rfl, -⟩
  · rfl
  · obtain ⟨found, hfound⟩ := getWithOwner_answers hinv' id owner
    cases hfound.symm.trans he

/-- A new worker has no attempts. -/
theorem activeAttempts_new (hemployed : db.Employed) {w : Uuid} (hnew : db.workers.get? w = none) :
    activeAttempts db w = 0 := by
  unfold activeAttempts
  rw [List.length_eq_zero_iff, List.filter_eq_nil_iff]
  intro a ha howner
  rw [Bool.and_eq_true, beq_iff_eq] at howner
  have hknown := hemployed a ha w howner.1
  rw [hnew] at hknown
  cases hknown

theorem insertWorker_ok {row : WorkerRow} {db' : Db} {u : Unit}
    (h : insertWorker row db = .ok (u, db')) : db.workers.get? row.id = none ∧
      db'.workers.get? row.id = some row ∧ db'.jobAttempts = db.jobAttempts := by
  unfold insertWorker at h
  obtain ⟨_, -, h⟩ := except_bind_ok.mp h
  split at h
  · rename_i workers hinsert
    cases h
    have hmem : row ∈ workers := (Table.mem_insertKeyed hinsert).mpr (Or.inr rfl)
    refine ⟨?_, Table.get?_key hmem, rfl⟩
    cases hold : db.workers.get? row.id with
    | none => rfl
    | some w =>
      unfold Table.insertKeyed at hinsert
      split at hinsert
      · rename_i hfree
        exact absurd (Table.key_of_get? hold) (hfree w (Table.mem_of_get? hold))
      · cases hinsert
  · cases h

theorem registerWorker_ok {registration : WorkerRegistration} {db' : Db} {u : Unit}
    (h : registerWorker registration asOf db = (.ok u, db')) :
    ∃ row : WorkerRow, row.id = registration.id ∧ insertWorker row db = .ok ((), db') := by
  unfold registerWorker at h
  obtain ⟨_, -, h⟩ := Session.lift_bind_ok.mp h
  obtain ⟨leaseSeconds, -, h⟩ := Session.lift_bind_ok.mp h
  obtain ⟨heartbeatSeconds, -, h⟩ := Session.lift_bind_ok.mp h
  obtain ⟨name, db₁, hname, hinsert⟩ := Tx.bind_ok.mp (commit_eq_ok.mp h)
  obtain ⟨-, rfl⟩ := lift_ok.mp hname
  exact ⟨_, rfl, hinsert⟩

theorem registerWorkerRecord_clean (hemployed : db.Employed) (registration : WorkerRegistration) :
    Clean (registerWorkerRecord registration asOf now) db := by
  refine Session.traceless_bind_ok ?_ fun _ db' h => ?_
  · refine Session.traceless_lift_bind fun _ _ => Session.traceless_lift_bind fun _ _ => ?_
    exact Session.traceless_lift_bind fun _ _ => Session.traceless_commit _ _
  · obtain ⟨row, hid, hinsert⟩ := registerWorker_ok h
    obtain ⟨hnew, hget, hattempts⟩ := insertWorker_ok hinsert
    rw [hid] at hnew hget
    have hnone : activeAttempts db' registration.id = 0 := by
      rw [activeAttempts, hattempts]
      exact activeAttempts_new hemployed hnew
    unfold activeAttempts at hnone
    simp only [query_run, readBackWorker, getWorker, hget, activeAttempts, hnone]
    exact ⟨_, rfl⟩

/-- A new schedule reads back after its commit. -/
theorem createSchedule_readBack (hlegible : db.Legible) {request : NewSchedule} {id : ScheduleId}
    {db' : Db} (h : createSchedule request now db = (.ok id, db')) :
    ∃ record, readBackSchedule id "read created schedule" db' = .ok record := by
  have hturns : db.Turns now (createSchedule request now db).2 := createSchedule_turns
  have hplans : db.Plans (fun _ => True) (fun _ _ _ => False) (fun _ => False)
      (createSchedule request now db).2 := createSchedule_plans trivial
  have hlegible' := hlegible.quiet ⟨hturns, hplans⟩
  rw [h] at hlegible'
  have howned : scheduleOwnedBy none (request.row request.name.asStr now id.get) = true := rfl
  rcases getScheduleWithOwner_cases hlegible' id none with ⟨_, record, -, -, hget⟩ | ⟨hnone, -⟩
  · exact ⟨record, by rw [readBackSchedule, hget]; rfl⟩
  · cases howned.symm.trans (hnone _ (createSchedule_ok h))

theorem createScheduleRecord_clean (hlegible : db.Legible) (request : NewSchedule) :
    Clean (createScheduleRecord request now) db := by
  refine Session.traceless_bind_ok ?_ fun id db' h => createSchedule_readBack hlegible h
  refine Session.traceless_lift_bind fun _ _ => ?_
  refine Session.traceless_commit_bind fun id db' htx => ?_
  obtain ⟨rows, -, hsound, -⟩ := createScheduleTx_ok htx
  have hdecode : decodeScheduleId id = .ok ⟨id, hsound.id.1, hsound.id.2⟩ :=
    decodeScheduleId_ok.mpr rfl
  exact ⟨_, by rw [Session.liftExcept_run, hdecode]⟩

theorem updateScheduleRecord_clean (hlegible : db.Legible) (id : ScheduleId)
    (request : UpdateSchedule) (owner : Option ℕ) :
    Clean (updateScheduleRecord id request asOf owner now) db := by
  refine Session.traceless_bind_ok ?_ fun updated db' h => ?_
  · refine Session.traceless_lift_bind fun _ _ => Session.traceless_lift_bind fun _ _ => ?_
    exact Session.traceless_commit_bind fun n db' _ => ⟨_, rfl⟩
  · have hturns : db.Turns now (updateScheduleAtWithOwner id request asOf owner now db).2 :=
      updateScheduleAtWithOwner_turns
    have hplans : db.Plans (fun _ => False) (fun _ _ _ => True) (fun _ => False)
        (updateScheduleAtWithOwner id request asOf owner now db).2 :=
      updateScheduleAtWithOwner_plans hlegible.inv.schedules fun _ => trivial
    have hlegible' := hlegible.quiet ⟨hturns, hplans⟩
    rw [h] at hlegible'
    cases updated with
    | false => exact ⟨none, rfl⟩
    | true =>
      rcases getScheduleWithOwner_cases hlegible' id owner with
        ⟨_, record, -, -, hget⟩ | ⟨-, hget⟩
      · exact ⟨some record, hget⟩
      · exact ⟨none, hget⟩

theorem materializeNextScheduleAt_clean (hinv : db.Inv) (locked : List ℕ) :
    Clean (materializeNextScheduleAt asOf locked now) db := by
  refine Session.traceless_commit_bind fun result db' h => ?_
  rcases materializeNextScheduleTx_ok.mp h with
    ⟨-, rfl, -⟩ | ⟨candidate, scheduledFor, next, job, coalesced, db₁, hc, rfl, -⟩
  · exact ⟨none, rfl⟩
  · obtain ⟨hpos, hle⟩ := (hinv.schedules candidate (scheduleCandidate_spec hc).1).id
    have hdecode : decodeScheduleId candidate.id = .ok ⟨candidate.id, hpos, hle⟩ :=
      decodeScheduleId_ok.mpr rfl
    simp only [Session.bind_run, Session.liftExcept_run, hdecode]
    exact ⟨_, rfl⟩

theorem reclaimNextExpiredAttemptAt_clean (hinv : db.Inv) (locked : List ℕ) :
    Clean (reclaimNextExpiredAttemptAt asOf locked) db := by
  refine Session.traceless_commit_bind fun result db' h => ?_
  rcases reclaimTx_ok h with ⟨rfl, -⟩ | ⟨a, r, r', w, d, ms, rfl, -, hr, -⟩
  · exact ⟨none, rfl⟩
  · have hid : r.id = a.jobId := Table.key_of_get? hr
    obtain ⟨hpos, hle⟩ := ((hinv.readable a.jobId).job r hr).id
    rw [hid] at hpos hle
    have hdecode : decodeJobId a.jobId = .ok ⟨a.jobId, hpos, hle⟩ := decodeJobId_ok.mpr rfl
    simp only [Session.bind_run, Session.liftExcept_run, hdecode]
    exact ⟨_, rfl⟩

/-- A check of the arguments before a transaction. -/
theorem traceless_guard {α : Type} {c : Prop} [Decidable c] {e : RepositoryError} (t : Tx α) :
    Clean (if c then throw e else commit t) db := by
  split
  · exact Session.traceless_read rfl
  · exact Session.traceless_commit t db

theorem complete_clean (duration : ℕ) : Clean (complete claimed duration now) db := by
  unfold complete
  cases claimed.work with
  | imageResize maxWidth jpegQuality inputs => exact Session.traceless_read rfl
  | demoDelay delay => exact traceless_guard _

theorem completeImageJob_clean (duration : ℕ) (outputs : List PendingOutputArtifact) :
    Clean (completeImageJob claimed duration outputs now) db := by
  unfold completeImageJob
  cases claimed.work with
  | demoDelay delay => exact Session.traceless_read rfl
  | imageResize maxWidth jpegQuality inputs =>
    dsimp only
    split
    · exact Session.traceless_read rfl
    · exact Session.traceless_lift_bind fun _ _ => Session.traceless_commit _ _

end Operations

/-- A complete operation that is refused leaves the database as it was. -/
theorem System.session_clean {s : System} (hs : s.Reachable) (op : Op) :
    Clean (s.session op) s.db := by
  have hinv := hs.legible.inv
  cases op with
  | create name => exact discard_clean (create_clean name)
  | createImageJob request => exact discard_clean (createImageJob_clean hinv request)
  | manualRetry id owner => exact discard_clean (manualRetry_clean hinv id owner)
  | requestCancel id owner => exact discard_clean (requestCancel_clean hinv id owner)
  | registerWorker registration asOf =>
    exact discard_clean (registerWorkerRecord_clean hs.employed registration)
  | heartbeatWorker workerId ttl asOf =>
    refine discard_clean (Session.traceless_lift_bind fun _ _ => ?_)
    exact Session.traceless_lift_bind fun _ _ => Session.traceless_commit _ _
  | stopWorker workerId => exact discard_clean (Session.traceless_commit _ _)
  | claimNext workerId claimToken locked => exact discard_clean (Session.traceless_commit _ _)
  | renewLease claimed => exact discard_clean (Session.traceless_commit _ _)
  | updateProgress claimed completed => exact discard_clean (traceless_guard _)
  | recordEncodingDuration claimed duration => exact discard_clean (traceless_guard _)
  | recordFailure claimed duration kind message =>
    exact discard_clean (Session.traceless_lift_bind fun _ _ => Session.traceless_commit _ _)
  | finishCancelled claimed duration =>
    exact discard_clean (Session.traceless_lift_bind fun _ _ => Session.traceless_commit _ _)
  | complete claimed duration => exact discard_clean (complete_clean duration)
  | completeImageJob claimed duration outputs =>
    exact discard_clean (completeImageJob_clean duration outputs)
  | reclaim asOf locked => exact discard_clean (reclaimNextExpiredAttemptAt_clean hinv locked)
  | createSchedule request => exact discard_clean (createScheduleRecord_clean hs.legible request)
  | updateSchedule id request asOf owner =>
    exact discard_clean (updateScheduleRecord_clean hs.legible id request owner)
  | materialize asOf locked => exact discard_clean (materializeNextScheduleAt_clean hinv locked)
  | expireOutputs retentionSeconds => exact discard_clean (traceless_guard _)
  | tick now => exact Session.traceless_read rfl
  | readClock => exact Session.traceless_read rfl

/-- In every reachable state, an operation that answers `StateConflict`, `ClaimLost`,
`IdempotencyConflict` or `InvalidData` changes nothing, with whatever arguments. -/
theorem failed_operations_leave_no_trace (s : System) (hs : s.Reachable) :
    (∀ op e, (s.session op s.db).1 = .error e → e.Refusal → (s.session op s.db).2 = s.db) ∧
    (∀ workerId asOf claimToken locked e,
      (claimNext workerId asOf s.now claimToken locked s.db).1 = .error e → e.Refusal →
        (claimNext workerId asOf s.now claimToken locked s.db).2 = s.db) ∧
    ∀ claimed asOf e, (renewLease claimed asOf s.now s.db).1 = .error e → e.Refusal →
      (renewLease claimed asOf s.now s.db).2 = s.db :=
  ⟨fun op => System.session_clean hs op,
    fun _ _ _ _ => Session.traceless_commit _ s.db,
    fun _ _ => Session.traceless_commit _ s.db⟩

def sampleLateCancelOps : List Op := sampleClaimOps ++ [.requestCancel jobOne none]

/-- A completion after a cancel closes its attempt, fails on the job and is rolled back. -/
theorem failed_operations_leave_no_trace_late : ∃ (s : System) (claimed : ClaimedJob) (ms : ℕ),
    s.Reachable ∧ claimed ∈ s.claims ∧
    (s.session (.complete claimed ms) s.db).1 = .error (.stateConflict "complete job") ∧
    (s.session (.complete claimed ms) s.db).2 = s.db := by
  have hrun : (exec System.step (System.initial 0) sampleLateCancelOps).any (fun s =>
      s.claims.any fun claimed => match (s.session (.complete claimed 3) s.db).1 with
        | .error e => e == .stateConflict "complete job"
        | .ok _ => false) = true := by
    decide +kernel
  obtain ⟨s, hexec, hclaims⟩ := (Option.any_eq_true _ _).mp hrun
  obtain ⟨claimed, hmem, hanswer⟩ := List.any_eq_true.mp hclaims
  have hrefused : (s.session (.complete claimed 3) s.db).1 =
      .error (.stateConflict "complete job") := by
    split at hanswer
    · rename_i e he
      rw [he, eq_of_beq hanswer]
    · cases hanswer
  have hs := reachable_of_exec hexec
  exact ⟨s, claimed, 3, hs, hmem, hrefused,
    (failed_operations_leave_no_trace s hs).1 _ _ hrefused rfl⟩

end TaskHarbor
