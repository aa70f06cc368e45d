import TaskHarbor.Lifecycle.Readback
import TaskHarbor.Schedule.View

/-! Which rows are new after a transaction. A job row comes from one of the four creations, an
attempt row from a claim of a registered worker; every other transaction only rewrites rows. -/
namespace TaskHarbor

open Relational Transaction

/-- Where a new job row and its input rows come from. The parameter says which uploads the step
may be. -/
inductive Origin (uploads : NewImageJob → Prop) (db : Db) (now : ℤ) (r : JobRow)
    (inputs : List ArtifactRow) : Prop
  | demo (name : JobName)
      (row : r = { JobRow.defaults r.id name.asStr now with delayMs := demoDelayMs })
      (none : inputs = [])
  | upload (request : NewImageJob) (uploads : uploads request) (valid : request.validate = .ok ())
      (storable : ∀ i, request.idempotency = some i → storableText i.key = true)
      (row : r = request.row request.name.asStr now r.id)
      (indexes : inputs.map ArtifactRow.itemIndex = List.range request.inputs.length)
  | retry (source : JobRow) (stored : db.jobs.get? source.id = some source)
      (ended : source.state = .failed ∨ source.state = .cancelled)
      (row : r = source.retryCopy now r.id)
      (copied : List.Forall₂ (fun (s a : ArtifactRow) => ∃ i, a = s.retryCopy r.id now i)
        (db.artifactsOf source.id .input) inputs)
  | occurrence (candidate : ScheduleRow) (scheduledFor : ℤ) (stored : candidate ∈ db.schedules)
      (free : hasOverlap db candidate.id = false)
      (row : r = candidate.jobRow scheduledFor (scheduleInputsOf db candidate.id).length now r.id)
      (copied : List.Forall₂ (fun (s : ScheduleInputRow) a => ∃ i, a = s.artifact r.id now i)
        (scheduleInputsOf db candidate.id) inputs)

/-- The new rows of a step. -/
structure Db.Grows (uploads : NewImageJob → Prop) (now : ℤ) (db db' : Db) : Prop where
  jobs : ∀ id r, db.jobs.get? id = none → db'.jobs.get? id = some r →
    id = db.jobs.next ∧ db.keyFree r ∧ Origin uploads db now r (db'.artifactsOf id .input)
  attempts : ∀ id a, db.jobAttempts.get? id = none → db'.jobAttempts.get? id = some a →
    ∃ worker, a.workerId = some worker.id ∧ db.workers.get? worker.id = some worker
  workers : ∀ id, (db.workers.get? id).isSome = true → (db'.workers.get? id).isSome = true

/-- No job row and no attempt row is new. -/
structure Db.Stays (db db' : Db) : Prop where
  jobs : db.jobs.SameKeys db'.jobs
  attempts : db.jobAttempts.SameKeys db'.jobAttempts
  workers : ∀ id, (db.workers.get? id).isSome = true → (db'.workers.get? id).isSome = true

section Stays

variable {uploads : NewImageJob → Prop} {now : ℤ} {db db' : Db}

theorem Db.Stays.refl (db : Db) : db.Stays db := ⟨.refl _, .refl _, fun _ h => h⟩

theorem Db.Stays.trans {db₁ db₂ db₃ : Db} (h : db₁.Stays db₂) (h' : db₂.Stays db₃) :
    db₁.Stays db₃ :=
  ⟨h.jobs.trans h'.jobs, h.attempts.trans h'.attempts, fun id hid =>
    h'.workers id (h.workers id hid)⟩

theorem Db.Stays.grows (h : db.Stays db') : db.Grows uploads now db' where
  jobs := fun _ _ hnone hsome => (h.jobs.not_new hnone hsome).elim
  attempts := fun _ _ hnone hsome => (h.attempts.not_new hnone hsome).elim
  workers := h.workers

theorem stays_bind {α β : Type} {x : Tx α} {f : α → Tx β} (hx : Tx.Keeps Db.Stays x)
    (hf : ∀ a, Tx.Keeps Db.Stays (f a)) : Tx.Keeps Db.Stays (x >>= f) :=
  Tx.keeps_bind (fun _ _ _ h h' => h.trans h') hx hf

theorem stays_lift {α : Type} (x : Except RepositoryError α) :
    Tx.Keeps Db.Stays (liftM x : Tx α) := Tx.keeps_lift Db.Stays.refl x

theorem stays_pure {α : Type} (a : α) : Tx.Keeps Db.Stays (pure a : Tx α) :=
  Tx.keeps_pure Db.Stays.refl a

theorem stays_get : Tx.Keeps Db.Stays (get : Tx Db) := Tx.keeps_get Db.Stays.refl

theorem updateJobs_stays (p : JobRow → Bool) (f : JobRow → JobRow) (hf) :
    Tx.Keeps Db.Stays (updateJobs p f hf) := by
  intro db n db' h
  cases h
  exact ⟨Table.sameKeys_update _ _ _ hf, .refl _, fun _ h => h⟩

theorem updateAttempts_stays (p : AttemptRow → Bool) (f : AttemptRow → AttemptRow) (hf) :
    Tx.Keeps Db.Stays (updateAttempts p f hf) := by
  intro db n db' h
  cases h
  exact ⟨.refl _, Table.sameKeys_update _ _ _ hf, fun _ h => h⟩

theorem updateSchedules_stays (p : ScheduleRow → Bool) (f : ScheduleRow → ScheduleRow) (hf) :
    Tx.Keeps Db.Stays (updateSchedules p f hf) := by
  intro db n db' h
  cases h
  exact ⟨.refl _, .refl _, fun _ h => h⟩

theorem updateWorkers_stays (p : WorkerRow → Bool) (f : WorkerRow → WorkerRow) (hf) :
    Tx.Keeps Db.Stays (updateWorkers p f hf) := by
  intro db n db' h
  cases h
  refine ⟨.refl _, .refl _, fun id h => ?_⟩
  have hkeys := Table.sameKeys_update db.workers p f hf id
  exact hkeys.trans h

theorem insertArtifact_stays (mk : ℕ → ArtifactRow) (hk) :
    Tx.Keeps Db.Stays (insertArtifact mk hk) := by
  intro db u db' h
  obtain ⟨-, -, -, rfl⟩ := insertArtifact_ok.mp h
  exact ⟨.refl _, .refl _, fun _ h => h⟩

/-- A transaction that keeps the rows, committed. -/
theorem commit_stays {α : Type} {x : Tx α} (h : Tx.Keeps Db.Stays x) :
    Session.Moves Db.Stays (commit x) db :=
  Session.moves_commit (Db.Stays.refl db) fun a db' hx => h db a db' hx

end Stays

/-! ### Transactions without new rows -/

section Frame

variable {now asOf : ℤ} {db : Db} {claimed : ClaimedJob}

theorem finishCancelled_stays {duration : ℕ} :
    Session.Moves Db.Stays (finishCancelled claimed duration now) db := by
  refine Session.moves_lift_bind (Db.Stays.refl db) fun ms _ => commit_stays ?_
  refine stays_bind (updateAttempts_stays _ _ _) fun _ => stays_bind (stays_lift _) fun _ => ?_
  exact stays_bind (updateJobs_stays _ _ _) fun _ => stays_lift _

theorem recordFailure_stays {duration : ℕ} {kind : FailureKind} {message : String} :
    Session.Moves Db.Stays (recordFailure claimed duration kind message now) db := by
  refine Session.moves_lift_bind (Db.Stays.refl db) fun ms _ => commit_stays ?_
  refine stays_bind (updateAttempts_stays _ _ _) fun _ => stays_bind (stays_lift _) fun _ => ?_
  refine Tx.keeps_ite ?_ ?_
  · refine stays_bind (updateJobs_stays _ _ _) fun _ => stays_bind (stays_lift _) fun _ => ?_
    exact stays_pure _
  · refine stays_bind (updateJobs_stays _ _ _) fun _ => stays_bind (stays_lift _) fun _ => ?_
    exact stays_pure _

theorem complete_stays {duration : ℕ} :
    Session.Moves Db.Stays (complete claimed duration now) db := by
  have hrefl : db.Stays db := .refl db
  unfold complete
  cases claimed.work with
  | imageResize => exact hrefl
  | demoDelay =>
    by_cases hlong : i64Max < duration
    · rw [if_pos hlong]
      exact hrefl
    · rw [if_neg hlong]
      refine commit_stays ?_
      refine stays_bind (updateAttempts_stays _ _ _) fun _ => stays_bind (stays_lift _) fun _ => ?_
      exact stays_bind (updateJobs_stays _ _ _) fun _ => stays_lift _

theorem updateProgress_stays {completed : ℕ} :
    Session.Moves Db.Stays (updateProgress claimed completed now) db := by
  unfold updateProgress
  by_cases hlong : i32Max < completed
  · rw [if_pos hlong]
    exact .refl db
  · rw [if_neg hlong]
    refine commit_stays ?_
    refine stays_bind (updateAttempts_stays _ _ _) fun _ => stays_bind (stays_lift _) fun _ => ?_
    exact stays_bind (updateJobs_stays _ _ _) fun _ => stays_lift _

theorem recordEncodingDuration_stays {duration : ℕ} :
    Session.Moves Db.Stays (recordEncodingDuration claimed duration now) db := by
  unfold recordEncodingDuration
  by_cases hlong : i64Max < duration
  · rw [if_pos hlong]
    exact .refl db
  · rw [if_neg hlong]
    refine commit_stays (stays_bind stays_get fun db₀ => ?_)
    refine Tx.keeps_ite (Tx.keeps_throw _) ?_
    exact stays_bind (updateAttempts_stays _ _ _) fun _ => stays_lift _

theorem renewLease_stays {t : Option ℤ} :
    Session.Moves Db.Stays (renewLease claimed t now) db := by
  refine commit_stays (stays_bind stays_get fun db₀ => ?_)
  cases renewalJoin claimed ((t.map bindTimestamp).getD now) db₀ with
  | none => exact Tx.keeps_throw _
  | some worker =>
    refine stays_bind (updateAttempts_stays _ _ _) fun _ => stays_bind (stays_lift _) fun _ => ?_
    exact stays_pure _

theorem insertOutputArtifacts_stays (jobId attemptId : ℕ) (outputs : List PendingOutputArtifact) :
    Tx.Keeps Db.Stays (insertOutputArtifacts jobId attemptId now outputs) := by
  induction outputs with
  | nil => exact stays_pure ()
  | cons output rest ih =>
    refine stays_bind ?_ fun _ => ih
    refine stays_bind (stays_lift _) fun name => stays_bind stays_get fun db₀ => ?_
    cases output.source jobId db₀ with
    | none => exact Tx.keeps_throw _
    | some source => exact stays_bind (stays_lift _) fun _ => insertArtifact_stays _ _

theorem completeImageJobTx_stays (count ms : ℕ) (outputs : List PendingOutputArtifact) :
    Tx.Keeps Db.Stays (completeImageJobTx claimed count ms outputs now) := by
  refine stays_bind (stays_bind stays_get fun db₀ => ?_) fun _ => ?_
  · exact Tx.keeps_ite (stays_pure ()) (Tx.keeps_throw _)
  refine stays_bind (insertOutputArtifacts_stays _ _ _) fun _ => ?_
  refine stays_bind (stays_bind (updateAttempts_stays _ _ _) fun _ => stays_lift _) fun _ => ?_
  exact stays_bind (updateJobs_stays _ _ _) fun _ => stays_lift _

theorem completeImageJob_stays {duration : ℕ} {outputs : List PendingOutputArtifact} :
    Session.Moves Db.Stays (completeImageJob claimed duration outputs now) db := by
  have hrefl : db.Stays db := .refl db
  unfold completeImageJob
  cases claimed.work with
  | demoDelay => exact hrefl
  | imageResize w q inputs =>
    by_cases hlen : outputs.length ≠ inputs.length
    · simp only [if_pos hlen]
      exact hrefl
    · simp only [if_neg hlen]
      exact Session.moves_lift_bind hrefl fun ms _ => commit_stays (completeImageJobTx_stays _ _ _)

theorem requestCancel_stays {id : JobId} {owner : Option ℕ} :
    Session.Moves Db.Stays (requestCancel id owner now) db :=
  Session.moves_bind_read (commit_stays (updateJobs_stays _ _ _)) fun _ _ => rfl

theorem insertWorker_stays (row : WorkerRow) : Tx.Keeps Db.Stays (insertWorker row) := by
  intro db u db' h
  unfold insertWorker at h
  obtain ⟨_, -, h⟩ := except_bind_ok.mp h
  split at h
  · rename_i workers hinsert
    cases h
    refine ⟨.refl _, .refl _, fun id hid => ?_⟩
    obtain ⟨w, hw⟩ := Option.isSome_iff_exists.mp hid
    obtain ⟨hmem, rfl⟩ := Table.get?_eq_some.mp hw
    have hmem' : w ∈ workers := (Table.mem_insertKeyed hinsert).mpr (Or.inl hmem)
    exact Option.isSome_iff_exists.mpr ⟨w, Table.get?_key hmem'⟩
  · cases h

theorem registerWorker_stays {registration : WorkerRegistration} :
    Session.Moves Db.Stays (registerWorker registration asOf) db := by
  have hrefl : db.Stays db := .refl db
  refine Session.moves_lift_bind hrefl fun _ _ => Session.moves_lift_bind hrefl fun _ _ => ?_
  refine Session.moves_lift_bind hrefl fun _ _ => commit_stays ?_
  exact stays_bind (stays_lift _) fun _ => insertWorker_stays _

theorem heartbeatWorker_stays {workerId : Uuid} {ttl : ℕ} :
    Session.Moves Db.Stays (heartbeatWorker workerId ttl asOf) db := by
  have hrefl : db.Stays db := .refl db
  refine Session.moves_lift_bind hrefl fun _ _ => Session.moves_lift_bind hrefl fun _ _ => ?_
  exact commit_stays (stays_bind (updateWorkers_stays _ _ _) fun _ => stays_lift _)

theorem stopWorker_stays {workerId : Uuid} {t : ℤ} :
    Session.Moves Db.Stays (stopWorker workerId t) db := by
  refine commit_stays (stays_bind stays_get fun db₀ => ?_)
  refine Tx.keeps_ite (Tx.keeps_throw _) ?_
  exact stays_bind (updateWorkers_stays _ _ _) fun _ => stays_lift _

theorem disposeReclaimed_stays (a : AttemptRow) (r : JobRow) :
    Tx.Keeps Db.Stays (disposeReclaimed a r asOf) := by
  refine Tx.keeps_ite ?_ (Tx.keeps_ite ?_ ?_)
  · exact stays_bind (stays_bind (updateJobs_stays _ _ _) fun _ => stays_lift _) fun _ =>
      stays_pure _
  · cases checkedAdd asOf (seconds (retryBackoffSeconds a.attemptNumber)) with
    | none => exact Tx.keeps_throw _
    | some availableAt =>
      exact stays_bind (stays_bind (updateJobs_stays _ _ _) fun _ => stays_lift _) fun _ =>
        stays_pure _
  · exact stays_bind (stays_bind (updateJobs_stays _ _ _) fun _ => stays_lift _) fun _ =>
      stays_pure _

theorem reclaimNextExpiredAttemptAt_stays {locked : List ℕ} :
    Session.Moves Db.Stays (reclaimNextExpiredAttemptAt asOf locked) db := by
  refine Session.moves_bind_read (commit_stays (stays_bind stays_get fun db₀ => ?_)) ?_
  · split
    · exact stays_pure _
    · split
      · exact stays_pure _
      · dsimp only
        split
        · refine stays_bind (stays_pure _) fun w => stays_bind (stays_lift _) fun ms => ?_
          refine stays_bind (updateAttempts_stays _ _ _) fun _ => ?_
          refine stays_bind (stays_lift _) fun _ => ?_
          exact stays_bind (disposeReclaimed_stays _ _) fun _ => stays_pure _
        · refine Tx.keeps_bind (fun _ _ _ h h' => h.trans h') (Tx.keeps_throw _) fun w => ?_
          exact stays_bind (stays_lift _) fun _ => stays_bind (updateAttempts_stays _ _ _) fun _ =>
            stays_bind (stays_lift _) fun _ => stays_bind (disposeReclaimed_stays _ _) fun _ =>
              stays_pure _
  · rintro (_ | ⟨a, w, d⟩) db'
    · rfl
    · simp only [Session.bind_run, Session.liftExcept_run]
      cases decodeJobId a.jobId <;> rfl

theorem expireOutputArtifacts_stays {retentionSeconds : ℕ} {t : ℤ} :
    Session.Moves Db.Stays (expireOutputArtifacts retentionSeconds t) db := by
  unfold expireOutputArtifacts
  by_cases hlong : i64Max < retentionSeconds
  · rw [if_pos hlong]
    exact .refl db
  · rw [if_neg hlong]
    refine commit_stays fun db keys db' h => ?_
    rw [expireOutputArtifactsTx_ok] at h
    cases h
    exact ⟨Table.sameKeys_update _ _ _ (by intro r; rfl), .refl _, fun _ h => h⟩

theorem insertScheduleInputs_stays (scheduleId itemIndex : ℕ) (inputs : List NewInputArtifact) :
    Tx.Keeps Db.Stays (insertScheduleInputs scheduleId now itemIndex inputs) := by
  intro db u db' h
  obtain ⟨rows, -, -, -, hframe⟩ := insertScheduleInputs_ok h
  rw [hframe]
  exact ⟨.refl _, .refl _, fun _ h => h⟩

theorem createSchedule_stays {request : NewSchedule} :
    Session.Moves Db.Stays (createSchedule request now) db := by
  refine Session.moves_lift_bind (Db.Stays.refl db) fun _ _ => ?_
  refine Session.moves_bind_read (commit_stays ?_) fun _ _ => rfl
  refine stays_bind (stays_lift _) fun name => stays_bind (stays_lift _) fun _ => ?_
  refine stays_bind (stays_lift _) fun _ => stays_bind ?_ fun id => ?_
  · intro db id db' h
    obtain ⟨-, -, -, rfl⟩ := insertSchedule_ok.mp h
    exact ⟨.refl _, .refl _, fun _ h => h⟩
  · exact stays_bind (insertScheduleInputs_stays _ _ _) fun _ => stays_pure _

theorem updateScheduleAtWithOwner_stays {id : ScheduleId} {request : UpdateSchedule}
    {owner : Option ℕ} :
    Session.Moves Db.Stays (updateScheduleAtWithOwner id request asOf owner now) db := by
  have hrefl : db.Stays db := .refl db
  refine Session.moves_lift_bind hrefl fun _ _ => Session.moves_lift_bind hrefl fun _ _ => ?_
  refine Session.moves_bind_read (commit_stays ?_) fun _ _ => rfl
  refine stays_bind (stays_lift _) fun name => stays_bind (stays_lift _) fun _ => ?_
  exact stays_bind (stays_lift _) fun _ => updateSchedules_stays _ _ _

end Frame

/-! ### New attempts -/

section Claim

variable {uploads : NewImageJob → Prop} {now : ℤ} {db db' : Db}

theorem Claims.grows {workerId claimToken : Uuid} {t : ℤ} {locked : List ℕ} {candidate : JobRow}
    {worker : WorkerRow} {claimed : ClaimedJob}
    (h : Claims db workerId t claimToken locked candidate worker claimed db') :
    db.Grows uploads now db' := by
  have hget := (claimCandidate_spec h.selected).1
  have hworker := (Option.filter_eq_some_iff.mp h.active).1
  have hid : worker.id = workerId := Table.key_of_get? hworker
  rw [h.written]
  constructor
  · intro id r hnone hsome
    have hkeys : ((db.jobs.put (candidate.started t)).get? id).isSome =
        (db.jobs.get? id).isSome := by
      rw [Table.get?_put, Option.isSome_map]
    have hnew : (db.jobs.put (candidate.started t)).get? id = some r := hsome
    rw [hnone, hnew] at hkeys
    cases hkeys
  · intro id a hnone hsome
    have hnew := (jobAttempts_addAttempt _ _ _ id).symm.trans hsome
    split at hnew
    · cases hnew
      rw [← hid] at hworker
      exact ⟨worker, rfl, hworker⟩
    · have hold : db.jobAttempts.get? id = some a := hnew
      rw [hnone] at hold
      cases hold
  · exact fun id hid => hid

theorem claimNext_grows {workerId claimToken : Uuid} {asOf : Option ℤ} {locked : List ℕ} :
    Session.Moves (Db.Grows uploads now) (claimNext workerId asOf now claimToken locked) db := by
  refine Session.moves_commit (Db.Stays.refl db).grows fun result db' h => ?_
  rcases claimNextWithTime_ok h with ⟨-, rfl, -⟩ | ⟨candidate, worker, claimed, -, hclaims⟩
  · exact (Db.Stays.refl db').grows
  · exact hclaims.grows

end Claim

/-! ### New jobs -/

section Create

variable {uploads : NewImageJob → Prop} {now asOf : ℤ} {db db₁ db' : Db}

/-- A job row and its inputs inserted together. -/
theorem grows_created {mk : ℕ → JobRow} {hk} {id : ℕ} {rows : List ArtifactRow} (hinv : db.Inv)
    (hinsert : insertJob mk hk db = .ok (id, db₁)) (happended : Appended db₁ db' id .input rows)
    (horigin : Origin uploads db now (mk id) rows) (hworkers : db'.workers = db.workers) :
    db.Grows uploads now db' := by
  obtain ⟨rfl, -, -, hfree, rfl⟩ := insertJob_ok.mp hinsert
  constructor
  · intro id r hnone hsome
    rw [happended.jobs, Table.get?_insertNew] at hsome
    split at hsome
    · rename_i hid
      subst hid
      cases hsome
      have hempty := ((hinv.lifecycle db.jobs.next).absent (Table.get?_next _)).2.1
      have hinputs : db'.artifactsOf db.jobs.next .input =
          db.artifactsOf db.jobs.next .input ++ rows := happended.artifactsOf
      have hnil : db.artifactsOf db.jobs.next .input = [] := hempty
      rw [hnil, List.nil_append] at hinputs
      rw [hinputs]
      exact ⟨rfl, hfree, horigin⟩
    · rw [hnone] at hsome
      cases hsome
  · intro id a hnone hsome
    rw [happended.jobAttempts] at hsome
    have hold : db.jobAttempts.get? id = some a := hsome
    rw [hnone] at hold
    cases hold
  · intro id hid
    rw [hworkers]
    exact hid

theorem create_grows {name : JobName} (hinv : db.Inv) :
    Session.Moves (Db.Grows uploads now) (create name now) db := by
  unfold create
  refine Session.moves_bind_read
    (Session.moves_commit (Db.Stays.refl db).grows ?_) fun _ _ => rfl
  intro id db' h
  simp only [Tx.bind_ok, lift_ok] at h
  obtain ⟨stored, _, ⟨hstored, rfl⟩, hinsert⟩ := h
  obtain rfl := JobName.stored hstored
  refine grows_created hinv hinsert (.refl _ _ _) (.demo name rfl rfl) ?_
  obtain ⟨-, -, -, -, rfl⟩ := insertJob_ok.mp hinsert
  rfl

/-- The transaction of `create_image_job` finds the job under the key or creates one. -/
theorem createImageJobTx_ok {request : NewImageJob} {c : Creation}
    (h : createImageJobTx request now db = .ok (c, db')) :
    (∃ id, existingImageJob request db = .ok (some id) ∧ c = .existing id ∧ db' = db) ∨
    (existingImageJob request db = .ok none ∧ ∃ id db₁ rows,
      insertJob (request.row request.name.asStr now) (fun _ => rfl) db = .ok (id, db₁) ∧
      Appended db₁ db' id .input rows ∧
      rows.map ArtifactRow.itemIndex = List.range request.inputs.length ∧ c = .created id) := by
  unfold createImageJobTx at h
  simp only [Tx.bind_ok, lift_ok, Tx.get_run, Except.ok.injEq, Prod.mk.injEq] at h
  obtain ⟨_, _, ⟨rfl, rfl⟩, existing, _, ⟨hexisting, rfl⟩, h⟩ := h
  cases existing with
  | some id =>
    cases h
    exact Or.inl ⟨id, hexisting, rfl, rfl⟩
  | none =>
    simp only [Tx.bind_ok, lift_ok, Tx.pure_run, Except.ok.injEq, Prod.mk.injEq] at h
    obtain ⟨stored, _, ⟨hstored, rfl⟩, id, db₁, hinsert, _, db₂, hinputs, rfl, rfl⟩ := h
    obtain rfl := JobName.stored hstored
    obtain ⟨rows, happended, hindexes⟩ := insertInputArtifacts_ok hinputs
    rw [← List.range_eq_range'] at hindexes
    exact Or.inr ⟨hexisting, id, db₁, rows, hinsert, happended, hindexes, rfl⟩

/-- A lookup that answered bound the key as a parameter. -/
theorem existingImageJob_storable {request : NewImageJob} {found : Option ℕ}
    (h : existingImageJob request db = .ok found) {i : IdempotencyRequest}
    (hi : request.idempotency = some i) : storableText i.key = true := by
  unfold existingImageJob at h
  rw [hi] at h
  obtain ⟨key, hkey, -⟩ := except_bind_ok.mp h
  exact (textParam_ok.mp hkey).1

theorem createImageJobTx_grows {request : NewImageJob} {c : Creation} (hinv : db.Inv)
    (huploads : uploads request) (hvalid : request.validate = .ok ())
    (h : createImageJobTx request now db = .ok (c, db')) : db.Grows uploads now db' := by
  rcases createImageJobTx_ok h with
    ⟨id, -, -, rfl⟩ | ⟨hnone, id, db₁, rows, hinsert, happended, hindexes, -⟩
  · exact (Db.Stays.refl db').grows
  · have horigin : Origin uploads db now (request.row request.name.asStr now id) rows :=
      .upload request huploads hvalid (fun i hi => existingImageJob_storable hnone hi) rfl hindexes
    refine grows_created hinv hinsert happended horigin ?_
    rw [happended.frame]
    obtain ⟨-, -, -, -, rfl⟩ := insertJob_ok.mp hinsert
    rfl

theorem createImageJob_grows {request : NewImageJob} (hinv : db.Inv) (huploads : uploads request) :
    Session.Moves (Db.Grows uploads now) (createImageJob request now) db := by
  unfold createImageJob
  refine Session.moves_lift_bind (Db.Stays.refl db).grows fun _ hvalid => ?_
  refine Session.moves_bind_read (Session.moves_commit (Db.Stays.refl db).grows ?_) ?_
  · intro c db' h
    exact createImageJobTx_grows hinv huploads hvalid h
  · rintro (id | id) db' <;> rfl

/-- The transaction of `manual_retry_with_owner` finds nothing to retry or copies a job. -/
theorem manualRetryTx_ok {id : JobId} {owner : Option ℕ} {result : Option ℕ}
    (h : manualRetryTx id owner now db = .ok (result, db')) :
    ((db.jobs.get? id.get).filter (ownedBy owner) = none ∧ result = none ∧ db' = db) ∨
    ∃ source newId db₁ rows, db.jobs.get? id.get = some source ∧ ownedBy owner source = true ∧
      (source.state = .failed ∨ source.state = .cancelled) ∧ result = some newId ∧
      insertJob (source.retryCopy now) (fun _ => rfl) db = .ok (newId, db₁) ∧
      Appended db₁ db' newId .input rows ∧
      List.Forall₂ (fun (s a : ArtifactRow) => ∃ i, a = s.retryCopy newId now i)
        (db.artifactsOf source.id .input) rows := by
  unfold manualRetryTx at h
  simp only [Tx.bind_ok, Tx.get_run, Except.ok.injEq, Prod.mk.injEq] at h
  obtain ⟨_, _, ⟨rfl, rfl⟩, h⟩ := h
  cases hsource : (db.jobs.get? id.get).filter (ownedBy owner) with
  | none =>
    simp only [hsource] at h
    cases h
    exact Or.inl ⟨rfl, rfl, rfl⟩
  | some source =>
    simp only [hsource] at h
    obtain ⟨hget, howned⟩ := Option.filter_eq_some_iff.mp hsource
    split at h
    · cases h
    · rename_i hstate
      simp only [Tx.bind_ok, Tx.get_run, Tx.pure_run, Except.ok.injEq, Prod.mk.injEq] at h
      obtain ⟨newId, db₁, hinsert, _, _, ⟨rfl, rfl⟩, _, _, hcopy, rfl, rfl⟩ := h
      obtain ⟨rows, happended, hrows⟩ := copyInputs_ok (fun s hs => by
        have hselected := (List.mem_filter.mp hs).2
        simp only [Bool.and_eq_true, beq_iff_eq] at hselected
        exact hselected.2) hcopy
      have hended : source.state = .failed ∨ source.state = .cancelled := by
        by_contra hnot
        exact hstate (not_or.mp hnot)
      have hsame : db₁.artifacts = db.artifacts := by
        obtain ⟨-, -, -, -, rfl⟩ := insertJob_ok.mp hinsert
        rfl
      rw [hsame] at hrows
      exact Or.inr ⟨source, newId, db₁, rows, hget, howned, hended, rfl, hinsert, happended, hrows⟩

theorem manualRetry_grows {id : JobId} {owner : Option ℕ} (hinv : db.Inv) :
    Session.Moves (Db.Grows uploads now) (manualRetry id owner now) db := by
  unfold manualRetry
  refine Session.moves_bind_read (Session.moves_commit (Db.Stays.refl db).grows ?_) ?_
  · intro result db' h
    rcases manualRetryTx_ok h with
      ⟨-, -, rfl⟩ | ⟨source, newId, db₁, rows, hget, -, hended, -, hinsert, happended, hrows⟩
    · exact (Db.Stays.refl db').grows
    · have hstored : db.jobs.get? source.id = some source := Table.get?_key (Table.mem_of_get? hget)
      refine grows_created hinv hinsert happended (.retry source hstored hended ?_ hrows) ?_
      · rfl
      · rw [happended.frame]
        obtain ⟨-, -, -, -, rfl⟩ := insertJob_ok.mp hinsert
        rfl
  · rintro (_ | newId) db'
    · rfl
    · simp only [Session.bind_run, Session.liftExcept_run]
      cases decodeJobId newId <;> rfl

theorem materializeJob_grows {candidate : ScheduleRow} {scheduledFor : ℤ} {job : Option JobId}
    (hinv : db.Inv) (hmem : candidate ∈ db.schedules)
    (h : materializeJob candidate scheduledFor (scheduleInputsOf db candidate.id).length now db =
      .ok (job, db')) : db.Grows uploads now db' := by
  rcases materializeJob_ok.mp h with ⟨-, -, rfl⟩ | ⟨hfree, id, db₁, jobId, hinsert, hcopy, -⟩
  · exact (Db.Stays.refl db').grows
  · obtain ⟨rows, happended, hrows⟩ := copyScheduleInputs_ok hcopy
    refine grows_created hinv hinsert happended
      (.occurrence candidate scheduledFor hmem hfree ?_ hrows) ?_
    · rfl
    · rw [happended.frame]
      obtain ⟨-, -, -, -, rfl⟩ := insertJob_ok.mp hinsert
      rfl

theorem Materializes.grows {candidate : ScheduleRow} {scheduledFor next : ℤ}
    {job : Option JobId} {coalesced : ℕ} (hinv : db.Inv) (hmem : candidate ∈ db.schedules)
    (h : Materializes db candidate asOf now scheduledFor next job coalesced db₁ db') :
    db.Grows uploads now db' := by
  have hgrows : db.Grows uploads now db₁ := materializeJob_grows hinv hmem h.made
  rw [h.written]
  exact ⟨hgrows.jobs, hgrows.attempts, hgrows.workers⟩

theorem materializeNextScheduleAt_grows {locked : List ℕ} (hinv : db.Inv) :
    Session.Moves (Db.Grows uploads now) (materializeNextScheduleAt asOf locked now) db := by
  refine materializeNextScheduleAt_moves (Db.Stays.refl db).grows ?_
  intro candidate scheduledFor next job coalesced db₁ db' hc h
  exact h.grows hinv (scheduleCandidate_spec hc).1

end Create

end TaskHarbor
