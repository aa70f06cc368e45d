import TaskHarbor.Lifecycle.Births
import TaskHarbor.Schedule.Cursor

/-! The instants that the queue subtracts from a clock value, the availability of a job and the
start of an attempt, all come from the clock or from a checked addition. -/
namespace TaskHarbor

open Relational Transaction

/-- No job is available and no attempt started before the first `OffsetDateTime`. -/
structure Db.Dated (db : Db) : Prop where
  available : ∀ r ∈ db.jobs, minTimestamp ≤ r.availableAt
  started : ∀ a ∈ db.jobAttempts, minTimestamp ≤ a.startedAt

/-- A step that keeps the database dated. -/
def Db.Dates (db db' : Db) : Prop := db.Dated → db'.Dated

theorem wholeMicros_minTimestamp : WholeMicros minTimestamp := wholeMicros_seconds _

theorem le_bindTimestamp {t : ℤ} (h : minTimestamp ≤ t) : minTimestamp ≤ bindTimestamp t := by
  have hmono := bindTimestamp_mono h
  rwa [bindTimestamp_of_wholeMicros wholeMicros_minTimestamp] at hmono

section Statements

theorem Db.Dates.refl (db : Db) : db.Dates db := fun h => h

theorem dates_bind {α β : Type} {x : Tx α} {f : α → Tx β} (hx : Tx.Keeps Db.Dates x)
    (hf : ∀ a, Tx.Keeps Db.Dates (f a)) : Tx.Keeps Db.Dates (x >>= f) :=
  Tx.keeps_bind (fun _ _ _ h h' hs => h' (h hs)) hx hf

theorem dates_lift {α : Type} (x : Except RepositoryError α) :
    Tx.Keeps Db.Dates (liftM x : Tx α) := Tx.keeps_lift Db.Dates.refl x

theorem dates_pure {α : Type} (a : α) : Tx.Keeps Db.Dates (pure a : Tx α) :=
  Tx.keeps_pure Db.Dates.refl a

theorem dates_get : Tx.Keeps Db.Dates (get : Tx Db) := Tx.keeps_get Db.Dates.refl

theorem updateJobs_dates (p : JobRow → Bool) (f : JobRow → JobRow) (hf)
    (h : ∀ r, minTimestamp ≤ r.availableAt → minTimestamp ≤ (f r).availableAt) :
    Tx.Keeps Db.Dates (updateJobs p f hf) := by
  intro db n db' hrun hdated
  cases hrun
  refine ⟨fun s hs => ?_, hdated.started⟩
  have hmem : s ∈ db.jobs.update p f hf := hs
  obtain ⟨r, hr, rfl⟩ := Table.mem_update.mp hmem
  split
  · exact h r (hdated.available r hr)
  · exact hdated.available r hr

theorem updateAttempts_dates (p : AttemptRow → Bool) (f : AttemptRow → AttemptRow) (hf)
    (h : ∀ a, (f a).startedAt = a.startedAt) : Tx.Keeps Db.Dates (updateAttempts p f hf) := by
  intro db n db' hrun hdated
  cases hrun
  refine ⟨hdated.available, fun s hs => ?_⟩
  have hmem : s ∈ db.jobAttempts.update p f hf := hs
  obtain ⟨a, ha, rfl⟩ := Table.mem_update.mp hmem
  split
  · rw [h]
    exact hdated.started a ha
  · exact hdated.started a ha

theorem insertJob_dates (mk : ℕ → JobRow) (hk) (h : ∀ n, minTimestamp ≤ (mk n).availableAt) :
    Tx.Keeps Db.Dates (insertJob mk hk) := by
  intro db id db' hrun hdated
  obtain ⟨rfl, -, -, -, rfl⟩ := insertJob_ok.mp hrun
  refine ⟨fun r hr => ?_, hdated.started⟩
  have hmem : r ∈ db.jobs.insertNew mk hk := hr
  rcases Table.mem_insertNew.mp hmem with hr | rfl
  · exact hdated.available r hr
  · exact h _

theorem addAttempt_dated {db : Db} {mk : ℕ → AttemptRow} {hk} (hdated : db.Dated)
    (h : ∀ n, minTimestamp ≤ (mk n).startedAt) : (db.addAttempt mk hk).Dated := by
  refine ⟨hdated.available, fun a ha => ?_⟩
  have hmem : a ∈ db.jobAttempts.insertNew mk hk := ha
  rcases Table.mem_insertNew.mp hmem with ha | rfl
  · exact hdated.started a ha
  · exact h _

theorem insertArtifact_dates (mk : ℕ → ArtifactRow) (hk) :
    Tx.Keeps Db.Dates (insertArtifact mk hk) := by
  intro db u db' hrun hdated
  obtain ⟨-, -, -, rfl⟩ := insertArtifact_ok.mp hrun
  exact ⟨hdated.available, hdated.started⟩

/-- A dated transaction, committed. -/
theorem commit_dates {α : Type} {x : Tx α} (h : Tx.Keeps Db.Dates x) (db : Db) :
    Session.Moves Db.Dates (commit x) db :=
  Session.moves_commit (.refl db) (h db)

/-- A session that leaves jobs and attempts alone. -/
theorem Db.Dates.of_eq {db db' : Db} (hjobs : db'.jobs = db.jobs)
    (hattempts : db'.jobAttempts = db.jobAttempts) : db.Dates db' := by
  intro hdated
  constructor
  · rw [hjobs]
    exact hdated.available
  · rw [hattempts]
    exact hdated.started

end Statements

/-! ### Claim holders -/

section Holders

variable {now : ℤ} {db : Db} {claimed : ClaimedJob}

theorem finishCancelled_dates {duration : ℕ} :
    Session.Moves Db.Dates (finishCancelled claimed duration now) db := by
  refine Session.moves_lift_bind (.refl db) fun ms _ => commit_dates ?_ db
  refine dates_bind (updateAttempts_dates _ _ _ fun a => rfl) fun _ => ?_
  refine dates_bind (dates_lift _) fun _ => ?_
  exact dates_bind (updateJobs_dates _ _ _ fun r hr => hr) fun _ => dates_lift _

theorem recordFailure_dates {duration : ℕ} {kind : FailureKind} {message : String}
    (hnow : minTimestamp ≤ now) :
    Session.Moves Db.Dates (recordFailure claimed duration kind message now) db := by
  refine Session.moves_lift_bind (.refl db) fun ms _ => commit_dates ?_ db
  refine dates_bind (updateAttempts_dates _ _ _ fun a => rfl) fun _ => ?_
  refine dates_bind (dates_lift _) fun _ => Tx.keeps_ite ?_ ?_
  · refine dates_bind (updateJobs_dates _ _ _ fun r _ => ?_) fun _ => ?_
    · show minTimestamp ≤ now + seconds (retryBackoffSeconds claimed.attemptNumber)
      have hpos : 0 ≤ seconds (retryBackoffSeconds claimed.attemptNumber) :=
        Int.mul_nonneg (Int.natCast_nonneg _) (by decide)
      omega
    · exact dates_bind (dates_lift _) fun _ => dates_pure _
  · refine dates_bind (updateJobs_dates _ _ _ fun r hr => hr) fun _ => ?_
    exact dates_bind (dates_lift _) fun _ => dates_pure _

theorem complete_dates {duration : ℕ} :
    Session.Moves Db.Dates (complete claimed duration now) db := by
  unfold complete
  cases claimed.work with
  | imageResize => exact .refl db
  | demoDelay =>
    by_cases hlong : i64Max < duration
    · rw [if_pos hlong]
      exact .refl db
    · rw [if_neg hlong]
      refine commit_dates ?_ db
      refine dates_bind (updateAttempts_dates _ _ _ fun a => rfl) fun _ => ?_
      refine dates_bind (dates_lift _) fun _ => ?_
      exact dates_bind (updateJobs_dates _ _ _ fun r hr => hr) fun _ => dates_lift _

theorem updateProgress_dates {completed : ℕ} :
    Session.Moves Db.Dates (updateProgress claimed completed now) db := by
  unfold updateProgress
  by_cases hlong : i32Max < completed
  · rw [if_pos hlong]
    exact .refl db
  · rw [if_neg hlong]
    refine commit_dates ?_ db
    refine dates_bind (updateAttempts_dates _ _ _ fun a => rfl) fun _ => ?_
    refine dates_bind (dates_lift _) fun _ => ?_
    exact dates_bind (updateJobs_dates _ _ _ fun r hr => hr) fun _ => dates_lift _

theorem recordEncodingDuration_dates {duration : ℕ} :
    Session.Moves Db.Dates (recordEncodingDuration claimed duration now) db := by
  unfold recordEncodingDuration
  by_cases hlong : i64Max < duration
  · rw [if_pos hlong]
    exact .refl db
  · rw [if_neg hlong]
    refine commit_dates (dates_bind dates_get fun db₀ => Tx.keeps_ite (Tx.keeps_throw _) ?_) db
    exact dates_bind (updateAttempts_dates _ _ _ fun a => rfl) fun _ => dates_lift _

theorem renewLease_dates {t : Option ℤ} :
    Session.Moves Db.Dates (renewLease claimed t now) db := by
  refine commit_dates (dates_bind dates_get fun db₀ => ?_) db
  cases renewalJoin claimed ((t.map bindTimestamp).getD now) db₀ with
  | none => exact Tx.keeps_throw _
  | some worker =>
    refine dates_bind (updateAttempts_dates _ _ _ fun a => rfl) fun _ => ?_
    exact dates_bind (dates_lift _) fun _ => dates_pure _

theorem insertOutputArtifacts_dates (jobId attemptId : ℕ) (outputs : List PendingOutputArtifact) :
    Tx.Keeps Db.Dates (insertOutputArtifacts jobId attemptId now outputs) := by
  induction outputs with
  | nil => exact dates_pure ()
  | cons output rest ih =>
    refine dates_bind (dates_bind (dates_lift _) fun name => dates_bind dates_get fun db₀ => ?_)
      fun _ => ih
    cases output.source jobId db₀ with
    | none => exact Tx.keeps_throw _
    | some source => exact dates_bind (dates_lift _) fun _ => insertArtifact_dates _ _

theorem completeImageJobTx_dates (count ms : ℕ) (outputs : List PendingOutputArtifact) :
    Tx.Keeps Db.Dates (completeImageJobTx claimed count ms outputs now) := by
  refine dates_bind (dates_bind dates_get fun db₀ => ?_) fun _ => ?_
  · exact Tx.keeps_ite (dates_pure ()) (Tx.keeps_throw _)
  refine dates_bind (insertOutputArtifacts_dates _ _ _) fun _ => dates_bind ?_ fun _ => ?_
  · exact dates_bind (updateAttempts_dates _ _ _ fun a => rfl) fun _ => dates_lift _
  · exact dates_bind (updateJobs_dates _ _ _ fun r hr => hr) fun _ => dates_lift _

theorem completeImageJob_dates {duration : ℕ} {outputs : List PendingOutputArtifact} :
    Session.Moves Db.Dates (completeImageJob claimed duration outputs now) db := by
  unfold completeImageJob
  cases claimed.work with
  | demoDelay => exact .refl db
  | imageResize w q inputs =>
    by_cases hlen : outputs.length ≠ inputs.length
    · simp only [if_pos hlen]
      exact .refl db
    · simp only [if_neg hlen]
      exact Session.moves_lift_bind (.refl db) fun ms _ =>
        commit_dates (completeImageJobTx_dates _ _ _) db

end Holders

/-! ### Creations, claims and the other calls -/

section Calls

variable {now asOf : ℤ} {db : Db}

theorem create_dates {name : JobName} (hnow : minTimestamp ≤ now) :
    Session.Moves Db.Dates (create name now) db := by
  refine Session.moves_bind_read (commit_dates ?_ db) fun _ _ => rfl
  exact dates_bind (dates_lift _) fun stored => insertJob_dates _ _ fun n => hnow

theorem createImageJob_dates {request : NewImageJob} (hnow : minTimestamp ≤ now)
    (hdated : ∀ t, request.availableAt = some t → minTimestamp ≤ t) :
    Session.Moves Db.Dates (createImageJob request now) db := by
  have hrow : ∀ n, minTimestamp ≤ (request.row request.name.asStr now n).availableAt := by
    intro n
    show minTimestamp ≤ (request.availableAt.map bindTimestamp).getD now
    cases ht : request.availableAt with
    | none => exact hnow
    | some t => exact le_bindTimestamp (hdated t ht)
  refine Session.moves_lift_bind (.refl db) fun _ _ => ?_
  refine Session.moves_bind_read (Session.moves_commit (.refl db) ?_) ?_
  · intro c db' h
    rcases createImageJobTx_ok h with ⟨id, -, -, rfl⟩ | ⟨-, id, db₁, rows, hinsert, happended, -⟩
    · exact .refl db'
    · intro hdated
      exact Db.Dates.of_eq happended.jobs happended.jobAttempts
        (insertJob_dates _ _ hrow db id db₁ hinsert hdated)
  · rintro (id | id) db' <;> rfl

theorem manualRetry_dates {id : JobId} {owner : Option ℕ} (hnow : minTimestamp ≤ now) :
    Session.Moves Db.Dates (manualRetry id owner now) db := by
  refine Session.moves_bind_read (Session.moves_commit (.refl db) ?_) ?_
  · intro result db' h
    rcases manualRetryTx_ok h with
      ⟨-, -, rfl⟩ | ⟨source, newId, db₁, rows, -, -, -, -, hinsert, happended, -⟩
    · exact .refl db'
    · intro hdated
      exact Db.Dates.of_eq happended.jobs happended.jobAttempts
        (insertJob_dates _ _ (fun n => hnow) db newId db₁ hinsert hdated)
  · rintro (_ | newId) db'
    · rfl
    · simp only [Session.bind_run, Session.liftExcept_run]
      cases decodeJobId newId <;> rfl

theorem requestCancel_dates {id : JobId} {owner : Option ℕ} :
    Session.Moves Db.Dates (requestCancel id owner now) db := by
  refine Session.moves_bind_read (commit_dates (updateJobs_dates _ _ _ ?_) db) fun _ _ => rfl
  intro r hr
  exact hr

theorem Claims.dates {workerId claimToken : Uuid} {t : ℤ} {locked : List ℕ} {candidate : JobRow}
    {worker : WorkerRow} {claimed : ClaimedJob} (ht : minTimestamp ≤ t)
    (h : Claims db workerId t claimToken locked candidate worker claimed db') : db.Dates db' := by
  intro hdated
  rw [h.written]
  refine addAttempt_dated ⟨fun r hr => ?_, hdated.started⟩ fun n => ht
  rcases Table.mem_put hr with hr | rfl
  · exact hdated.available r hr
  · exact hdated.available candidate (Table.mem_of_get? (claimCandidate_spec h.selected).1)

theorem claimNext_dates {workerId claimToken : Uuid} {locked : List ℕ}
    (hnow : minTimestamp ≤ now) :
    Session.Moves Db.Dates (claimNext workerId none now claimToken locked) db := by
  refine Session.moves_commit (.refl db) fun result db' h => ?_
  rcases claimNextWithTime_ok h with ⟨-, rfl, -⟩ | ⟨candidate, worker, claimed, -, hclaims⟩
  · exact .refl db'
  · exact hclaims.dates hnow

theorem reclaimNextExpiredAttemptAt_dates {locked : List ℕ} :
    Session.Moves Db.Dates (reclaimNextExpiredAttemptAt asOf locked) db := by
  refine Session.moves_bind_read (Session.moves_commit (.refl db) ?_) ?_
  · intro result db' h
    rcases reclaimTx_ok h with
      ⟨-, rfl, -⟩ | ⟨a, r, r', w, d, ms, -, hc, hr, hdisposed, hid, -, -, rfl⟩
    · exact .refl db'
    intro hdated
    constructor
    · intro s hs
      rcases Table.mem_put hs with hs | rfl
      · exact hdated.available s hs
      have hold := hdated.available r (Table.mem_of_get? hr)
      cases hdisposed with
      | cancelled hstate => exact hold
      | retried availableAt hstate hroom ht =>
        obtain ⟨rfl, hmin, -⟩ := checkedAdd_eq_some.mp ht
        exact le_bindTimestamp hmin
      | failed hstate hroom => exact hold
    · intro b hb
      rcases Table.mem_put hb with hb | rfl
      · exact hdated.started b hb
      · have hold := hdated.started a (Table.mem_of_get? (expiredCandidate_spec hc).1)
        unfold AttemptRow.expired
        split <;> exact hold
  · rintro (_ | ⟨a, w, d⟩) db'
    · rfl
    · simp only [Session.bind_run, Session.liftExcept_run]
      cases decodeJobId a.jobId <;> rfl

theorem materializeNextScheduleAt_dates {locked : List ℕ}
    (hsound : ∀ s ∈ db.schedules, s.Sound) :
    Session.Moves Db.Dates (materializeNextScheduleAt asOf locked now) db := by
  refine materializeNextScheduleAt_moves (.refl db) ?_
  intro candidate scheduledFor next job coalesced db₁ db' hc hm
  have hpos := (hsound candidate (scheduleCandidate_spec hc).1).interval_pos
  have hslot : minTimestamp ≤ scheduledFor := ((latestDueSlot_ok hpos).mp hm.slot).2.2.2.2.2.1.1
  have hmade : db.Dates db₁ := by
    rcases materializeJob_ok.mp hm.made with ⟨-, -, rfl⟩ | ⟨-, id, db₂, jobId, hinsert, hcopy, -⟩
    · exact .refl db₁
    · obtain ⟨rows, happended, -⟩ := copyScheduleInputs_ok hcopy
      intro hdated
      exact Db.Dates.of_eq happended.jobs happended.jobAttempts
        (insertJob_dates _ _ (fun n => hslot) db id db₂ hinsert hdated)
  intro hdated
  rw [hm.written]
  exact ⟨(hmade hdated).available, (hmade hdated).started⟩

theorem insertWorker_dates (row : WorkerRow) : Tx.Keeps Db.Dates (insertWorker row) := by
  intro db u db' h
  unfold insertWorker at h
  obtain ⟨_, -, h⟩ := except_bind_ok.mp h
  split at h
  · cases h
    exact .of_eq rfl rfl
  · cases h

theorem registerWorker_dates {registration : WorkerRegistration} :
    Session.Moves Db.Dates (registerWorker registration asOf) db := by
  refine Session.moves_lift_bind (.refl db) fun _ _ => ?_
  refine Session.moves_lift_bind (.refl db) fun _ _ => ?_
  refine Session.moves_lift_bind (.refl db) fun _ _ => commit_dates ?_ db
  exact dates_bind (dates_lift _) fun _ => insertWorker_dates _

theorem updateWorkers_dates (p : WorkerRow → Bool) (f : WorkerRow → WorkerRow) (hf) :
    Tx.Keeps Db.Dates (updateWorkers p f hf) := by
  intro db n db' h
  cases h
  exact .of_eq rfl rfl

theorem heartbeatWorker_dates {workerId : Uuid} {ttl : ℕ} :
    Session.Moves Db.Dates (heartbeatWorker workerId ttl asOf) db := by
  refine Session.moves_lift_bind (.refl db) fun _ _ => ?_
  refine Session.moves_lift_bind (.refl db) fun _ _ => commit_dates ?_ db
  exact dates_bind (updateWorkers_dates _ _ _) fun _ => dates_lift _

theorem stopWorker_dates {workerId : Uuid} {t : ℤ} :
    Session.Moves Db.Dates (stopWorker workerId t) db := by
  refine commit_dates (dates_bind dates_get fun db₀ => Tx.keeps_ite (Tx.keeps_throw _) ?_) db
  exact dates_bind (updateWorkers_dates _ _ _) fun _ => dates_lift _

theorem expireOutputArtifacts_dates {retentionSeconds : ℕ} {t : ℤ} :
    Session.Moves Db.Dates (expireOutputArtifacts retentionSeconds t) db := by
  unfold expireOutputArtifacts
  by_cases hlong : i64Max < retentionSeconds
  · rw [if_pos hlong]
    exact .refl db
  · rw [if_neg hlong]
    refine commit_dates (fun db keys db' h => ?_) db
    rw [expireOutputArtifactsTx_ok] at h
    cases h
    intro hdated
    refine ⟨fun r hr => ?_, hdated.started⟩
    obtain ⟨r₀, hr₀, hsame⟩ := List.mem_map.mp hr
    rw [← hsame]
    split <;> exact hdated.available r₀ hr₀

theorem createSchedule_dates {request : NewSchedule} :
    Session.Moves Db.Dates (createSchedule request now) db := by
  refine Session.moves_lift_bind (.refl db) fun _ _ => ?_
  refine Session.moves_bind_read (commit_dates (fun db id db' h => ?_) db) fun _ _ => rfl
  obtain ⟨rows, -, -, -, -, -, hframe⟩ := createScheduleTx_ok h
  exact .of_eq (by rw [hframe]) (by rw [hframe])

theorem updateScheduleAtWithOwner_dates {id : ScheduleId} {request : UpdateSchedule}
    {owner : Option ℕ} :
    Session.Moves Db.Dates (updateScheduleAtWithOwner id request asOf owner now) db := by
  refine Session.moves_lift_bind (.refl db) fun _ _ => ?_
  refine Session.moves_lift_bind (.refl db) fun _ _ => ?_
  refine Session.moves_bind_read (commit_dates (fun db id db' h => ?_) db) fun _ _ => rfl
  rcases updateScheduleTx_ok h with rfl | ⟨s, -, -, rfl⟩
  · exact .refl db'
  · exact .of_eq rfl rfl

end Calls

end TaskHarbor
