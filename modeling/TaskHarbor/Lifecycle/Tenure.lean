import TaskHarbor.Lifecycle.Births
import TaskHarbor.Lifecycle.Pace

/-! Whose call it takes to change an attempt row or a worker row. The calls of a claim holder touch
the one attempt that the claim is about, a claim adds a row, a reclaim closes a row whose lease is
over, and no other transaction touches the attempts; the rows of workers change by the calls of the
workers themselves, and not any more once a worker has stopped. -/
namespace TaskHarbor

open Relational Transaction

/-- The attempt row `a'` continues `a`: only a renewal moves the lease, and no attempt starts
twice. -/
structure AttemptRow.Continues (a a' : AttemptRow) : Prop where
  id : a'.id = a.id
  workerId : a'.workerId = a.workerId
  leaseExpiresAt : a'.leaseExpiresAt = a.leaseExpiresAt
  running : a'.state = .running → a.state = .running

/-- The attempt is closed without a success. -/
def AttemptRow.GivenUp (a : AttemptRow) : Prop := a.state = .failed ∨ a.state = .cancelled

theorem AttemptRow.GivenUp.closed {a : AttemptRow} (h : a.GivenUp) :
    a.state ≠ .running ∧ a.state ≠ .succeeded := by
  rcases h with h | h <;> simp [h]

/-- A call that is not about an attempt or a worker. -/
structure Db.Aside (db db' : Db) : Prop where
  attempts : db'.jobAttempts = db.jobAttempts
  workers : db'.workers = db.workers

/-- What a call about `claimed` other than a renewal does to the table of attempts. -/
inductive Db.Tends (claimed : ClaimedJob) (db db' : Db) : Prop
  | same (h : db.Aside db')
  | wrote (a a' : AttemptRow) (row : db.jobAttempts.get? claimed.attemptId = some a)
      (continues : a.Continues a') (put : db'.jobAttempts = db.jobAttempts.put a')
      (workers : db'.workers = db.workers)

/-- What a renewal does: the worker of the claim is active. -/
inductive Db.Renews (claimed : ClaimedJob) (now : ℤ) (db db' : Db) : Prop
  | same (h : db.Aside db')
  | wrote (a : AttemptRow) (worker : WorkerRow)
      (row : db.jobAttempts.get? claimed.attemptId = some a)
      (owner : a.workerId = some claimed.workerId)
      (active : activeWorker db claimed.workerId now = some worker)
      (put : db'.jobAttempts = db.jobAttempts.put
        { a with leaseExpiresAt := some (now + seconds worker.leaseDurationSeconds) })
      (workers : db'.workers = db.workers)

/-- What a claim of worker `workerId` does. -/
inductive Db.Opens (workerId : Uuid) (now : ℤ) (db db' : Db) : Prop
  | same (h : db.Aside db')
  | added (a : AttemptRow) (worker : WorkerRow)
      (active : activeWorker db workerId now = some worker) (owner : a.workerId = some workerId)
      (lease : a.leaseExpiresAt = some (now + seconds worker.leaseDurationSeconds))
      (rows : db'.jobAttempts.rows = db.jobAttempts.rows ++ [a])
      (workers : db'.workers = db.workers)

/-- What a reclaim at `t` does. -/
inductive Db.Expires (t : ℤ) (db db' : Db) : Prop
  | same (h : db.Aside db')
  | wrote (a a' : AttemptRow) (row : db.jobAttempts.get? a.id = some a)
      (due : a.leaseOver t = true) (continues : a.Continues a') (given : a'.GivenUp)
      (put : db'.jobAttempts = db.jobAttempts.put a') (workers : db'.workers = db.workers)

/-- What a call at `t` makes of the worker row `w`: a stopped worker stays as it is. -/
structure WorkerRow.Serves (t : ℤ) (w w' : WorkerRow) : Prop where
  id : w'.id = w.id
  leaseDurationSeconds : w'.leaseDurationSeconds = w.leaseDurationSeconds
  stopped : ∀ x, w.stoppedAt = some x → w' = w
  stops : w.stoppedAt = none → w'.stoppedAt = none ∨ w'.stoppedAt = some t

/-- What a call of a worker about itself does. -/
structure Db.Staffs (t : ℤ) (db db' : Db) : Prop where
  attempts : db'.jobAttempts = db.jobAttempts
  kept : ∀ w ∈ db.workers, ∃ w' ∈ db'.workers, w.Serves t w'
  added : ∀ w' ∈ db'.workers, (∃ w ∈ db.workers, w.Serves t w') ∨ db.workers.get? w'.id = none

section Rules

variable {db db' : Db}

theorem Db.Aside.refl (db : Db) : db.Aside db := ⟨rfl, rfl⟩

theorem WorkerRow.Serves.refl (t : ℤ) (w : WorkerRow) : w.Serves t w where
  id := rfl
  leaseDurationSeconds := rfl
  stopped _ _ := rfl
  stops := Or.inl

theorem Db.Staffs.refl (t : ℤ) (db : Db) : db.Staffs t db where
  attempts := rfl
  kept w hw := ⟨w, hw, .refl t w⟩
  added w hw := Or.inl ⟨w, hw, .refl t w⟩

/-- An UPDATE of workers lets every row serve. -/
theorem updateWorkers_staffs {t : ℤ} {p : WorkerRow → Bool} {f : WorkerRow → WorkerRow} {hf}
    {n : ℕ} (h : updateWorkers p f hf db = .ok (n, db'))
    (hserves : ∀ w, p w = true → w.Serves t (f w)) : db.Staffs t db' := by
  cases h
  have hrow : ∀ w : WorkerRow, w.Serves t (if p w then f w else w) := by
    intro w
    by_cases hp : p w = true
    · rw [if_pos hp]
      exact hserves w hp
    · rw [if_neg hp]
      exact .refl t w
  have hmem : ∀ w', w' ∈ db.workers.update p f hf ↔
      ∃ w ∈ db.workers, w' = if p w then f w else w := fun w' => Table.mem_update
  refine ⟨rfl, fun w hw => ⟨_, (hmem _).mpr ⟨w, hw, rfl⟩, hrow w⟩, fun w' hw' => ?_⟩
  obtain ⟨w, hw, rfl⟩ := (hmem w').mp hw'
  exact Or.inl ⟨w, hw, hrow w⟩

theorem insertWorker_staffs {t : ℤ} {row : WorkerRow} {u : Unit}
    (h : insertWorker row db = .ok (u, db')) : db.Staffs t db' := by
  unfold insertWorker at h
  obtain ⟨_, -, h⟩ := except_bind_ok.mp h
  split at h
  · rename_i workers hinsert
    cases h
    have hmem : ∀ w : WorkerRow, w ∈ workers ↔ w ∈ db.workers ∨ w = row :=
      fun w => Table.mem_insertKeyed hinsert
    refine ⟨rfl, fun w hw => ⟨w, (hmem w).mpr (Or.inl hw), .refl t w⟩, fun w hw => ?_⟩
    rcases (hmem w).mp hw with hold | rfl
    · exact Or.inl ⟨w, hold, .refl t w⟩
    · exact Or.inr (Table.insertKeyed_new hinsert)
  · cases h

theorem insertJob_aside {mk : ℕ → JobRow} {hk} {n : ℕ} (h : insertJob mk hk db = .ok (n, db')) :
    db.Aside db' := by
  obtain ⟨-, -, -, -, rfl⟩ := insertJob_ok.mp h
  exact ⟨rfl, rfl⟩

/-- The rows of a job and of its inputs. -/
theorem createdJob_aside {mk : ℕ → JobRow} {hk} {n jobId : ℕ} {db₁ : Db} {kind : ArtifactKind}
    {rows : List ArtifactRow} (hinsert : insertJob mk hk db = .ok (n, db₁))
    (happended : Appended db₁ db' jobId kind rows) : db.Aside db' := by
  have haside := insertJob_aside hinsert
  rw [happended.frame]
  exact ⟨haside.attempts, haside.workers⟩

end Rules

/-! ### The calls of claim holders -/

section Holders

variable {now : ℤ} {db : Db} {claimed : ClaimedJob}

theorem closed_continues {state : AttemptStatus} {kind : ErrorKind} {message : String} {t : ℤ}
    {ms : ℕ} (a : AttemptRow) (h : state ≠ .running) :
    a.Continues (a.closed state kind message t ms) := ⟨rfl, rfl, rfl, fun hrun => absurd hrun h⟩

theorem completed_continues (a : AttemptRow) (t : ℤ) (ms : ℕ) : a.Continues (a.completed t ms) :=
  ⟨rfl, rfl, rfl, fun hrun => by cases hrun⟩

theorem finishCancelled_tends {duration : ℕ} :
    Session.Moves (Db.Tends claimed) (finishCancelled claimed duration now) db := by
  refine Session.moves_lift_bind (.same ⟨rfl, rfl⟩) fun ms _ =>
    Session.moves_commit (.same ⟨rfl, rfl⟩) ?_
  intro u db' h
  obtain ⟨a, r, hlive, -, rfl⟩ := finishCancelledTx_ok.mp h
  exact .wrote a _ hlive.attempt (closed_continues a (by decide)) rfl rfl

theorem recordFailure_tends {duration : ℕ} {kind : FailureKind} {message : String} :
    Session.Moves (Db.Tends claimed) (recordFailure claimed duration kind message now) db := by
  refine Session.moves_lift_bind (.same ⟨rfl, rfl⟩) fun ms _ =>
    Session.moves_commit (.same ⟨rfl, rfl⟩) ?_
  intro d db' h
  obtain ⟨a, r, hlive, -, hend⟩ := recordFailureTx_ok.mp h
  have hcontinues : a.Continues (a.closed .failed kind.errorKind message now ms) :=
    closed_continues a (by decide)
  rcases hend with ⟨-, -, rfl⟩ | ⟨-, -, rfl⟩
  · exact .wrote a _ hlive.attempt hcontinues rfl rfl
  · exact .wrote a _ hlive.attempt hcontinues rfl rfl

theorem complete_tends {duration : ℕ} :
    Session.Moves (Db.Tends claimed) (complete claimed duration now) db := by
  have hsame : Db.Tends claimed db db := .same ⟨rfl, rfl⟩
  unfold complete
  cases claimed.work with
  | imageResize => exact hsame
  | demoDelay =>
    by_cases hlong : i64Max < duration
    · rw [if_pos hlong]
      exact hsame
    · rw [if_neg hlong]
      refine Session.moves_commit hsame fun u db' h => ?_
      obtain ⟨a, r, hlive, -, -, rfl⟩ := completeTx_ok.mp h
      exact .wrote a _ hlive.attempt (completed_continues a now duration) rfl rfl

theorem completeImageJob_tends {duration : ℕ} {outputs : List PendingOutputArtifact} :
    Session.Moves (Db.Tends claimed) (completeImageJob claimed duration outputs now) db := by
  have hsame : Db.Tends claimed db db := .same ⟨rfl, rfl⟩
  unfold completeImageJob
  cases claimed.work with
  | demoDelay => exact hsame
  | imageResize w q inputs =>
    by_cases hlen : outputs.length ≠ inputs.length
    · simp only [if_pos hlen]
      exact hsame
    · simp only [if_neg hlen]
      refine Session.moves_lift_bind hsame fun ms _ => Session.moves_commit hsame fun u db' h => ?_
      obtain ⟨a, r, db₁, hlive, -, -, hinsert, rfl⟩ := completeImageJobTx_ok.mp h
      obtain ⟨-, rows, happended, -⟩ := insertOutputArtifacts_ok hinsert
      refine .wrote a _ hlive.attempt (completed_continues a now ms) ?_ ?_
      · show db₁.jobAttempts.put _ = _
        rw [happended.jobAttempts]
      · show db₁.workers = _
        rw [happended.frame]

theorem updateProgress_tends {completed : ℕ} :
    Session.Moves (Db.Tends claimed) (updateProgress claimed completed now) db := by
  unfold updateProgress
  by_cases hlong : i32Max < completed
  · rw [if_pos hlong]
    exact .same ⟨rfl, rfl⟩
  · rw [if_neg hlong]
    refine Session.moves_commit (.same ⟨rfl, rfl⟩) fun u db' h => ?_
    obtain ⟨a, r, hlive, -, -, -, rfl⟩ := updateProgressTx_ok.mp h
    exact .wrote a { a with progressCompleted := completed } hlive.attempt
      ⟨rfl, rfl, rfl, fun hrun => hrun⟩ rfl rfl

theorem recordEncodingDuration_tends {duration : ℕ} :
    Session.Moves (Db.Tends claimed) (recordEncodingDuration claimed duration now) db := by
  unfold recordEncodingDuration
  by_cases hlong : i64Max < duration
  · rw [if_pos hlong]
    exact .same ⟨rfl, rfl⟩
  · rw [if_neg hlong]
    refine Session.moves_commit (.same ⟨rfl, rfl⟩) fun u db' h => ?_
    obtain ⟨a, ha, -, rfl⟩ := recordEncodingDurationTx_ok h
    exact .wrote a { a with encodingDurationMs := a.encodingDurationMs + duration } ha
      ⟨rfl, rfl, rfl, fun hrun => hrun⟩ rfl rfl

theorem renewLease_renews :
    Session.Moves (Db.Renews claimed now) (renewLease claimed none now) db := by
  refine Session.moves_commit (.same ⟨rfl, rfl⟩) fun e db' h => ?_
  obtain ⟨a, r, w, hlive, -, hactive, rfl, rfl⟩ := renewLeaseTx_ok.mp h
  have howner : a.workerId = some claimed.workerId := by
    obtain ⟨-, -, -, howner, -⟩ := ClaimedJob.fences_iff.mp hlive.fences
    exact howner
  exact .wrote a w hlive.attempt howner hactive rfl rfl

end Holders

/-! ### The rows of workers -/

section Workers

variable {now : ℤ} {workerId : Uuid} {claimed : ClaimedJob} {db db' : Db}

theorem Db.Tends.workers (h : Db.Tends claimed db db') : db'.workers = db.workers := by
  cases h with
  | same h => exact h.workers
  | wrote a a' row continues put workers => exact workers

theorem Db.Renews.workers (h : Db.Renews claimed now db db') : db'.workers = db.workers := by
  cases h with
  | same h => exact h.workers
  | wrote a worker row owner active put workers => exact workers

theorem Db.Opens.workers (h : Db.Opens workerId now db db') : db'.workers = db.workers := by
  cases h with
  | same h => exact h.workers
  | added a worker active owner lease rows workers => exact workers

theorem Db.Expires.workers (h : Db.Expires now db db') : db'.workers = db.workers := by
  cases h with
  | same h => exact h.workers
  | wrote a a' row due continues given put workers => exact workers

end Workers

/-! ### The other calls -/

section Calls

variable {now asOf : ℤ} {db : Db}

theorem create_aside {name : JobName} :
    Session.Moves Db.Aside (create name now) db := by
  refine Session.moves_bind_read (Session.moves_commit (.refl db) ?_) fun _ _ => rfl
  intro n db' h
  simp only [Tx.bind_ok, lift_ok] at h
  obtain ⟨stored, _, ⟨-, rfl⟩, hinsert⟩ := h
  exact insertJob_aside hinsert

theorem createImageJob_aside {request : NewImageJob} :
    Session.Moves Db.Aside (createImageJob request now) db := by
  refine Session.moves_lift_bind (.refl db) fun _ _ => ?_
  refine Session.moves_bind_read (Session.moves_commit (.refl db) ?_) ?_
  · intro c db' h
    rcases createImageJobTx_ok h with ⟨n, -, -, rfl⟩ | ⟨-, n, db₁, rows, hinsert, happended, -⟩
    · exact .refl _
    · exact createdJob_aside hinsert happended
  · rintro (n | n) db' <;> rfl

theorem manualRetry_aside {jobId : JobId} {owner : Option ℕ} :
    Session.Moves Db.Aside (manualRetry jobId owner now) db := by
  refine Session.moves_bind_read (Session.moves_commit (.refl db) ?_) ?_
  · intro result db' h
    rcases manualRetryTx_ok h with
      ⟨-, -, rfl⟩ | ⟨source, newId, db₁, rows, -, -, -, -, hinsert, happended, -⟩
    · exact .refl _
    · exact createdJob_aside hinsert happended
  · rintro (_ | newId) db'
    · rfl
    · simp only [Session.bind_run, Session.liftExcept_run]
      cases decodeJobId newId <;> rfl

theorem requestCancel_aside {jobId : JobId} {owner : Option ℕ} :
    Session.Moves Db.Aside (requestCancel jobId owner now) db := by
  refine Session.moves_bind_read (Session.moves_commit (.refl db) ?_) fun _ _ => rfl
  intro n db' h
  cases h
  exact ⟨rfl, rfl⟩

/-- A claim adds one attempt row. -/
theorem claimNext_opens {workerId claimToken : Uuid} {locked : List ℕ} :
    Session.Moves (Db.Opens workerId now) (claimNext workerId none now claimToken locked) db := by
  refine Session.moves_commit (.same ⟨rfl, rfl⟩) fun result db' h => ?_
  rcases claimNextWithTime_ok h with ⟨-, rfl, -⟩ | ⟨candidate, worker, claimed, -, hclaims⟩
  · exact .same ⟨rfl, rfl⟩
  · have hactive := hclaims.active
    have hkey : worker.id = workerId := by
      unfold activeWorker at hactive
      exact Table.key_of_get? (Option.mem_filter_iff.mp hactive).1
    refine .added (candidate.attempt (nextAttemptNumber db candidate.id) worker claimToken now
      (queueWait now candidate.availableAt) db.jobAttempts.next) worker hactive
      (congrArg some hkey) rfl ?_ ?_
    · rw [hclaims.written]
      rfl
    · rw [hclaims.written]
      rfl

/-- A reclaim closes one attempt row whose lease is over. -/
theorem reclaimNextExpiredAttemptAt_expires {locked : List ℕ} :
    Session.Moves (Db.Expires (bindTimestamp asOf))
      (reclaimNextExpiredAttemptAt asOf locked) db := by
  refine Session.moves_bind_read (Session.moves_commit (.same ⟨rfl, rfl⟩) ?_) ?_
  · intro result db' h
    rcases reclaimTx_ok h with
      ⟨-, rfl, -⟩ | ⟨a, r, r', w, d, ms, -, hc, -, -, -, -, -, rfl⟩
    · exact .same ⟨rfl, rfl⟩
    obtain ⟨hget, -, hover, -⟩ := expiredCandidate_spec hc
    have hends : a.Continues (a.expired r.state (bindTimestamp asOf) ms) ∧
        (a.expired r.state (bindTimestamp asOf) ms).GivenUp := by
      unfold AttemptRow.expired
      split
      · exact ⟨closed_continues a (by decide), Or.inr rfl⟩
      · exact ⟨closed_continues a (by decide), Or.inl rfl⟩
    exact .wrote a _ hget hover hends.1 hends.2 rfl rfl
  · rintro (_ | ⟨a, w, d⟩) db'
    · rfl
    · simp only [Session.bind_run, Session.liftExcept_run]
      cases decodeJobId a.jobId <;> rfl

theorem registerWorker_staffs {registration : WorkerRegistration} :
    Session.Moves (Db.Staffs now) (registerWorker registration asOf) db := by
  refine Session.moves_lift_bind (.refl now db) fun _ _ => ?_
  refine Session.moves_lift_bind (.refl now db) fun _ _ => ?_
  refine Session.moves_lift_bind (.refl now db) fun _ _ => ?_
  refine Session.moves_commit (.refl now db) fun u db' h => ?_
  simp only [Tx.bind_ok, lift_ok] at h
  obtain ⟨_, _, ⟨-, rfl⟩, h⟩ := h
  exact insertWorker_staffs h

/-- A heartbeat is for a worker that has not stopped. -/
theorem heartbeatWorker_staffs {workerId : Uuid} {ttl : ℕ} :
    Session.Moves (Db.Staffs now) (heartbeatWorker workerId ttl asOf) db := by
  refine Session.moves_lift_bind (.refl now db) fun _ _ => ?_
  refine Session.moves_lift_bind (.refl now db) fun _ _ => ?_
  refine Session.moves_commit (.refl now db) fun u db' h => ?_
  obtain ⟨n, db₁, hupdate, h⟩ := Tx.bind_ok.mp h
  obtain ⟨-, rfl⟩ := lift_ok.mp h
  refine updateWorkers_staffs hupdate fun w hw => ⟨rfl, rfl, fun x hx => ?_, Or.inl⟩
  rw [hx] at hw
  simp at hw

/-- A worker stops once. -/
theorem stopWorker_staffs {workerId : Uuid} :
    Session.Moves (Db.Staffs now) (stopWorker workerId now) db := by
  refine Session.moves_commit (.refl now db) fun u db' h => ?_
  obtain ⟨db₀, _, hget, h⟩ := Tx.bind_ok.mp h
  cases hget
  split at h
  · cases h
  · obtain ⟨n, db₁, hupdate, h⟩ := Tx.bind_ok.mp h
    obtain ⟨-, rfl⟩ := lift_ok.mp h
    refine updateWorkers_staffs hupdate fun w _ => ⟨rfl, rfl, fun x hx => ?_, fun hnone => ?_⟩
    · rw [show w.stoppedAt.getD now = x by rw [hx]; rfl, ← hx]
    · right
      simp only [hnone, Option.getD_none]

theorem createSchedule_aside {request : NewSchedule} :
    Session.Moves Db.Aside (createSchedule request now) db := by
  refine Session.moves_lift_bind (.refl db) fun _ _ => ?_
  refine Session.moves_bind_read (Session.moves_commit (.refl db) ?_) fun _ _ => rfl
  intro n db' h
  obtain ⟨rows, -, -, -, -, -, hframe⟩ := createScheduleTx_ok h
  rw [hframe]
  exact ⟨rfl, rfl⟩

theorem updateScheduleAtWithOwner_aside {scheduleId : ScheduleId} {request : UpdateSchedule}
    {owner : Option ℕ} : Session.Moves Db.Aside
      (updateScheduleAtWithOwner scheduleId request asOf owner now) db := by
  refine Session.moves_lift_bind (.refl db) fun _ _ => ?_
  refine Session.moves_lift_bind (.refl db) fun _ _ => ?_
  refine Session.moves_bind_read (Session.moves_commit (.refl db) ?_) fun _ _ => rfl
  intro n db' h
  rcases updateScheduleTx_ok h with rfl | ⟨s, -, -, rfl⟩
  · exact .refl db'
  · exact ⟨rfl, rfl⟩

theorem materializeNextScheduleAt_aside {locked : List ℕ} :
    Session.Moves Db.Aside (materializeNextScheduleAt asOf locked now) db := by
  refine materializeNextScheduleAt_moves (.refl db) ?_
  intro candidate scheduledFor next job coalesced db₁ db' hc hm
  have hmade : db.Aside db₁ := by
    rcases materializeJob_ok.mp hm.made with ⟨-, -, rfl⟩ | ⟨-, n, db₂, jobId, hinsert, hcopy, -⟩
    · exact .refl db₁
    · obtain ⟨rows, happended, -⟩ := copyScheduleInputs_ok hcopy
      exact createdJob_aside hinsert happended
  rw [hm.written]
  exact ⟨hmade.attempts, hmade.workers⟩

theorem expireOutputArtifacts_aside {retentionSeconds : ℕ} {t : ℤ} :
    Session.Moves Db.Aside (expireOutputArtifacts retentionSeconds t) db := by
  unfold expireOutputArtifacts
  by_cases hlong : i64Max < retentionSeconds
  · rw [if_pos hlong]
    exact .refl db
  · rw [if_neg hlong]
    refine Session.moves_commit (.refl db) fun keys db' h => ?_
    rw [expireOutputArtifactsTx_ok] at h
    cases h
    exact ⟨rfl, rfl⟩

end Calls

/-! ### An attempt that nobody touches -/

/-- The attempt row under `id`, if there is one, is the same afterwards. -/
def Db.LeavesAttempt (id : ℕ) (db db' : Db) : Prop :=
  ∀ a, db.jobAttempts.get? id = some a → db'.jobAttempts.get? id = some a

/-- The attempt row under `id` is the same afterwards, or it was running with its lease over at `t`
and is given up. -/
def Db.OverlooksAttempt (id : ℕ) (t : ℤ) (db db' : Db) : Prop :=
  ∀ a, db.jobAttempts.get? id = some a → db'.jobAttempts.get? id = some a ∨
    a.leaseOver t = true ∧ ∃ a', db'.jobAttempts.get? id = some a' ∧ a'.GivenUp

section Leaves

variable {id : ℕ} {now t : ℤ} {workerId : Uuid} {claimed : ClaimedJob} {db db' : Db}

theorem Db.LeavesAttempt.refl (id : ℕ) (db : Db) : db.LeavesAttempt id db := fun _ h => h

theorem Db.LeavesAttempt.of_eq (h : db'.jobAttempts = db.jobAttempts) :
    db.LeavesAttempt id db' := by
  intro a ha
  rw [h]
  exact ha

/-- Rewriting another attempt. -/
theorem leavesAttempt_put {a a' : AttemptRow} {n : ℕ} (ha : db.jobAttempts.get? n = some a)
    (hid : a'.id = a.id) (hput : db'.jobAttempts = db.jobAttempts.put a') (hne : n ≠ id) :
    db.LeavesAttempt id db' := by
  intro b hb
  have hkey : a.id = n := Table.key_of_get? ha
  have hother : a'.id ≠ id := by
    rw [hid, hkey]
    exact hne
  rw [hput]
  exact (Table.get?_put_of_ne hother).trans hb

theorem Db.Tends.leaves (h : Db.Tends claimed db db') (hne : claimed.attemptId ≠ id) :
    db.LeavesAttempt id db' := by
  cases h with
  | same h => exact .of_eq h.attempts
  | wrote a a' row continues put workers => exact leavesAttempt_put row continues.id put hne

theorem Db.Renews.leaves (h : Db.Renews claimed now db db') (hne : claimed.attemptId ≠ id) :
    db.LeavesAttempt id db' := by
  cases h with
  | same h => exact .of_eq h.attempts
  | wrote a worker row owner active put workers =>
    refine leavesAttempt_put row ?_ put hne
    rfl

theorem Db.Opens.leaves (h : Db.Opens workerId now db db') : db.LeavesAttempt id db' := by
  cases h with
  | same h => exact .of_eq h.attempts
  | added a worker active owner lease rows workers =>
    intro b hb
    unfold Table.get? at hb ⊢
    rw [rows, List.find?_append, hb]
    rfl

theorem Db.Expires.overlooks (h : Db.Expires t db db') : db.OverlooksAttempt id t db' := by
  intro b hb
  cases h with
  | same h => exact Or.inl (Db.LeavesAttempt.of_eq h.attempts b hb)
  | wrote a a' row due continues given put workers =>
    by_cases hid : a.id = id
    · subst hid
      obtain rfl : a = b := Option.some.inj (row.symm.trans hb)
      refine Or.inr ⟨due, a', ?_, given⟩
      rw [put]
      exact Table.get?_put_self row continues.id
    · exact Or.inl (leavesAttempt_put row continues.id put hid b hb)

end Leaves

/-! ### The job of an attempt that nobody touches -/

/-- A job with a cancel on top of it, or without one. -/
def JobRow.AskedOnly (r r' : JobRow) : Prop := r' = r ∨ ∃ asked, r' = r.cancelRequested asked

section Undisturbed

variable {now : ℤ} {v v' : JobView} {r : JobRow} {a : AttemptRow}

/-- A second request changes nothing. -/
theorem JobRow.AskedOnly.trans {r₁ r₂ : JobRow} (h : r.AskedOnly r₁) (h' : r₁.AskedOnly r₂)
    (hactive : r.state.isActive = true) : r.AskedOnly r₂ := by
  rcases h with rfl | ⟨t, rfl⟩
  · exact h'
  rcases h' with rfl | ⟨u, rfl⟩
  · exact Or.inr ⟨t, rfl⟩
  · right
    refine ⟨t, JobRow.cancelRequested_of_cancelled ?_ rfl⟩
    cases hs : r.state <;> simp_all [JobStatus.isActive, JobRow.cancelRequested]

/-- A rewrite that leaves a running attempt as it is rewrites that attempt to itself. -/
theorem JobView.Rewrites.same_running {s s' : JobRow} {b b' : AttemptRow}
    (h : v.Rewrites v' s s' b b') (hv : v.Lifecycle) (hb : b.state = .running)
    (ha : a ∈ v.attempts) (ha' : a ∈ v'.attempts) (hrun : a.state = .running) : b = a ∧ b' = a := by
  obtain ⟨l₁, l₂, hsplit, hsplit'⟩ := h.attempts
  obtain ⟨-, rfl, hspent⟩ := (hv.course s h.job).admits.split hsplit hb
  have hnot : a ∉ l₁ := fun hmem => hspent.not_running hmem hrun
  rw [hsplit] at ha
  rw [hsplit'] at ha'
  have hlast := (List.mem_append.mp ha).resolve_left hnot
  have hlast' := (List.mem_append.mp ha').resolve_left hnot
  exact ⟨(List.mem_singleton.mp hlast).symm, (List.mem_singleton.mp hlast').symm⟩

/-- While a running attempt stays as it is, its job takes at most a cancel request, and the files
of the job stay. -/
theorem Transition.undisturbed (h : Transition now v v') (hv : v.Lifecycle) (hpaced : v.Paced)
    (hr : v.job = some r) (ha : a ∈ v.attempts) (hrun : a.state = .running)
    (ha' : a ∈ v'.attempts) :
    (∃ r', v'.job = some r' ∧ r.AskedOnly r') ∧ v'.inputs = v.inputs ∧ v'.outputs = v.outputs := by
  have hactive : r.state.isActive = true := by
    obtain ⟨l₁, l₂, hsplit⟩ := List.append_of_mem ha
    exact ((hv.course r hr).admits.split hsplit hrun).1
  have hclosed : ∀ {s s' : JobRow} {b b' : AttemptRow}, v.Rewrites v' s s' b b' →
      b.state = .running → b'.state = .running := by
    intro s s' b b' hrw hb
    obtain ⟨-, rfl⟩ := hrw.same_running hv hb ha ha' hrun
    exact hrun
  cases h with
  | stay h =>
    rw [h]
    exact ⟨⟨r, hr, Or.inl rfl⟩, rfl, rfl⟩
  | created s inputs job =>
    rw [job] at hr
    cases hr
  | claimed s b t job pending =>
    obtain rfl : r = s := Option.some.inj (hr.symm.trans job)
    exact absurd hrun (((hv.course r job).admits.of_isPending pending).not_running ha)
  | renewed s b e running live rewrites outputs =>
    obtain rfl : r = s := Option.some.inj (hr.symm.trans rewrites.job)
    exact ⟨⟨r, rewrites.job', Or.inl rfl⟩, rewrites.inputs, outputs⟩
  | measured s b ms running rewrites outputs =>
    obtain rfl : r = s := Option.some.inj (hr.symm.trans rewrites.job)
    exact ⟨⟨r, rewrites.job', Or.inl rfl⟩, rewrites.inputs, outputs⟩
  | progressed s b n running state between between' rewrites outputs =>
    obtain rfl : r = s := Option.some.inj (hr.symm.trans rewrites.job)
    obtain ⟨rfl, hsame⟩ := rewrites.same_running hv running ha ha' hrun
    have hn : n = r.progressCompleted :=
      (congrArg AttemptRow.progressCompleted hsame :).trans (hpaced r hr b ha hrun).1
    subst hn
    exact ⟨⟨r, rewrites.job', Or.inl rfl⟩, rewrites.inputs, outputs⟩
  | cancelFinished s b message t ms running state rewrites => cases hclosed rewrites running
  | retried s b message t availableAt ms running state room rewrites =>
    cases hclosed rewrites running
  | failed s b kind message t ms running state rewrites => cases hclosed rewrites running
  | completed s b t ms running state demo rewrites => cases hclosed rewrites running
  | published s b message t ms rows running state image rewrites => cases hclosed rewrites running
  | cancelRequested s t cancellable restates =>
    obtain rfl : r = s := Option.some.inj (hr.symm.trans restates.job)
    exact ⟨⟨_, restates.job', Or.inr ⟨t, rfl⟩⟩, restates.inputs, restates.outputs⟩
  | outputsExpired s t terminal job =>
    obtain rfl : r = s := Option.some.inj (hr.symm.trans job)
    cases hs : r.state <;> simp_all [JobStatus.isActive, JobStatus.isTerminal]

/-- An output row is new only where an attempt of the job ran and now has succeeded. -/
theorem Transition.outputs_new (h : Transition now v v') {o : ArtifactRow} (ho : o ∈ v'.outputs) :
    o ∈ v.outputs ∨ ∃ b ∈ v.attempts, ∃ b' ∈ v'.attempts, b.state = .running ∧
      b'.state = .succeeded ∧ b'.id = b.id ∧ o.attemptId = some b.id := by
  have hkept : v'.outputs = v.outputs → o ∈ v.outputs := fun houtputs => houtputs ▸ ho
  cases h with
  | stay h => exact Or.inl (hkept (by rw [h]))
  | published r b message t ms rows running state image rewrites batch shows count outputs =>
    rw [outputs] at ho
    refine (List.mem_append.mp ho).imp_right fun ho => ?_
    obtain ⟨l₁, l₂, hsplit, hsplit'⟩ := rewrites.attempts
    refine ⟨b, rewrites.mem, b.completed t ms, ?_, running, rfl, rfl, (shows o ho).1⟩
    rw [hsplit']
    exact List.mem_append_right _ List.mem_cons_self
  | cancelRequested r t cancellable restates => exact Or.inl (hkept restates.outputs)
  | outputsExpired r t terminal job job' attempts inputs outputs =>
    rw [outputs] at ho
    cases ho
  | created r inputs job job' new batch attempts appended outputs => exact Or.inl (hkept outputs)
  | claimed r b t job pending opened job' attempts inputs outputs => exact Or.inl (hkept outputs)
  | renewed r b e running live rewrites outputs => exact Or.inl (hkept outputs)
  | measured r b ms running rewrites outputs => exact Or.inl (hkept outputs)
  | progressed r b n running state between between' rewrites outputs => exact Or.inl (hkept outputs)
  | cancelFinished r b message t ms running state rewrites outputs => exact Or.inl (hkept outputs)
  | retried r b message t availableAt ms running state room rewrites outputs =>
    exact Or.inl (hkept outputs)
  | failed r b kind message t ms running state rewrites outputs => exact Or.inl (hkept outputs)
  | completed r b t ms running state demo rewrites outputs => exact Or.inl (hkept outputs)

end Undisturbed

end TaskHarbor
