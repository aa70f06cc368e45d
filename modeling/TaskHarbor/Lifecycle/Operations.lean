import TaskHarbor.Lifecycle.Publication

/-! The remaining transactions: creation, claim, cancel, manual retry, reclaim, expiry. Each
changes the rows of a job by one transition. -/
namespace TaskHarbor

open Relational Transaction

/-! ### Creation -/

section Create

variable {now : ℤ} {db db₁ db' : Db}

theorem view_congr (hjobs : db'.jobs = db.jobs) (hattempts : db'.jobAttempts = db.jobAttempts)
    (hartifacts : db'.artifacts = db.artifacts) (id : ℕ) : db'.view id = db.view id := by
  unfold Db.view Db.attemptsOf Db.artifactsOf
  rw [hjobs, hattempts, hartifacts]

theorem turns_congr (hjobs : db'.jobs = db.jobs) (hattempts : db'.jobAttempts = db.jobAttempts)
    (hartifacts : db'.artifacts = db.artifacts) : db.Turns now db' :=
  fun id => .stay (view_congr hjobs hattempts hartifacts id)

/-- A new job leaves the rows of the others. -/
theorem view_created_of_ne {mk : ℕ → JobRow} {hk} {id j : ℕ} {rows : List ArtifactRow}
    (hinsert : insertJob mk hk db = .ok (id, db₁)) (happended : Appended db₁ db' id .input rows)
    (hj : id ≠ j) : db'.view j = db.view j := by
  obtain ⟨rfl, -, -, -, rfl⟩ := insertJob_ok.mp hinsert
  have hget : (db.jobs.insertNew mk hk).get? j = db.jobs.get? j := by
    rw [Table.get?_insertNew, if_neg fun h => hj h.symm]
  rw [happended.view_of_ne hj]
  unfold Db.view
  simp only [hget, Db.attemptsOf, Db.artifactsOf]

/-- A job row and its inputs inserted together. -/
theorem evolves_created {mk : ℕ → JobRow} {hk} {id : ℕ} {rows : List ArtifactRow}
    (hinsert : insertJob mk hk db = .ok (id, db₁)) (hnew : (mk id).New)
    (happended : Appended db₁ db' id .input rows) : db.Evolves now db' := by
  have hstay : ∀ j, id ≠ j → db'.view j = db.view j :=
    fun _ => view_created_of_ne hinsert happended
  obtain ⟨rfl, -, -, -, rfl⟩ := insertJob_ok.mp hinsert
  refine ⟨fun id => ?_, (congrArg Db.schedules happended.frame :),
    (congrArg Db.scheduleInputs happended.frame :),
    (congrArg Db.scheduleOccurrences happended.frame :)⟩
  by_cases hid : db.jobs.next = id
  · subst hid
    have hjob' : (db'.view db.jobs.next).job = some (mk db.jobs.next) := by
      change db'.jobs.get? db.jobs.next = _
      rw [happended.jobs, Table.get?_insertNew, if_pos rfl]
    refine .created (mk db.jobs.next) rows (Table.get?_next _) hjob' hnew happended.batch ?_ ?_ ?_
    · change db'.attemptsOf _ = _
      rw [Db.attemptsOf, happended.jobAttempts]
      rfl
    · exact happended.artifactsOf
    · exact happended.artifactsOf_of_ne (Or.inr (by decide))
  · exact .stay (hstay id hid)

theorem turns_of_view {db₂ : Db} (h : db.Turns now db₂)
    (hview : ∀ id, db'.view id = db₂.view id) : db.Turns now db' := by
  intro id
  rw [hview id]
  exact h id

/-! Names -/

theorem decodeJobName_asStr (name : JobName) : decodeJobName name.asStr = .ok name := by
  rw [decodeJobName, JobName.new_asStr]

theorem asStr_of_decodeJobName {value : String} {name : JobName}
    (h : decodeJobName value = .ok name) : name.asStr = value := by
  unfold decodeJobName at h
  split at h
  · rename_i hnew
    cases h
    exact JobName.asStr_of_new hnew
  · cases h
  · cases h

/-- A validated name is stored as it is. -/
theorem JobName.stored {name : JobName} {stored : String}
    (h : varcharParam 100 name.asStr = .ok stored) : stored = name.asStr := by
  have hstored := (varcharParam_ok.mp h).2
  have hshort : name.asStr.length ≤ 100 := name.short
  rw [storeVarchar_of_length_le hshort] at hstored
  exact (Option.some.inj hstored).symm

/-- A schedule row whose name and settings a job can take over. -/
structure ScheduleRow.Sound (s : ScheduleRow) : Prop where
  checks : holdsAll s.checks = true
  name : ∃ name, decodeJobName s.name = .ok name
  id : 0 < s.id ∧ s.id ≤ i64Max

/-- The invariant of the database under which every transaction is one transition for each job. -/
structure Db.Inv (db : Db) : Prop where
  lifecycle : ∀ id, (db.view id).Lifecycle
  manifest : ∀ id, (db.view id).Manifest
  readable : ∀ id, (db.view id).Readable
  schedules : ∀ s ∈ db.schedules, s.Sound

theorem insertJob_new {mk : ℕ → JobRow} {hk} {id : ℕ} {name : JobName}
    (h : insertJob mk hk db = .ok (id, db₁)) (hname : (mk id).name = name.asStr)
    (hstate : (mk id).state = .queued) (hfinished : (mk id).finishedAt = none)
    (hasked : (mk id).cancelRequestedAt = none) (hexpired : (mk id).outputsExpiredAt = none)
    (hschedule : ∀ s, (mk id).scheduleId = some s → 0 < s ∧ s ≤ i64Max)
    (hparent : ∀ p, (mk id).retryOfJobId = some p → 0 < p ∧ p ≤ i64Max) : (mk id).New := by
  obtain ⟨rfl, hid, hchecks, -, -⟩ := insertJob_ok.mp h
  refine ⟨hstate, hfinished, hasked, hexpired, hchecks, ⟨name, ?_⟩, ?_, hschedule, hparent⟩
  · rw [hname]
    exact decodeJobName_asStr name
  · rw [hk]
    exact ⟨db.jobs.positive, hid⟩

/-! Creation of a demo job -/

theorem create_moves (name : JobName) (now : ℤ) (db : Db) :
    Session.Moves (Db.Evolves now) (create name now) db := by
  unfold create
  refine Session.moves_bind_read (Session.moves_commit (.refl now db) ?_) fun _ _ => rfl
  intro id db' h
  simp only [Tx.bind_ok, lift_ok] at h
  obtain ⟨stored, _, ⟨hstored, rfl⟩, hinsert⟩ := h
  refine evolves_created hinsert ?_ (.refl _ _ _)
  exact insertJob_new hinsert (JobName.stored hstored) rfl rfl rfl rfl (fun _ h => nomatch h)
    fun _ h => nomatch h

/-! Creation of an image job -/

theorem createImageJobTx_evolves {request : NewImageJob} {c : Creation}
    (h : createImageJobTx request now db = .ok (c, db')) : db.Evolves now db' := by
  unfold createImageJobTx at h
  simp only [Tx.bind_ok, lift_ok, Tx.get_run, Except.ok.injEq, Prod.mk.injEq] at h
  obtain ⟨_, _, ⟨rfl, rfl⟩, existing, _, ⟨-, rfl⟩, h⟩ := h
  cases existing with
  | some id =>
    cases h
    exact .refl now db
  | none =>
    simp only [Tx.bind_ok, lift_ok, Tx.pure_run, Except.ok.injEq, Prod.mk.injEq] at h
    obtain ⟨stored, _, ⟨hstored, rfl⟩, id, db₁, hinsert, _, db₂, hinputs, -, rfl⟩ := h
    obtain ⟨rows, happended, -⟩ := insertInputArtifacts_ok hinputs
    refine evolves_created hinsert ?_ happended
    exact insertJob_new hinsert (JobName.stored hstored) rfl rfl rfl rfl (fun _ h => nomatch h)
      fun _ h => nomatch h

theorem createImageJob_moves (request : NewImageJob) (now : ℤ) (db : Db) :
    Session.Moves (Db.Evolves now) (createImageJob request now) db := by
  unfold createImageJob
  refine Session.moves_lift_bind (.refl now db) fun _ _ => ?_
  refine Session.moves_bind_read (Session.moves_commit (.refl now db) ?_) ?_
  · intro c db' h
    exact createImageJobTx_evolves h
  · rintro (id | id) db' <;> rfl

/-! Manual retry -/

theorem manualRetryTx_evolves {id : JobId} {owner : Option ℕ} {result : Option ℕ}
    (hinv : db.Inv) (h : manualRetryTx id owner now db = .ok (result, db')) :
    db.Evolves now db' := by
  unfold manualRetryTx at h
  simp only [Tx.bind_ok, Tx.get_run, Except.ok.injEq, Prod.mk.injEq] at h
  obtain ⟨_, _, ⟨rfl, rfl⟩, h⟩ := h
  cases hsource : (db.jobs.get? id.get).filter (ownedBy owner) with
  | none =>
    simp only [hsource] at h
    cases h
    exact .refl now db
  | some source =>
    simp only [hsource] at h
    split at h
    · cases h
    · simp only [Tx.bind_ok, Tx.get_run, Tx.pure_run, Except.ok.injEq, Prod.mk.injEq] at h
      obtain ⟨newId, db₁, hinsert, _, _, ⟨rfl, rfl⟩, _, _, hcopy, -, rfl⟩ := h
      obtain ⟨rows, happended, -⟩ := copyInputs_ok (fun s hs => by
        have hselected := (List.mem_filter.mp hs).2
        simp only [Bool.and_eq_true, beq_iff_eq] at hselected
        exact hselected.2) hcopy
      have hget : db.jobs.get? source.id = some source :=
        Table.get?_key (Table.mem_of_get? (Option.filter_eq_some_iff.mp hsource).1)
      have hsound := (hinv.readable source.id).job source hget
      obtain ⟨name, hname⟩ := hsound.name
      refine evolves_created hinsert ?_ happended
      refine insertJob_new hinsert (asStr_of_decodeJobName hname).symm rfl rfl rfl rfl
        (fun _ h => nomatch h) ?_
      intro p hp
      cases hp
      exact hsound.id

theorem manualRetry_moves {id : JobId} {owner : Option ℕ} (hinv : db.Inv) :
    Session.Moves (Db.Evolves now) (manualRetry id owner now) db := by
  unfold manualRetry
  refine Session.moves_bind_read (Session.moves_commit (.refl now db) ?_) ?_
  · intro result db' h
    exact manualRetryTx_evolves hinv h
  · rintro (_ | newId) db'
    · rfl
    · simp only [Session.bind_run, Session.liftExcept_run]
      cases decodeJobId newId <;> rfl

end Create

/-! ### Claim -/

section Claim

variable {now : ℤ} {db db' : Db}

/-- A claim that `claim_next` returns: the candidate, the worker, and what was written. -/
structure Claims (db : Db) (workerId : Uuid) (claimTime : ℤ) (claimToken : Uuid)
    (locked : List ℕ) (candidate : JobRow) (worker : WorkerRow) (claimed : ClaimedJob) (db' : Db) :
    Prop where
  selected : claimCandidate db claimTime locked = some candidate
  active : activeWorker db workerId claimTime = some worker
  room : nextAttemptNumber db candidate.id ≤ candidate.maxAttempts
  progress : 0 < candidate.progressTotal
  freshToken : ∀ a ∈ db.jobAttempts, a.claimToken ≠ some claimToken
  written : db' = (db.setJob (candidate.started claimTime)).addAttempt
    (candidate.attempt (nextAttemptNumber db candidate.id) worker claimToken claimTime
      (queueWait claimTime candidate.availableAt))
  jobId : claimed.jobId.get = candidate.id
  attemptId : claimed.attemptId = db.jobAttempts.next
  number : claimed.attemptNumber = nextAttemptNumber db candidate.id
  limit : claimed.maxAttempts = candidate.maxAttempts
  owner : claimed.workerId = workerId
  token : claimed.claimToken = claimToken
  lease : claimed.leaseExpiresAt = claimTime + seconds worker.leaseDurationSeconds
  work : claimedWork candidate db' = .ok claimed.work

theorem claimCandidate_spec {t : ℤ} {locked : List ℕ} {candidate : JobRow}
    (h : claimCandidate db t locked = some candidate) :
    db.jobs.get? candidate.id = some candidate ∧ candidate.state.isPending = true ∧
      candidate.availableAt ≤ t := by
  have hmem := (Table.leastBy_spec h).1
  rw [List.mem_filter] at hmem
  simp only [Bool.and_eq_true, decide_eq_true_eq] at hmem
  exact ⟨Table.get?_key hmem.1, hmem.2.1.1, hmem.2.1.2⟩

theorem claimNextWithTime_ok {workerId claimToken : Uuid} {asOf : Option ℤ} {locked : List ℕ}
    {result : Option ClaimedJob}
    (h : claimNextWithTime workerId asOf now claimToken locked db = .ok (result, db')) :
    (result = none ∧ db' = db ∧
      claimCandidate db ((asOf.map bindTimestamp).getD now) locked = none) ∨
    ∃ candidate worker claimed, result = some claimed ∧
      Claims db workerId ((asOf.map bindTimestamp).getD now) claimToken locked candidate worker
        claimed db' := by
  unfold claimNextWithTime at h
  simp only [Tx.bind_ok, Tx.get_run, Except.ok.injEq, Prod.mk.injEq] at h
  obtain ⟨_, _, ⟨rfl, rfl⟩, h⟩ := h
  cases hc : claimCandidate db ((asOf.map bindTimestamp).getD now) locked with
  | none =>
    simp only [hc] at h
    cases h
    exact Or.inl ⟨rfl, rfl, rfl⟩
  | some candidate =>
    right
    simp only [hc, Tx.bind_ok, lift_ok, Tx.get_run, decodeJobId_ok, Except.ok.injEq,
      Prod.mk.injEq] at h
    obtain ⟨jobId, _, ⟨hjobId, rfl⟩, _, _, ⟨rfl, rfl⟩, h⟩ := h
    split at h
    · cases h
    rename_i hroom
    split at h
    · cases h
    split at h
    · cases h
    simp only [Tx.bind_ok, lift_ok, Tx.get_run, ensureOneRow_ok, Except.ok.injEq,
      Prod.mk.injEq] at h
    obtain ⟨n, db₁, hupdate, _, _, ⟨rfl, rfl⟩, _, _, ⟨rfl, rfl⟩, h⟩ := h
    have hpin : ∀ r : JobRow, (r.id == candidate.id && r.state.isPending) = true →
        r.id = candidate.id := by
      intro r hr
      simp only [Bool.and_eq_true, beq_iff_eq] at hr
      exact hr.1
    obtain ⟨r, hr, -, rfl⟩ := (updateJobs_one hpin).mp hupdate
    obtain rfl : candidate = r := Option.some.inj ((claimCandidate_spec hc).1.symm.trans hr)
    cases hw : activeWorker db workerId ((asOf.map bindTimestamp).getD now) with
    | none =>
      rw [show activeWorker (db.setJob _) workerId _ = activeWorker db workerId _ from rfl, hw] at h
      cases h
    | some worker =>
      rw [show activeWorker (db.setJob _) workerId _ = activeWorker db workerId _ from rfl, hw] at h
      simp only [Tx.bind_ok, lift_ok, Tx.get_run, Tx.pure_run, Except.ok.injEq,
        Prod.mk.injEq] at h
      obtain ⟨id, _, hattempt, _, _, ⟨rfl, rfl⟩, work, _, ⟨hwork, rfl⟩, rfl, rfl⟩ := h
      obtain ⟨rfl, -, ⟨-, hprogress, -, -, htoken⟩, rfl⟩ := insertAttempt_ok.mp hattempt
      exact ⟨candidate, worker, _, rfl, hc, hw, not_lt.mp hroom, hprogress, htoken, rfl, hjobId,
        rfl, rfl, rfl, rfl, rfl, rfl, hwork⟩

theorem Claims.evolves {workerId claimToken : Uuid} {t : ℤ} {locked : List ℕ} {candidate : JobRow}
    {worker : WorkerRow} {claimed : ClaimedJob}
    (h : Claims db workerId t claimToken locked candidate worker claimed db') :
    db.Evolves now db' := by
  obtain ⟨hget, hpending, -⟩ := claimCandidate_spec h.selected
  rw [h.written]
  refine ⟨fun id => ?_, rfl, rfl, rfl⟩
  by_cases hid : candidate.id = id
  · subst hid
    refine .claimed candidate (candidate.attempt (nextAttemptNumber db candidate.id) worker
      claimToken t (queueWait t candidate.availableAt) db.jobAttempts.next) t hget hpending ?_
      (Table.get?_put_self hget rfl) ?_ rfl rfl
    · exact ⟨nextAttemptNumber_eq db candidate.id, h.room, rfl, rfl, rfl,
        ⟨h.progress, Nat.zero_le _⟩, ⟨_, rfl⟩, ⟨_, rfl⟩⟩
    · refine (attemptsOf_addAttempt _ _ _ _).trans ?_
      exact congrArg (db.attemptsOf candidate.id ++ ·) (if_pos rfl)
  · refine .stay ?_
    exact (view_addAttempt_of_ne hid).trans (view_setJob_of_ne hid)

/-- The claim that `claim_next` returns is issued. -/
theorem Claims.issued {workerId claimToken : Uuid} {t : ℤ} {locked : List ℕ} {candidate : JobRow}
    {worker : WorkerRow} {claimed : ClaimedJob}
    (h : Claims db workerId t claimToken locked candidate worker claimed db') :
    claimed.Issued db' := by
  obtain ⟨hget, -, -⟩ := claimCandidate_spec h.selected
  have hworker : worker.id = workerId :=
    Table.key_of_get? (Option.filter_eq_some_iff.mp h.active).1
  constructor
  · refine ⟨candidate.attempt (nextAttemptNumber db candidate.id) worker claimToken t
      (queueWait t candidate.availableAt) db.jobAttempts.next, ?_, h.jobId.symm, h.number.symm, ?_,
      ?_⟩
    · rw [h.written, h.attemptId]
      exact get?_addAttempt _ _ _
    · rw [h.owner, ← hworker]
      rfl
    · rw [h.token]
      rfl
  · refine ⟨candidate.started t, ?_, h.limit.symm, h.work⟩
    rw [h.written, h.jobId]
    exact Table.get?_put_self hget rfl

theorem claimNext_moves {workerId claimToken : Uuid} {asOf : Option ℤ} {locked : List ℕ} :
    Session.Moves (Db.Evolves now) (claimNext workerId asOf now claimToken locked) db := by
  refine Session.moves_commit (.refl now db) fun result db' h => ?_
  rcases claimNextWithTime_ok h with ⟨-, rfl, -⟩ | ⟨candidate, worker, claimed, -, hclaims⟩
  · exact .refl now db'
  · exact hclaims.evolves

end Claim

/-! ### Cancel -/

section Cancel

variable {now : ℤ} {db db' : Db}

theorem JobRow.cancellable_iff {id : ℕ} {owner : Option ℕ} {r : JobRow} :
    r.cancellable id owner = true ↔
      r.id = id ∧ ownedBy owner r = true ∧ r.state.isCancellable = true := by
  simp [JobRow.cancellable, and_assoc]

/-- The UPDATE of a cancel request finds nothing to change, or one row. -/
theorem cancelUpdate_cases {id : ℕ} {owner : Option ℕ} {n : ℕ}
    (h : updateJobs (JobRow.cancellable id owner) (JobRow.cancelRequested now) (fun _ => rfl) db =
      .ok (n, db')) :
    (n = 0 ∧ db' = db ∧ ∀ r, db.jobs.get? id = some r → r.cancellable id owner = false) ∨
      n = 1 ∧ ∃ r, db.jobs.get? id = some r ∧ r.cancellable id owner = true ∧
        db' = db.setJob (r.cancelRequested now) :=
  updateJobs_cases (fun _ hr => (JobRow.cancellable_iff.mp hr).1) h

theorem cancelUpdate_evolves {id : ℕ} {owner : Option ℕ} {n : ℕ}
    (h : updateJobs (JobRow.cancellable id owner) (JobRow.cancelRequested now) (fun _ => rfl) db =
      .ok (n, db')) : db.Evolves now db' := by
  rcases cancelUpdate_cases h with ⟨-, rfl, -⟩ | ⟨-, r, hr, hc, rfl⟩
  · exact .refl now db'
  · obtain ⟨-, -, hstate⟩ := JobRow.cancellable_iff.mp hc
    have hid : r.id = id := Table.key_of_get? hr
    refine ⟨fun j => ?_, rfl, rfl, rfl⟩
    by_cases hj : r.id = j
    · subst hj
      have hget : db.jobs.get? (r.cancelRequested now).id = some r := by
        rw [← hid] at hr
        exact hr
      exact .cancelRequested r now hstate (view_setJob hget)
    · exact .stay (view_setJob_of_ne hj)

theorem requestCancel_moves {id : JobId} {owner : Option ℕ} :
    Session.Moves (Db.Evolves now) (requestCancel id owner now) db := by
  refine Session.moves_bind_read (Session.moves_commit (.refl now db) ?_) fun _ _ => rfl
  intro n db' h
  exact cancelUpdate_evolves h

end Cancel

/-! ### Reclaim -/

section Reclaim

variable {now asOf : ℤ} {db db' : Db}

theorem expiredCandidate_spec {t : ℤ} {locked : List ℕ} {a : AttemptRow}
    (h : expiredCandidate db t locked = some a) :
    db.jobAttempts.get? a.id = some a ∧ a.state = .running ∧ a.leaseOver t = true ∧
      ∃ r, db.jobs.get? a.jobId = some r ∧ r.state.isActive = true := by
  have hmem := (Table.leastBy_spec h).1
  rw [List.mem_filter] at hmem
  obtain ⟨ha, hsel⟩ := hmem
  simp only [Bool.and_eq_true, beq_iff_eq] at hsel
  exact ⟨Table.get?_key ha, hsel.1.1.1, hsel.1.1.2, (Option.any_eq_true _ _).mp hsel.2⟩

/-- What a reclaim writes to the job of an expired attempt. -/
inductive Disposed (asOf : ℤ) (a : AttemptRow) (r : JobRow) : ReclaimDisposition → JobRow → Prop
  | cancelled (hs : r.state = .cancelRequested) :
      Disposed asOf a r .cancelled (r.cancelled (bindTimestamp asOf))
  | retried (availableAt : ℤ) (hs : r.state = .running) (hroom : a.attemptNumber < r.maxAttempts)
      (ht : checkedAdd asOf (seconds (retryBackoffSeconds a.attemptNumber)) = some availableAt) :
      Disposed asOf a r (.retryScheduled availableAt)
        (r.retried (bindTimestamp availableAt) leaseExpiredMessage)
  | failed (hs : r.state = .running) (hroom : r.maxAttempts ≤ a.attemptNumber) :
      Disposed asOf a r .failed (r.failed (bindTimestamp asOf) leaseExpiredMessage)

theorem disposeReclaimed_ok {a : AttemptRow} {r : JobRow} {d : ReclaimDisposition}
    (hr : db.jobs.get? a.jobId = some r) (h : disposeReclaimed a r asOf db = .ok (d, db')) :
    ∃ r', Disposed asOf a r d r' ∧ r'.id = r.id ∧ db' = db.setJob r' := by
  unfold disposeReclaimed at h
  split at h
  · rename_i hs
    simp only [finishReclaimedCancel, Tx.bind_ok, lift_ok, ensureOneRow_ok, Tx.pure_run,
      Except.ok.injEq, Prod.mk.injEq] at h
    obtain ⟨_, _, ⟨n, _, hn, rfl, rfl⟩, rfl, rfl⟩ := h
    obtain ⟨t, ht, hq, rfl⟩ := (updateJobs_one isAt_pin).mp hn
    obtain rfl : r = t := Option.some.inj (hr.symm.trans ht)
    exact ⟨_, .cancelled hs, rfl, rfl⟩
  · split at h
    · rename_i hroom
      cases hadd : checkedAdd asOf (seconds (retryBackoffSeconds a.attemptNumber)) with
      | none =>
        simp only [hadd] at h
        cases h
      | some availableAt =>
        simp only [hadd, scheduleReclaimedRetry, Tx.bind_ok, lift_ok, ensureOneRow_ok, Tx.pure_run,
          Except.ok.injEq, Prod.mk.injEq] at h
        obtain ⟨_, _, ⟨n, _, hn, rfl, rfl⟩, rfl, rfl⟩ := h
        have hpin : ∀ r : JobRow, (r.isAt a.jobId .running &&
            decide (bindTimestamp asOf ≤ bindTimestamp availableAt)) = true → r.id = a.jobId := by
          intro r hq
          rw [Bool.and_eq_true] at hq
          exact isAt_pin r hq.1
        obtain ⟨t, ht, hq, rfl⟩ := (updateJobs_one hpin).mp hn
        obtain rfl : r = t := Option.some.inj (hr.symm.trans ht)
        rw [Bool.and_eq_true] at hq
        exact ⟨_, .retried availableAt (JobRow.isAt_iff.mp hq.1).2 hroom hadd, rfl, rfl⟩
    · rename_i hroom
      simp only [failReclaimedJob, Tx.bind_ok, lift_ok, ensureOneRow_ok, Tx.pure_run,
        Except.ok.injEq, Prod.mk.injEq] at h
      obtain ⟨_, _, ⟨n, _, hn, rfl, rfl⟩, rfl, rfl⟩ := h
      obtain ⟨t, ht, hq, rfl⟩ := (updateJobs_one isAt_pin).mp hn
      obtain rfl : r = t := Option.some.inj (hr.symm.trans ht)
      exact ⟨_, .failed (JobRow.isAt_iff.mp hq).2 (not_lt.mp hroom), rfl, rfl⟩

/-- A reclaim that finds an attempt closes it and disposes of its job. -/
theorem reclaimTx_ok {locked : List ℕ} {result : Option (AttemptRow × Uuid × ReclaimDisposition)}
    (h : reclaimNextExpiredAttemptTx asOf locked db = .ok (result, db')) :
    (result = none ∧ db' = db ∧ expiredCandidate db (bindTimestamp asOf) locked = none) ∨
      ∃ a r r' w d ms, result = some (a, w, d) ∧
        expiredCandidate db (bindTimestamp asOf) locked = some a ∧
        db.jobs.get? a.jobId = some r ∧ Disposed asOf a r d r' ∧ r'.id = r.id ∧
        a.workerId = some w ∧ elapsedMilliseconds a.startedAt asOf = .ok ms ∧
        db' = (db.setAttempt (a.expired r.state (bindTimestamp asOf) ms)).setJob r' := by
  unfold reclaimNextExpiredAttemptTx at h
  simp only [Tx.bind_ok, Tx.get_run, Except.ok.injEq, Prod.mk.injEq] at h
  obtain ⟨_, _, ⟨rfl, rfl⟩, h⟩ := h
  cases hc : expiredCandidate db (bindTimestamp asOf) locked with
  | none =>
    simp only [hc] at h
    cases h
    exact Or.inl ⟨rfl, rfl, rfl⟩
  | some a =>
    right
    obtain ⟨hget, hrun, hover, r, hr, -⟩ := expiredCandidate_spec hc
    simp only [hc, hr] at h
    cases hw : a.workerId with
    | none =>
      simp only [hw] at h
      cases h
    | some w =>
      simp only [hw, Tx.bind_ok, lift_ok, ensureOneRow_ok, Tx.pure_run, Except.ok.injEq,
        Prod.mk.injEq] at h
      obtain ⟨_, _, ⟨rfl, rfl⟩, ms, _, ⟨hms, rfl⟩, n, db₁, hn, _, _, ⟨rfl, rfl⟩, d, db₂, hd, rfl,
        rfl⟩ := h
      have hpin : ∀ b : AttemptRow, (b.id == a.id && b.jobId == a.jobId && b.state == .running &&
          b.leaseOver (bindTimestamp asOf)) = true → b.id = a.id := by
        intro b hb
        simp only [Bool.and_eq_true, beq_iff_eq] at hb
        exact hb.1.1.1
      obtain ⟨b, hb, -, rfl⟩ := (updateAttempts_one hpin).mp hn
      obtain rfl : a = b := Option.some.inj (hget.symm.trans hb)
      have hr' : (db.setAttempt (a.expired r.state (bindTimestamp asOf) ms)).jobs.get? a.jobId =
        some r := hr
      obtain ⟨r', hdisposed, hid, rfl⟩ := disposeReclaimed_ok hr' hd
      exact ⟨a, r, r', _, d, ms, rfl, rfl, hr, hdisposed, hid, hw, hms, rfl⟩

/-- A reclaim closes its attempt by one transition of the attempt's job. -/
theorem reclaimTx_evolves {locked : List ℕ}
    {result : Option (AttemptRow × Uuid × ReclaimDisposition)}
    (h : reclaimNextExpiredAttemptTx asOf locked db = .ok (result, db')) :
    db.Evolves now db' := by
  rcases reclaimTx_ok h with
    ⟨-, rfl, -⟩ | ⟨a, r, r', w, d, ms, -, hc, hr, hdisposed, hid, -, -, rfl⟩
  · exact .refl now db'
  · obtain ⟨hget, hrun, -, -⟩ := expiredCandidate_spec hc
    have hrid : r'.id = a.jobId := hid.trans (Table.key_of_get? hr)
    have hkey : (a.expired r.state (bindTimestamp asOf) ms).id = a.id := by
      unfold AttemptRow.expired
      split <;> rfl
    have hjob : (a.expired r.state (bindTimestamp asOf) ms).jobId = a.jobId := by
      unfold AttemptRow.expired
      split <;> rfl
    rw [← hkey] at hget
    refine ⟨fun j => ?_, rfl, rfl, rfl⟩
    by_cases hj : a.jobId = j
    · subst hj
      have hrewrites := view_rewrite hget hjob hr hrid
      cases hdisposed with
      | cancelled hs =>
        rw [AttemptRow.expired, if_pos hs] at hrewrites ⊢
        exact .cancelFinished r a _ _ ms hrun hs hrewrites rfl
      | retried availableAt hs hroom ht =>
        rw [AttemptRow.expired, if_neg (by simp [hs])] at hrewrites ⊢
        obtain ⟨rfl, -, -⟩ := checkedAdd_eq_some.mp ht
        exact .retried r a _ _ _ ms hrun hs hroom hrewrites rfl ⟨asOf, Or.inr ⟨rfl, rfl⟩⟩
      | failed hs hroom =>
        rw [AttemptRow.expired, if_neg (by simp [hs])] at hrewrites ⊢
        exact .failed r a .transient _ _ ms hrun hs hrewrites rfl
    · exact .stay (view_rewrite_of_ne hget hjob hrid hj)

theorem reclaimNextExpiredAttemptAt_moves {locked : List ℕ} :
    Session.Moves (Db.Evolves now) (reclaimNextExpiredAttemptAt asOf locked) db := by
  unfold reclaimNextExpiredAttemptAt
  refine Session.moves_bind_read (Session.moves_commit (.refl now db) ?_) ?_
  · intro result db' h
    exact reclaimTx_evolves h
  · rintro (_ | ⟨a, w, d⟩) db'
    · rfl
    · simp only [Session.bind_run, Session.liftExcept_run]
      cases decodeJobId a.jobId <;> rfl

end Reclaim

end TaskHarbor
