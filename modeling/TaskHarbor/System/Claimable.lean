import TaskHarbor.System.Stock

/-! No job blocks the queue: in every reachable state the first eligible job can be claimed by any
live worker, and the first expired attempt can be reclaimed. -/
namespace TaskHarbor

open Relational Transaction Runs

/-! ### Fit jobs -/

/-- A job that a claim can take: an attempt is left, and an image job has what its work needs. -/
structure Db.Fit (db : Db) (r : JobRow) : Prop where
  numbered : (db.attemptsOf r.id).map AttemptRow.attemptNumber =
    List.range' 1 (db.attemptsOf r.id).length
  counted : (db.attemptsOf r.id).length ≤ r.maxAttempts
  room : r.state.isPending = true → (db.attemptsOf r.id).length < r.maxAttempts
  settings : r.jobType = .imageResize → r.maxWidth.isSome = true ∧ r.jpegQuality.isSome = true
  inputs : r.jobType = .imageResize →
    (db.artifactsOf r.id .input).map ArtifactRow.itemIndex = List.range r.progressTotal

section Fit

variable {db : Db} {r : JobRow}

theorem JobRow.Course.pending_room {attempts : List AttemptRow} (h : r.Course attempts)
    (hsound : r.Sound) (hpending : r.state.isPending = true) : attempts.length < r.maxAttempts := by
  cases hs : r.state with
  | queued =>
    have hnil := h.admits
    rw [hs] at hnil
    rw [show attempts = [] from hnil]
    exact (JobRow.checks_iff.mp hsound.checks).2.2.2.2.2.1.1
  | retryWaiting => exact h.room hs
  | running => simp [hs, JobStatus.isPending] at hpending
  | cancelRequested => simp [hs, JobStatus.isPending] at hpending
  | succeeded => simp [hs, JobStatus.isPending] at hpending
  | failed => simp [hs, JobStatus.isPending] at hpending
  | cancelled => simp [hs, JobStatus.isPending] at hpending

theorem Db.Inv.fit (hinv : db.Inv) (hstocked : db.Stocked) (hr : r ∈ db.jobs) : db.Fit r := by
  have hget : db.jobs.get? r.id = some r := Table.get?_key hr
  have hlife := hinv.lifecycle r.id
  have hcourse := hlife.course r hget
  have hsound := (hinv.readable r.id).job r hget
  refine ⟨hlife.numbered, hcourse.counted, hcourse.pending_room hsound, ?_, hstocked r hr⟩
  intro himage
  have hsettings := (JobRow.checks_iff.mp hsound.checks).2.2.2.1
  rw [himage] at hsettings
  simp only [Bool.and_eq_true] at hsettings
  obtain ⟨w, hw, -⟩ := (Option.any_eq_true _ _).mp hsettings.1
  obtain ⟨q, hq, -⟩ := (Option.any_eq_true _ _).mp hsettings.2
  rw [hw, hq]
  exact ⟨rfl, rfl⟩

end Fit

/-! ### The wait of a job -/

theorem wholeMilliseconds_le {s t : ℤ} (hs : minTimestamp ≤ s) (ht : t ≤ maxTimestamp) :
    (max (wholeMilliseconds (t - s)) 0).toNat ≤ i64Max := by
  have hd : t - s ≤ maxTimestamp - minTimestamp := by omega
  have hwhole : wholeMilliseconds (t - s) ≤ wholeMilliseconds (maxTimestamp - minTimestamp) :=
    Int.tdiv_le_tdiv (by decide) hd
  have hbound : wholeMilliseconds (maxTimestamp - minTimestamp) ≤ (i64Max : ℤ) := by decide
  omega

/-! ### A claim by a live worker -/

section Claim

variable {now : ℤ} {db : Db} {workerId claimToken : Uuid} {locked : List ℕ} {worker : WorkerRow}

/-- Why a claim by a live worker may still be refused: the identities of attempts are used up, or
the fresh claim token is taken. -/
def ClaimRefused (db : Db) (claimToken : Uuid) (e : RepositoryError) : Prop :=
  (∃ message, e = .database message) ∧ (i64Max < db.jobAttempts.next ∨
    ∃ a ∈ db.jobAttempts, a.claimToken = some claimToken)

theorem nextAttemptNumber_length (hinv : db.Inv) (id : ℕ) :
    nextAttemptNumber db id = (db.attemptsOf id).length + 1 := by
  rw [nextAttemptNumber_eq, show maxNumber (db.attemptsOf id) = _ from
    (hinv.lifecycle id).maxNumber]
  rfl

theorem attemptNumber_le (hinv : db.Inv) {id : ℕ} {a : AttemptRow} (ha : a ∈ db.attemptsOf id) :
    a.attemptNumber ≤ (db.attemptsOf id).length := by
  have hnumbers : (db.attemptsOf id).map AttemptRow.attemptNumber =
      List.range' 1 (db.attemptsOf id).length := (hinv.lifecycle id).numbered
  have hnumber : a.attemptNumber ∈ List.range' 1 (db.attemptsOf id).length := by
    rw [← hnumbers]
    exact List.mem_map_of_mem ha
  rw [List.mem_range'] at hnumber
  omega

/-- The work of a fit job can be read. -/
theorem claimedWork_ok {r : JobRow} (hinv : db.Inv) (hstocked : db.Stocked) (hr : r ∈ db.jobs) :
    ∃ work, claimedWork r db = .ok work := by
  have hget : db.jobs.get? r.id = some r := Table.get?_key hr
  have hreadable := hinv.readable r.id
  have hsound := hreadable.job r hget
  unfold claimedWork
  cases htype : r.jobType with
  | demoDelay => exact ⟨_, rfl⟩
  | imageResize =>
    obtain ⟨settings, hsettings⟩ := imageSettings_ok hsound htype
    obtain ⟨inputs, hinputs⟩ : ∃ inputs, loadInputArtifacts db r.id = .ok inputs := by
      refine except_mapM_exists fun a ha => ?_
      have hmem := (List.mem_insertionSort artifactOrder).mp ha
      have hinput : a ∈ db.artifactsOf r.id .input := hmem
      refine ArtifactRecord.tryFrom_ok (hreadable.inputs a hinput) ?_
      rw [(mem_artifactsOf.mp hinput).2.1]
      exact hsound.id
    have hcount : inputs.length = r.progressTotal := by
      have hlength := (except_mapM_ok.mp hinputs).length_eq
      rw [List.length_insertionSort] at hlength
      have hindexes := congrArg List.length (hstocked r hr htype)
      rw [List.length_map, List.length_range] at hindexes
      exact hlength.symm.trans hindexes
    simp only [hsettings, hinputs]
    refine ⟨.imageResize settings.1 settings.2 inputs, ?_⟩
    show (if inputs.length ≠ r.progressTotal then _ else _) = _
    rw [if_neg (not_not.mpr hcount)]
    rfl

theorem claimNextWithTime_failsOnly {asOf : Option ℤ} {clock : ℤ} (hinv : db.Inv)
    (hstocked : db.Stocked) (hdated : db.Dated)
    (hclock : (asOf.map bindTimestamp).getD clock = now) (hmax : now ≤ maxTimestamp)
    (hworker : activeWorker db workerId now = some worker) :
    Tx.FailsOnly (ClaimRefused db claimToken)
      (claimNextWithTime workerId asOf clock claimToken locked) db := by
  subst hclock
  refine Tx.failsOnly_bind_ok (Tx.get_run db) ?_
  generalize (asOf.map bindTimestamp).getD clock = now at hmax hworker ⊢
  cases hc : claimCandidate db now locked with
  | none => exact Tx.failsOnly_pure none db
  | some candidate =>
    obtain ⟨hrow, hpending, -⟩ := claimCandidate_spec hc
    have hmem := Table.mem_of_get? hrow
    have hsound := (hinv.readable candidate.id).job candidate hrow
    have hfit := hinv.fit hstocked hmem
    have hdecode : decodeJobId candidate.id = .ok ⟨candidate.id, hsound.id.1, hsound.id.2⟩ :=
      decodeJobId_ok.mpr rfl
    have hnumber := nextAttemptNumber_length hinv candidate.id
    have hroom := hfit.room hpending
    have hwait : queueWait now candidate.availableAt ≤ i64Max :=
      wholeMilliseconds_le (hdated.available candidate hmem) hmax
    refine Tx.failsOnly_bind_ok (lift_ok.mpr ⟨hdecode, rfl⟩) ?_
    refine Tx.failsOnly_bind_ok (Tx.get_run db) ?_
    have hwide : ¬u64Max < queueWait now candidate.availableAt :=
      not_lt.mpr (hwait.trans (by decide))
    rw [if_neg (by omega), if_neg hwide, if_neg (not_lt.mpr hwait)]
    -- The guarded UPDATE finds the candidate: its row is locked and pending.
    have hpin : ∀ r : JobRow, (r.id == candidate.id && r.state.isPending) = true →
        r.id = candidate.id := by
      intro r hr
      simp only [Bool.and_eq_true, beq_iff_eq] at hr
      exact hr.1
    refine Tx.failsOnly_bind_ok
      ((updateJobs_one hpin).mpr ⟨candidate, hrow, by simp [hpending], rfl⟩) ?_
    refine Tx.failsOnly_bind_ok (ensureOneRow_run _ _) ?_
    refine Tx.failsOnly_bind_ok (Tx.get_run _) ?_
    have hstill : activeWorker (db.setJob (candidate.started now)) workerId now = some worker :=
      hworker
    rw [hstill]
    refine Tx.failsOnly_bind ?_ fun attemptId db₁ hinsert => ?_
    · intro e he
      refine insertAttempt_error ?_ hsound.progress.1 (Nat.zero_le _) ?_ he
      · show 0 < nextAttemptNumber db candidate.id
        omega
      · intro a ha
        by_cases hjob : a.jobId = candidate.id
        · have hle := attemptNumber_le hinv (mem_attemptsOf.mpr ⟨ha, hjob⟩)
          have hne : a.attemptNumber ≠ nextAttemptNumber db candidate.id := by omega
          exact Or.inr hne
        · exact Or.inl hjob
    refine Tx.failsOnly_bind_ok (Tx.get_run _) ?_
    refine Tx.failsOnly_bind (Tx.failsOnly_lift ?_ _) fun work db₂ _ => Tx.failsOnly_pure _ _
    intro e he
    obtain ⟨work, hwork⟩ := claimedWork_ok hinv hstocked hmem
    obtain ⟨-, -, -, rfl⟩ := insertAttempt_ok.mp hinsert
    have hsame : claimedWork candidate db = .error e := he
    rw [hwork] at hsame
    cases hsame

end Claim

/-! ### A reclaim -/

section Reclaim

variable {asOf now : ℤ} {db : Db} {locked : List ℕ}

/-- Why a reclaim may be refused: the retry would be later than the last `OffsetDateTime`. -/
def ReclaimRefused (asOf : ℤ) (e : RepositoryError) : Prop :=
  e = .invalidData "retry time overflowed" ∧ maxTimestamp < asOf + seconds maxBackoffSeconds

theorem checkedAdd_backoff {n : ℕ} (hmin : minTimestamp ≤ asOf)
    (h : checkedAdd asOf (seconds (retryBackoffSeconds n)) = none) :
    maxTimestamp < asOf + seconds maxBackoffSeconds := by
  have hle : retryBackoffSeconds n ≤ maxBackoffSeconds := min_le_right _ _
  have hseconds : seconds (retryBackoffSeconds n) ≤ seconds maxBackoffSeconds :=
    Int.mul_le_mul_of_nonneg_right (by exact_mod_cast hle) (by decide)
  have hpos : 0 ≤ seconds (retryBackoffSeconds n) :=
    Int.mul_nonneg (Int.natCast_nonneg _) (by decide)
  unfold checkedAdd at h
  split at h
  · cases h
  · omega

/-- A guarded UPDATE of the job that is there, followed by its count. -/
theorem updateJobs_fits {P : RepositoryError → Prop} {p : JobRow → Bool} {f : JobRow → JobRow}
    {hf} {id : ℕ} {r : JobRow} {operation : String} (hpin : ∀ r, p r = true → r.id = id)
    (hr : db.jobs.get? id = some r) (hp : p r = true) :
    Tx.FailsOnly P (do let n ← updateJobs p f hf
                       ensureOneRow n operation : Tx Unit) db := by
  refine Tx.failsOnly_bind_ok ((updateJobs_one hpin).mpr ⟨r, hr, hp, rfl⟩) ?_
  refine Tx.failsOnly_lift (fun e he => ?_) _
  rw [(ensureOneRow_ok (u := ())).mpr rfl] at he
  cases he

theorem disposeReclaimed_failsOnly {a : AttemptRow} {r : JobRow} (hmin : minTimestamp ≤ asOf)
    (hr : db.jobs.get? a.jobId = some r) (hactive : r.state.isActive = true) :
    Tx.FailsOnly (ReclaimRefused asOf) (disposeReclaimed a r asOf) db := by
  have hid : r.id = a.jobId := Table.key_of_get? hr
  unfold disposeReclaimed
  split
  · rename_i hs
    refine Tx.failsOnly_bind ?_ fun _ _ _ => Tx.failsOnly_pure _ _
    exact updateJobs_fits isAt_pin hr (JobRow.isAt_iff.mpr ⟨hid, hs⟩)
  rename_i hs
  have hrunning : r.state = .running := by
    cases hstate : r.state <;> simp_all [JobStatus.isActive]
  split
  · cases hadd : checkedAdd asOf (seconds (retryBackoffSeconds a.attemptNumber)) with
    | none => exact Tx.failsOnly_throw ⟨rfl, checkedAdd_backoff hmin hadd⟩ db
    | some availableAt =>
      refine Tx.failsOnly_bind ?_ fun _ _ _ => Tx.failsOnly_pure _ _
      obtain ⟨rfl, -, -⟩ := checkedAdd_eq_some.mp hadd
      have hpos : 0 ≤ seconds (retryBackoffSeconds a.attemptNumber) :=
        Int.mul_nonneg (Int.natCast_nonneg _) (by decide)
      have hlater := bindTimestamp_mono (s := asOf)
        (t := asOf + seconds (retryBackoffSeconds a.attemptNumber)) (by omega)
      have hpin : ∀ r : JobRow, (r.isAt a.jobId .running && decide (bindTimestamp asOf ≤
          bindTimestamp (asOf + seconds (retryBackoffSeconds a.attemptNumber)))) = true →
          r.id = a.jobId := by
        intro r hq
        rw [Bool.and_eq_true] at hq
        exact isAt_pin r hq.1
      refine updateJobs_fits hpin hr ?_
      rw [Bool.and_eq_true, decide_eq_true_eq]
      exact ⟨JobRow.isAt_iff.mpr ⟨hid, hrunning⟩, hlater⟩
  · refine Tx.failsOnly_bind ?_ fun _ _ _ => Tx.failsOnly_pure _ _
    exact updateJobs_fits isAt_pin hr (JobRow.isAt_iff.mpr ⟨hid, hrunning⟩)

theorem reclaimTx_failsOnly (hinv : db.Inv)
    (hstarted : ∀ a, expiredCandidate db (bindTimestamp asOf) locked = some a →
      minTimestamp ≤ a.startedAt) (hmin : minTimestamp ≤ asOf) (hmax : asOf ≤ maxTimestamp) :
    Tx.FailsOnly (ReclaimRefused asOf) (reclaimNextExpiredAttemptTx asOf locked) db := by
  refine Tx.failsOnly_bind_ok (Tx.get_run db) ?_
  cases hc : expiredCandidate db (bindTimestamp asOf) locked with
  | none => exact Tx.failsOnly_pure none db
  | some a =>
    obtain ⟨hattempt, hrunning, hover, r, hr, hactive⟩ := expiredCandidate_spec hc
    have hmem := Table.mem_of_get? hattempt
    have hsound := (hinv.readable a.jobId).attempts a (mem_attemptsOf.mpr ⟨hmem, rfl⟩)
    obtain ⟨w, hw⟩ := hsound.owner
    have helapsed := wholeMilliseconds_le (hstarted a hc) hmax
    have hms : elapsedMilliseconds a.startedAt asOf =
        .ok (max (wholeMilliseconds (asOf - a.startedAt)) 0).toNat := if_pos helapsed
    simp only [hr, hw, hms]
    refine Tx.failsOnly_bind_ok (Tx.pure_run w db) ?_
    refine Tx.failsOnly_bind_ok (Tx.pure_run _ db) ?_
    have hpin : ∀ b : AttemptRow, (b.id == a.id && b.jobId == a.jobId && b.state == .running &&
        b.leaseOver (bindTimestamp asOf)) = true → b.id = a.id := by
      intro b hb
      simp only [Bool.and_eq_true, beq_iff_eq] at hb
      exact hb.1.1.1
    refine Tx.failsOnly_bind_ok
      ((updateAttempts_one hpin).mpr ⟨a, hattempt, by simp [hrunning, hover], rfl⟩) ?_
    refine Tx.failsOnly_bind_ok (ensureOneRow_run _ _) ?_
    exact Tx.failsOnly_bind (disposeReclaimed_failsOnly hmin hr hactive) fun _ _ _ =>
      Tx.failsOnly_pure _ _

end Reclaim

/-! A claim, and a lease that is over in the last second of the year 9999. -/

def lastMinutes : ℤ := seconds 253402300000

def lastMicrosecond : ℤ := seconds 253402300800 - nanosPerMicrosecond

def sampleLateOps : List Op :=
  [.create sampleName, .readClock, .registerWorker (sampleWorker 7) lastMinutes,
    .claimNext 7 5 [], .tick lastMicrosecond]

end TaskHarbor
