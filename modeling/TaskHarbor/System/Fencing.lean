import TaskHarbor.System.Lifecycle

/-! A claim whose attempt is closed or whose lease is over stays powerless for ever. -/
namespace TaskHarbor

open Relational Transaction Runs

section Sessions

variable {claimed : ClaimedJob} {now : ℤ} {db : Db}

theorem finishCancelled_lost (h : claimed.Lost db now) {duration : ℕ} (hd : duration ≤ i64Max) :
    finishCancelled claimed duration now db = (.error .claimLost, db) := by
  have henc : encodeDuration duration = .ok duration := encodeDuration_ok.mpr ⟨hd, rfl⟩
  rw [finishCancelled, Session.bind_run, Session.liftExcept_run, henc]
  exact commit_error (finishCancelledTx_lost h)

theorem recordFailure_lost (h : claimed.Lost db now) {duration : ℕ} {kind : FailureKind}
    {message : String} (hd : duration ≤ i64Max) :
    recordFailure claimed duration kind message now db = (.error .claimLost, db) := by
  have henc : encodeDuration duration = .ok duration := encodeDuration_ok.mpr ⟨hd, rfl⟩
  rw [recordFailure, Session.bind_run, Session.liftExcept_run, henc]
  exact commit_error (recordFailureTx_lost h)

theorem updateProgress_lost (h : claimed.Lost db now) {completed : ℕ} (hc : completed ≤ i32Max) :
    updateProgress claimed completed now db = (.error .claimLost, db) := by
  unfold updateProgress
  rw [if_neg (not_lt.mpr hc)]
  exact commit_error (updateProgressTx_lost h)

theorem recordEncodingDuration_lost (h : claimed.Lost db now) {duration : ℕ}
    (hd : duration ≤ i64Max) :
    recordEncodingDuration claimed duration now db = (.error .claimLost, db) := by
  unfold recordEncodingDuration
  rw [if_neg (not_lt.mpr hd)]
  exact commit_error (recordEncodingDurationTx_lost h)

theorem renewLease_lost (h : claimed.Lost db now) :
    renewLease claimed none now db = (.error .claimLost, db) :=
  commit_error (renewLeaseTx_lost h)

theorem complete_lost (h : claimed.Lost db now) {delay duration : ℕ}
    (hwork : claimed.work = .demoDelay delay) (hd : duration ≤ i64Max) :
    complete claimed duration now db = (.error .claimLost, db) := by
  unfold complete
  rw [hwork]
  simp only [if_neg (not_lt.mpr hd)]
  exact commit_error (completeTx_lost h)

theorem completeImageJob_lost (h : claimed.Lost db now) {w q duration : ℕ}
    {inputs : List ArtifactRecord} {outputs : List PendingOutputArtifact}
    (hwork : claimed.work = .imageResize w q inputs) (hd : duration ≤ i64Max)
    (hlen : outputs.length = inputs.length) :
    completeImageJob claimed duration outputs now db = (.error .claimLost, db) := by
  have henc : encodeDuration duration = .ok duration := encodeDuration_ok.mpr ⟨hd, rfl⟩
  have htx : completeImageJobTx claimed inputs.length duration outputs now db =
      .error .claimLost := by
    unfold completeImageJobTx
    rw [Tx.bind_run, lockActiveClaim_lost h]
  unfold completeImageJob
  rw [hwork]
  simp only [if_neg (not_not.mpr hlen)]
  rw [Session.bind_run, Session.liftExcept_run, henc]
  exact commit_error htx

end Sessions

/-- Every call of the claim holder, with arguments that fit their columns, answers `ClaimLost` and
leaves the database as it is. -/
structure ClaimedJob.Powerless (claimed : ClaimedJob) (now : ℤ) (db : Db) : Prop where
  renewLease : renewLease claimed none now db = (.error .claimLost, db)
  updateProgress : ∀ completed ≤ i32Max,
    updateProgress claimed completed now db = (.error .claimLost, db)
  recordEncodingDuration : ∀ duration ≤ i64Max,
    recordEncodingDuration claimed duration now db = (.error .claimLost, db)
  recordFailure : ∀ duration ≤ i64Max, ∀ kind message,
    recordFailure claimed duration kind message now db = (.error .claimLost, db)
  finishCancelled : ∀ duration ≤ i64Max,
    finishCancelled claimed duration now db = (.error .claimLost, db)
  complete : ∀ duration ≤ i64Max, ∀ delay, claimed.work = .demoDelay delay →
    complete claimed duration now db = (.error .claimLost, db)
  completeImageJob : ∀ duration ≤ i64Max, ∀ w q inputs outputs,
    claimed.work = .imageResize w q inputs → outputs.length = inputs.length →
      completeImageJob claimed duration outputs now db = (.error .claimLost, db)
  cancellationRequested : cancellationRequested claimed now db = .error .claimLost

theorem ClaimedJob.Lost.powerless {claimed : ClaimedJob} {now : ℤ} {db : Db}
    (h : claimed.Lost db now) : claimed.Powerless now db where
  renewLease := renewLease_lost h
  updateProgress := fun _ hc => updateProgress_lost h hc
  recordEncodingDuration := fun _ hd => recordEncodingDuration_lost h hd
  recordFailure := fun _ hd _ _ => recordFailure_lost h hd
  finishCancelled := fun _ hd => finishCancelled_lost h hd
  complete := fun _ hd _ hwork => complete_lost h hwork hd
  completeImageJob := fun _ hd _ _ _ _ hwork hlen => completeImageJob_lost h hwork hd hlen
  cancellationRequested := cancellationRequested_lost h

/-- A lost claim stays lost in every later state. -/
theorem ClaimedJob.Lost.run {ok : System → Op → Prop} {s t : System} {claimed : ClaimedJob}
    (hinv : s.Inv) (hc : claimed ∈ s.claims) (h : claimed.Lost s.db s.now)
    (hrun : Run System.step ok s t) : claimed.Lost t.db t.now := by
  induction hrun with
  | refl => exact h
  | tail op hrun _ hstep ih =>
    have hmid := hinv.run hrun
    exact ih.turns (hmid.issued claimed (System.run_claims hrun hc))
      (System.step_db hmid hstep).turns (System.step_now hstep)

/-- Once lost, a claim is powerless in every later state of every run. -/
theorem lost_claim_powerless {s t : System} {claimed : ClaimedJob} (hs : s.Reachable)
    (hc : claimed ∈ s.claims) (hlost : claimed.Lost s.db s.now)
    (hrun : Run System.step Always s t) : claimed.Powerless t.now t.db :=
  (hlost.run hs.inv hc hrun).powerless

/-- The first attempt is reclaimed. -/
def sampleReclaimOps : List Op :=
  sampleClaimOps ++ [.tick (seconds 61), .readClock, .reclaim (seconds 61) []]

/-- The same worker then runs a second attempt of the job. -/
def sampleSecondOps : List Op :=
  [.heartbeatWorker 7 (60 * durationNanos) (seconds 61), .tick (seconds 70), .claimNext 7 6 []]

theorem lost_claim_powerless_second : ∃ (s t : System) (claimed : ClaimedJob), s.Reachable ∧
    claimed ∈ s.claims ∧ Run System.step Always s t ∧
    (t.db.jobAttempts.rows.any fun a => a.state == .running &&
      a.jobId == claimed.jobId.get && a.workerId == some claimed.workerId) = true ∧
    claimed.Powerless t.now t.db := by
  have hrun : (exec System.step (System.initial 0) sampleReclaimOps).any (fun s =>
      s.claims.any fun claimed =>
        ((s.db.jobAttempts.get? claimed.attemptId).all fun a => a.state != .running) &&
        (exec System.step s sampleSecondOps).any fun t => t.db.jobAttempts.rows.any fun a =>
          a.state == .running && a.jobId == claimed.jobId.get &&
            a.workerId == some claimed.workerId) = true := by
    decide +kernel
  obtain ⟨s, hexec, hclaims⟩ := (Option.any_eq_true _ _).mp hrun
  obtain ⟨claimed, hc, hboth⟩ := List.any_eq_true.mp hclaims
  rw [Bool.and_eq_true] at hboth
  obtain ⟨hclosed, hsecond⟩ := hboth
  obtain ⟨t, hexec', hrunning⟩ := (Option.any_eq_true _ _).mp hsecond
  have hs := reachable_of_exec hexec
  have ht : Run System.step Always s t := run_of_exec (fun _ _ _ => trivial) hexec'
  have hlost : claimed.Lost s.db s.now := by
    intro a ha
    left
    simpa [ha] using hclosed
  exact ⟨s, t, claimed, hs, hc, ht, hrunning, lost_claim_powerless hs hc hlost ht⟩

end TaskHarbor
