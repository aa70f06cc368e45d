import TaskHarbor.System.Claimable
import TaskHarbor.System.Fencing

/-! Crash recovery and reported failure follow one policy. The reclaim of an expired attempt and the
report of its holder ask for opposite leases; with the lease of the attempt set for each, both leave
the same rows, but for the message and the measured duration. -/
namespace TaskHarbor

open Relational Transaction Runs

/-- An attempt whose lease ends at another time. -/
def AttemptRow.leased (a : AttemptRow) (e : ℤ) : AttemptRow :=
  { a with leaseExpiresAt := some e }

@[simp] theorem leased_attemptNumber (a : AttemptRow) (e : ℤ) :
    (a.leased e).attemptNumber = a.attemptNumber := rfl

def Db.withLease (db : Db) (a : AttemptRow) (e : ℤ) : Db := db.setAttempt (a.leased e)

/-- The stated retry policy: doubling seconds up to a minute while attempts are left. -/
def JobRow.afterFailure (r : JobRow) (attemptNumber : ℕ) (t : ℤ) (message : String) : JobRow :=
  if attemptNumber < r.maxAttempts then
    r.retried (t + seconds ((min (2 ^ (attemptNumber - 1)) 60 : ℕ) : ℤ)) message
  else r.failed t message

/-- A job row without its message. -/
def JobRow.untold (r : JobRow) : JobRow := { r with failureMessage := none }

/-- An attempt row without its message, its measured duration and the lease of the guard. -/
def AttemptRow.untold (a : AttemptRow) : AttemptRow :=
  { a with errorMessage := none, durationMs := none, leaseExpiresAt := none }

/-- Two databases show one end of an attempt. -/
structure SameEnd (a : AttemptRow) (db db' : Db) : Prop where
  job : (db.jobs.get? a.jobId).map JobRow.untold = (db'.jobs.get? a.jobId).map JobRow.untold
  attempt : (db.jobAttempts.get? a.id).map AttemptRow.untold =
    (db'.jobAttempts.get? a.id).map AttemptRow.untold

/-! ### Time -/

theorem retryBackoffSeconds_eq (n : ℕ) : retryBackoffSeconds n = min (2 ^ (n - 1)) 60 := by
  unfold retryBackoffSeconds maxBackoffSeconds
  rw [Nat.one_shiftLeft]
  rcases Nat.le_total (n - 1) 31 with h | h
  · rw [min_eq_left h]
  · have hlarge : 2 ^ 31 ≤ 2 ^ (n - 1) := Nat.pow_le_pow_right (by decide) h
    rw [min_eq_right h]
    omega

/-- A whole second more survives the binding, but for instants before the origin that do not fit. -/
theorem bindTimestamp_add {t : ℤ} (ht : WholeMicros t ∨ postgresEpoch ≤ t) (n : ℕ) :
    bindTimestamp (t + seconds n) = bindTimestamp t + seconds n := by
  rcases ht with ht | ht
  · rw [bindTimestamp_of_wholeMicros ht,
      bindTimestamp_of_wholeMicros (ht.add (wholeMicros_seconds n))]
  · have hshift : t + seconds n - postgresEpoch =
        t - postgresEpoch + nanosPerMicrosecond * (n * 1000000) := by
      unfold seconds nanosPerSecond nanosPerMicrosecond
      ring
    have hn : (0 : ℤ) ≤ nanosPerMicrosecond * (n * 1000000) := by
      unfold nanosPerMicrosecond
      omega
    have hseconds : seconds n = n * 1000000 * nanosPerMicrosecond := by
      unfold seconds nanosPerSecond nanosPerMicrosecond
      ring
    unfold bindTimestamp
    rw [hshift, Int.tdiv_eq_ediv_of_nonneg (by omega), Int.tdiv_eq_ediv_of_nonneg (by omega),
      Int.add_mul_ediv_left _ _ (by decide), hseconds]
    ring

/-! ### The lease of a running attempt -/

section Lease

variable {db : Db} {a : AttemptRow}

theorem Db.Inv.running (hinv : db.Inv) (ha : a ∈ db.jobAttempts) (hrun : a.state = .running) :
    ∃ r, db.jobs.get? a.jobId = some r ∧ r.state.isActive = true := by
  have hmem : a ∈ (db.view a.jobId).attempts := mem_attemptsOf.mpr ⟨ha, rfl⟩
  have hlife := hinv.lifecycle a.jobId
  cases hr : (db.view a.jobId).job with
  | none =>
    rw [(hlife.absent hr).1] at hmem
    cases hmem
  | some r =>
    obtain ⟨l₁, l₂, hsplit⟩ := List.append_of_mem hmem
    exact ⟨r, hr, ((hlife.course r hr).admits.split hsplit hrun).1⟩

theorem get?_withLease (ha : a ∈ db.jobAttempts) (e : ℤ) :
    (db.withLease a e).jobAttempts.get? a.id = some (a.leased e) :=
  Table.get?_put_self (Table.get?_key ha) rfl

/-- Another lease is what a renewal may write. -/
theorem withLease_evolves (hinv : db.Inv) (ha : a ∈ db.jobAttempts) (hrun : a.state = .running)
    (e : ℤ) : ∃ now, db.Evolves now (db.withLease a e) := by
  obtain ⟨r, hr, -⟩ := hinv.running ha hrun
  obtain ⟨e', he'⟩ :=
    ((hinv.readable a.jobId).attempts a (mem_attemptsOf.mpr ⟨ha, rfl⟩)).lease
  have hlive : a.leaseAfter (e' - 1) = true := by
    rw [AttemptRow.leaseAfter, he', Option.any_some, decide_eq_true_eq]
    omega
  have hkey : db.jobAttempts.get? a.id = some a := Table.get?_key ha
  refine ⟨e' - 1, evolves_setAttempt (a := a) hkey rfl hr fun v v' hrewrites hout => ?_⟩
  exact .renewed r a e hrun hlive hrewrites hout

/-- The reclaim picks this attempt, whatever attempts others have locked. -/
theorem candidate_withLease (ha : a ∈ db.jobAttempts) {e t : ℤ} {locked : List ℕ} {b : AttemptRow}
    (h : (expiredCandidate (db.withLease a e) t locked).map AttemptRow.id = some a.id)
    (hb : expiredCandidate (db.withLease a e) t locked = some b) :
    b = a.leased e := by
  rw [hb, Option.map_some, Option.some_inj] at h
  have hget := (expiredCandidate_spec hb).1
  rw [h, get?_withLease ha e] at hget
  exact (Option.some.inj hget).symm

end Lease

/-! ### Both ends -/

section Ends

variable {db : Db} {a : AttemptRow} {r : JobRow} {t : ℤ}

/-- The rows after a rewrite of the attempt and its job. -/
theorem get?_rewritten (a' : AttemptRow) (r' : JobRow) (ha : a ∈ db.jobAttempts)
    (hr : db.jobs.get? a.jobId = some r) (hid : a'.id = a.id) (hr' : r'.id = a.jobId) :
    ((db.setAttempt a').setJob r').jobs.get? a.jobId = some r' ∧
      ((db.setAttempt a').setJob r').jobAttempts.get? a.id = some a' :=
  ⟨Table.get?_put_self (t := db.jobs) hr hr',
    Table.get?_put_self (t := db.jobAttempts) (Table.get?_key ha) hid⟩

/-- What the reclaim leaves. -/
theorem reclaimed_rows (ha : a ∈ db.jobAttempts) (hr : db.jobs.get? a.jobId = some r)
    (ht : WholeMicros t ∨ postgresEpoch ≤ t) {e : ℤ} {locked : List ℕ}
    (hcandidate : (expiredCandidate (db.withLease a e) (bindTimestamp t) locked).map
      AttemptRow.id = some a.id) {result : Option (AttemptRow × Uuid × ReclaimDisposition)}
    {db' : Db} (h : reclaimNextExpiredAttemptTx t locked (db.withLease a e) = .ok (result, db')) :
    (r.state = .running →
      db'.jobs.get? a.jobId = some (r.afterFailure a.attemptNumber (bindTimestamp t)
        leaseExpiredMessage) ∧
      ∃ ms, db'.jobAttempts.get? a.id = some ((a.leased e).closed .failed .transient
        leaseExpiredMessage (bindTimestamp t) ms)) ∧
    (r.state = .cancelRequested →
      db'.jobs.get? a.jobId = some (r.cancelled (bindTimestamp t)) ∧
      ∃ ms, db'.jobAttempts.get? a.id = some ((a.leased e).closed .cancelled .cancelled
        leaseExpiredCancelMessage (bindTimestamp t) ms)) := by
  rcases reclaimTx_ok h with
    ⟨-, -, hnone⟩ | ⟨b, r₁, r', w, d, ms, -, hb, hr₁, hdisposed, hid, -, -, rfl⟩
  · rw [hnone] at hcandidate
    cases hcandidate
  obtain rfl := candidate_withLease ha hcandidate hb
  obtain rfl : r = r₁ := Option.some.inj (hr.symm.trans hr₁)
  have hkey : (db.withLease a e).jobAttempts.get? a.id = some (a.leased e) :=
    get?_withLease ha e
  have hrid : r'.id = a.jobId := hid.trans (Table.key_of_get? hr)
  obtain ⟨hjob, hattempt⟩ := get?_rewritten ((a.leased e).expired r.state (bindTimestamp t) ms) r'
    (Table.mem_of_get? hkey) hr₁ (by unfold AttemptRow.expired; split <;> rfl) hrid
  constructor
  · intro hrun
    have hclosed : (a.leased e).expired r.state (bindTimestamp t) ms = (a.leased e).closed .failed
        .transient leaseExpiredMessage (bindTimestamp t) ms := if_neg (by simp [hrun])
    refine ⟨hjob.trans ?_, ms, hattempt.trans (congrArg some hclosed)⟩
    cases hdisposed with
    | cancelled hs =>
      rw [hrun] at hs
      cases hs
    | retried availableAt hs hroom hadd =>
      obtain ⟨rfl, -⟩ := checkedAdd_eq_some.mp hadd
      rw [leased_attemptNumber] at hroom ⊢
      rw [JobRow.afterFailure, if_pos hroom, bindTimestamp_add ht, retryBackoffSeconds_eq]
    | failed hs hroom =>
      rw [leased_attemptNumber] at hroom
      rw [JobRow.afterFailure, if_neg (not_lt.mpr hroom)]
  · intro hcancel
    have hclosed : (a.leased e).expired r.state (bindTimestamp t) ms =
        (a.leased e).closed .cancelled .cancelled leaseExpiredCancelMessage (bindTimestamp t) ms :=
      if_pos hcancel
    refine ⟨hjob.trans ?_, ms, hattempt.trans (congrArg some hclosed)⟩
    cases hdisposed with
    | cancelled hs => rfl
    | retried availableAt hs hroom hadd =>
      rw [hcancel] at hs
      cases hs
    | failed hs hroom =>
      rw [hcancel] at hs
      cases hs

variable {claimed : ClaimedJob}

/-- With a live lease, the holder reaches its rows. -/
theorem live_withLease (hissued : claimed.Issued db) (ha : a ∈ db.jobAttempts)
    (hattempt : claimed.attemptId = a.id) (hrun : a.state = .running)
    (hr : db.jobs.get? a.jobId = some r) {e : ℤ} (he : t < e) :
    claimed.Live t (db.withLease a e) (a.leased e) r := by
  obtain ⟨b, hb, hjob, -, howner, htoken⟩ := hissued.attempt
  rw [hattempt] at hb
  have hkey : db.jobAttempts.get? a.id = some a := Table.get?_key ha
  obtain rfl : a = b := Option.some.inj (hkey.symm.trans hb)
  refine ⟨hattempt ▸ get?_withLease ha e, ClaimedJob.fences_iff.mpr ?_, hjob ▸ hr⟩
  refine ⟨hattempt.symm, hjob, hrun, howner, htoken, ?_⟩
  rw [AttemptRow.leaseAfter, AttemptRow.leased, Option.any_some, decide_eq_true_eq]
  exact he

/-- What a reported transient failure leaves. -/
theorem failed_rows (hissued : claimed.Issued db) (ha : a ∈ db.jobAttempts)
    (hattempt : claimed.attemptId = a.id) (hrun : a.state = .running)
    (hr : db.jobs.get? a.jobId = some r) (hs : r.state = .running) {e : ℤ} (he : t < e)
    (ms : ℕ) (message : String) :
    ∃ d db', recordFailureTx claimed ms .transient message t (db.withLease a e) = .ok (d, db') ∧
      db'.jobs.get? a.jobId = some (r.afterFailure a.attemptNumber t message) ∧
      db'.jobAttempts.get? a.id =
        some ((a.leased e).closed .failed .transient message t ms) := by
  have hlive := live_withLease hissued ha hattempt hrun hr he
  obtain ⟨b, hb, -, hnumber, -⟩ := hissued.attempt
  rw [hattempt] at hb
  have hkey : db.jobAttempts.get? a.id = some a := Table.get?_key ha
  obtain rfl : a = b := Option.some.inj (hkey.symm.trans hb)
  obtain ⟨r₁, hr₁, hmax, -⟩ := hissued.job
  obtain rfl : r = r₁ := Option.some.inj (hlive.job.symm.trans hr₁)
  have hrows (r' : JobRow) (hid : r'.id = r.id) :=
    get?_rewritten ((a.leased e).closed .failed .transient message t ms) r'
      (Table.mem_of_get? (get?_withLease ha e)) (r := r) hr rfl
      (hid.trans (Table.key_of_get? hr))
  by_cases hroom : a.attemptNumber < r.maxAttempts
  · obtain ⟨hjob', hattempt'⟩ :=
      hrows (r.retried (t + seconds (retryBackoffSeconds claimed.attemptNumber)) message) rfl
    refine ⟨_, _, recordFailureTx_ok.mpr ⟨_, r, hlive, hs, Or.inl ⟨⟨rfl, ?_⟩, rfl, rfl⟩⟩,
      hjob'.trans ?_, hattempt'⟩
    · rw [← hnumber, ← hmax]
      exact hroom
    · rw [JobRow.afterFailure, if_pos hroom, ← hnumber, retryBackoffSeconds_eq]
  · obtain ⟨hjob', hattempt'⟩ := hrows (r.failed t message) rfl
    refine ⟨_, _, recordFailureTx_ok.mpr ⟨_, r, hlive, hs, Or.inr ⟨?_, rfl, rfl⟩⟩,
      hjob'.trans ?_, hattempt'⟩
    · rintro ⟨-, hless⟩
      rw [← hnumber, ← hmax] at hless
      exact hroom hless
    · rw [JobRow.afterFailure, if_neg hroom]

/-- What a finished cancellation leaves. -/
theorem cancelled_rows (hissued : claimed.Issued db) (ha : a ∈ db.jobAttempts)
    (hattempt : claimed.attemptId = a.id) (hrun : a.state = .running)
    (hr : db.jobs.get? a.jobId = some r) (hs : r.state = .cancelRequested) {e : ℤ} (he : t < e)
    (ms : ℕ) :
    ∃ db', finishCancelledTx claimed ms t (db.withLease a e) = .ok ((), db') ∧
      db'.jobs.get? a.jobId = some (r.cancelled t) ∧
      db'.jobAttempts.get? a.id =
        some ((a.leased e).closed .cancelled .cancelled cancelledMessage t ms) := by
  have hlive := live_withLease hissued ha hattempt hrun hr he
  obtain ⟨hjob', hattempt'⟩ := get?_rewritten
    ((a.leased e).closed .cancelled .cancelled cancelledMessage t ms) (r.cancelled t)
    (Table.mem_of_get? (get?_withLease ha e)) (r := r) hr rfl (Table.key_of_get? hr)
  exact ⟨_, finishCancelledTx_ok.mpr ⟨_, r, hlive, hs, rfl⟩, hjob', hattempt'⟩

end Ends

/-- The lease of an attempt over at `t`, the reclaim picks it; the lease live at `t`, its holder
reports a transient failure or finishes the cancellation. Both leave the same rows. The reclaim is
refused only when the retry would be later than the last `OffsetDateTime`. -/
theorem one_failure_policy {s : System} (hs : s.Reachable) {a : AttemptRow}
    (ha : a ∈ s.db.jobAttempts) (hrun : a.state = .running) {claimed : ClaimedJob}
    (hclaim : claimed ∈ s.claims) (hattempt : claimed.attemptId = a.id) {t : ℤ}
    (ht : WholeMicros t ∨ postgresEpoch ≤ t) {ended live : ℤ} (hlive : bindTimestamp t < live)
    {locked : List ℕ}
    (hover : (expiredCandidate (s.db.withLease a ended) (bindTimestamp t) locked).map
      AttemptRow.id = some a.id) (ms : ℕ) (message : String) :
    ∃ r, s.db.jobs.get? a.jobId = some r ∧ r.state.isActive = true ∧
      (r.state = .running → ∃ d failed,
        recordFailureTx claimed ms .transient message (bindTimestamp t)
          (s.db.withLease a live) = .ok (d, failed) ∧
        failed.jobs.get? a.jobId =
          some (r.afterFailure a.attemptNumber (bindTimestamp t) message) ∧
        ∀ result db', reclaimNextExpiredAttemptTx t locked (s.db.withLease a ended) =
          .ok (result, db') → SameEnd a db' failed) ∧
      (r.state = .cancelRequested → ∃ cancelled,
        finishCancelledTx claimed ms (bindTimestamp t) (s.db.withLease a live) =
          .ok ((), cancelled) ∧
        cancelled.jobs.get? a.jobId = some (r.cancelled (bindTimestamp t)) ∧
        ∀ result db', reclaimNextExpiredAttemptTx t locked (s.db.withLease a ended) =
          .ok (result, db') →
            db'.jobs.get? a.jobId = cancelled.jobs.get? a.jobId ∧ SameEnd a db' cancelled) ∧
      (minTimestamp ≤ a.startedAt → minTimestamp ≤ t → t ≤ maxTimestamp →
        Tx.FailsOnly (ReclaimRefused t) (reclaimNextExpiredAttemptTx t locked)
          (s.db.withLease a ended)) := by
  have hinv := hs.inv.db
  have hissued := hs.inv.issued claimed hclaim
  obtain ⟨r, hr, hactive⟩ := hinv.running ha hrun
  refine ⟨r, hr, hactive, ?_, ?_, ?_⟩
  · intro hrunning
    obtain ⟨d, failed, hrecord, hjob, hrow⟩ :=
      failed_rows hissued ha hattempt hrun hr hrunning hlive ms message
    refine ⟨d, failed, hrecord, hjob, fun result db' hreclaim => ?_⟩
    obtain ⟨hjob', ms', hrow'⟩ := (reclaimed_rows ha hr ht hover hreclaim).1 hrunning
    constructor
    · rw [hjob, hjob']
      unfold JobRow.afterFailure
      split <;> rfl
    · rw [hrow, hrow']
      rfl
  · intro hcancelling
    obtain ⟨cancelled, hfinish, hjob, hrow⟩ :=
      cancelled_rows hissued ha hattempt hrun hr hcancelling hlive ms
    refine ⟨cancelled, hfinish, hjob, fun result db' hreclaim => ?_⟩
    obtain ⟨hjob', ms', hrow'⟩ := (reclaimed_rows ha hr ht hover hreclaim).2 hcancelling
    refine ⟨hjob'.trans hjob.symm, ?_, ?_⟩
    · rw [hjob, hjob']
    · rw [hrow, hrow']
      rfl
  · intro hstarted hmin hmax
    obtain ⟨now, hevolves⟩ := withLease_evolves hinv ha hrun ended
    have hsteps : s.db.Steps (fun _ => False) (fun _ _ _ => False) (fun _ => False) now
        (s.db.withLease a ended) := hevolves.steps
    refine reclaimTx_failsOnly (hinv.steps hsteps) (fun b hb => ?_) hmin hmax
    rw [candidate_withLease ha hover hb]
    exact hstarted

/-- The first attempt of a job, with a lease until a minute, at a time after it and before. -/
theorem one_failure_policy_first : ∃ (s : System) (a : AttemptRow) (claimed : ClaimedJob),
    s.Reachable ∧ a ∈ s.db.jobAttempts ∧ claimed ∈ s.claims ∧
    ∃ d failed, recordFailureTx claimed 3 .transient "temporary" (bindTimestamp (seconds 100))
      (s.db.withLease a (seconds 160)) = .ok (d, failed) ∧
    ∀ result db', reclaimNextExpiredAttemptTx (seconds 100) [] (s.db.withLease a (seconds 60)) =
      .ok (result, db') → SameEnd a db' failed := by
  have hrun : (exec System.step (System.initial 0) sampleClaimOps).any (fun s =>
      s.claims.any fun claimed => s.db.jobAttempts.rows.any fun a =>
        a.state == .running && claimed.attemptId == a.id &&
        ((s.db.jobs.get? a.jobId).all fun r => r.state == .running) &&
        (expiredCandidate (s.db.withLease a (seconds 60)) (bindTimestamp (seconds 100)) []).map
          AttemptRow.id == some a.id) = true := by
    decide +kernel
  obtain ⟨s, hexec, hclaims⟩ := (Option.any_eq_true _ _).mp hrun
  obtain ⟨claimed, hclaimed, hattempts⟩ := List.any_eq_true.mp hclaims
  obtain ⟨a, ha, htests⟩ := List.any_eq_true.mp hattempts
  simp only [Bool.and_eq_true, beq_iff_eq] at htests
  obtain ⟨⟨⟨hrunning, hid⟩, hjob⟩, hover⟩ := htests
  have hreachable := reachable_of_exec hexec
  obtain ⟨r, hr, -, hfailed, -⟩ := one_failure_policy hreachable ha hrunning hclaimed hid
    (.inl (wholeMicros_seconds 100))
    (show bindTimestamp (seconds 100) < seconds 160 by decide) hover 3 "temporary"
  rw [hr] at hjob
  obtain ⟨d, failed, hrecord, -, hsame⟩ := hfailed (by simpa using hjob)
  exact ⟨s, a, claimed, hreachable, ha, hclaimed, d, failed, hrecord, hsame⟩

end TaskHarbor
