import TaskHarbor.Lifecycle.Readable

/-! The transactions that a claim holder runs: what each does when it succeeds, and that all of
them answer `ClaimLost` and change nothing once the attempt is closed or its lease is over. -/
namespace TaskHarbor

open Relational Transaction

/-! ### Fencing -/

theorem ClaimedJob.fences_iff {claimed : ClaimedJob} {t : ℤ} {a : AttemptRow} :
    claimed.fences t a = true ↔ a.id = claimed.attemptId ∧ a.jobId = claimed.jobId.get ∧
      a.state = .running ∧ a.workerId = some claimed.workerId ∧
      a.claimToken = some claimed.claimToken ∧ a.leaseAfter t = true := by
  simp [ClaimedJob.fences, and_assoc]

/-- The database rows behind a claim that `claim_next` returned. -/
structure ClaimedJob.Issued (claimed : ClaimedJob) (db : Db) : Prop where
  attempt : ∃ a, db.jobAttempts.get? claimed.attemptId = some a ∧
    a.jobId = claimed.jobId.get ∧ a.attemptNumber = claimed.attemptNumber ∧
    a.workerId = some claimed.workerId ∧ a.claimToken = some claimed.claimToken
  job : ∃ r, db.jobs.get? claimed.jobId.get = some r ∧ r.maxAttempts = claimed.maxAttempts ∧
    claimedWork r db = .ok claimed.work

/-- The attempt of the claim is closed, or its lease is over. -/
def ClaimedJob.Lost (claimed : ClaimedJob) (db : Db) (t : ℤ) : Prop :=
  ∀ a, db.jobAttempts.get? claimed.attemptId = some a → a.Dead t

theorem ClaimedJob.Lost.not_fences {claimed : ClaimedJob} {db : Db} {t : ℤ}
    (h : claimed.Lost db t) : ∀ a ∈ db.jobAttempts, claimed.fences t a = false := by
  intro a ha
  by_contra hf
  obtain ⟨hid, -, hrun, -, -, hlive⟩ := ClaimedJob.fences_iff.mp (by simpa using hf)
  rcases h a (Table.get?_eq_some.mpr ⟨ha, hid⟩) with hclosed | hover
  · exact hclosed hrun
  · rw [hover] at hlive
    cases hlive

theorem ClaimedJob.Lost.not_any {claimed : ClaimedJob} {db : Db} {t : ℤ}
    (h : claimed.Lost db t) : db.jobAttempts.rows.any (claimed.fences t) = false := by
  rw [List.any_eq_false]
  intro a ha
  simp [h.not_fences a ha]

theorem fences_of_any {claimed : ClaimedJob} {db : Db} {t : ℤ}
    (h : db.jobAttempts.rows.any (claimed.fences t) = true) :
    ∃ a, db.jobAttempts.get? claimed.attemptId = some a ∧ claimed.fences t a = true := by
  obtain ⟨a, ha, hf⟩ := List.any_eq_true.mp h
  exact ⟨a, Table.get?_eq_some.mpr ⟨ha, (ClaimedJob.fences_iff.mp hf).1⟩, hf⟩

theorem any_fences {claimed : ClaimedJob} {db : Db} {t : ℤ} {a : AttemptRow}
    (ha : db.jobAttempts.get? claimed.attemptId = some a) (hf : claimed.fences t a = true) :
    db.jobAttempts.rows.any (claimed.fences t) = true :=
  List.any_eq_true.mpr ⟨a, Table.mem_of_get? ha, hf⟩

/-! ### Evolution by rewriting one attempt -/

theorem evolves_rewrite {now : ℤ} {db : Db} {r r' : JobRow} {a a' : AttemptRow}
    (ha : db.jobAttempts.get? a'.id = some a) (hjob : a'.jobId = a.jobId)
    (hr : db.jobs.get? a.jobId = some r) (hid : r'.id = a.jobId)
    (h : ∀ v v' : JobView, v.Rewrites v' r r' a a' → v'.outputs = v.outputs →
      Transition now v v') :
    db.Evolves now ((db.setAttempt a').setJob r') := by
  refine ⟨fun id => ?_, rfl, rfl, rfl⟩
  by_cases hj : a.jobId = id
  · subst hj
    exact h _ _ (view_rewrite ha hjob hr hid) rfl
  · exact .stay (view_rewrite_of_ne ha hjob hid hj)

/-- Replacing an attempt row alone. -/
theorem evolves_setAttempt {now : ℤ} {db : Db} {r : JobRow} {a a' : AttemptRow}
    (ha : db.jobAttempts.get? a'.id = some a) (hjob : a'.jobId = a.jobId)
    (hr : db.jobs.get? a.jobId = some r)
    (h : ∀ v v' : JobView, v.Rewrites v' r r a a' → v'.outputs = v.outputs →
      Transition now v v') :
    db.Evolves now (db.setAttempt a') := by
  refine ⟨fun id => ?_, rfl, rfl, rfl⟩
  by_cases hj : a.jobId = id
  · subst hj
    exact h _ _ ⟨hr, hr, attemptsOf_setAttempt ha hjob, rfl⟩ rfl
  · exact .stay (view_setAttempt_of_ne ha hjob hj)

/-! ### One fenced update of the attempt, one guarded update of the job -/

section Fenced

variable {claimed : ClaimedJob} {now : ℤ} {db db' : Db}

theorem fenced_ok (claimed : ClaimedJob) {p : AttemptRow → Bool} {f : AttemptRow → AttemptRow} {hf}
    {q : JobRow → Bool}
    {g : JobRow → JobRow} {hg} {operation : String} {u : Unit}
    (hp : ∀ a, p a = true → a.id = claimed.attemptId)
    (hq : ∀ r, q r = true → r.id = claimed.jobId.get) :
    (do let attempt ← updateAttempts p f hf
        ensureClaimRow attempt
        let job ← updateJobs q g hg
        ensureOneRow job operation : Tx Unit) db = .ok (u, db') ↔
      ∃ a r, db.jobAttempts.get? claimed.attemptId = some a ∧ p a = true ∧
        db.jobs.get? claimed.jobId.get = some r ∧ q r = true ∧
        db' = (db.setAttempt (f a)).setJob (g r) := by
  simp only [Tx.bind_ok, lift_ok, ensureClaimRow_ok, ensureOneRow_ok]
  constructor
  · rintro ⟨n, db₁, hn, _, _, ⟨rfl, rfl⟩, m, db₂, hm, rfl, rfl⟩
    obtain ⟨a, ha, hpa, rfl⟩ := (updateAttempts_one hp).mp hn
    obtain ⟨r, hr, hqr, rfl⟩ := (updateJobs_one hq).mp hm
    exact ⟨a, r, ha, hpa, hr, hqr, rfl⟩
  · rintro ⟨a, r, ha, hpa, hr, hqr, rfl⟩
    exact ⟨1, _, (updateAttempts_one hp).mpr ⟨a, ha, hpa, rfl⟩, (), _, ⟨rfl, rfl⟩, 1, _,
      (updateJobs_one hq).mpr ⟨r, hr, hqr, rfl⟩, rfl, rfl⟩

theorem fences_pin (a : AttemptRow) (h : claimed.fences now a = true) :
    a.id = claimed.attemptId := (ClaimedJob.fences_iff.mp h).1

theorem JobRow.isAt_iff {id : ℕ} {state : JobStatus} {r : JobRow} :
    r.isAt id state = true ↔ r.id = id ∧ r.state = state := by
  simp [JobRow.isAt]

theorem isAt_pin {id : ℕ} {state : JobStatus} (r : JobRow) (h : r.isAt id state = true) :
    r.id = id := (JobRow.isAt_iff.mp h).1

/-- Both rows of a live claim. -/
structure ClaimedJob.Live (claimed : ClaimedJob) (now : ℤ) (db : Db) (a : AttemptRow)
    (r : JobRow) : Prop where
  attempt : db.jobAttempts.get? claimed.attemptId = some a
  fences : claimed.fences now a = true
  job : db.jobs.get? claimed.jobId.get = some r

theorem ClaimedJob.Live.jobId {a : AttemptRow} {r : JobRow} (h : claimed.Live now db a r) :
    a.jobId = claimed.jobId.get := (ClaimedJob.fences_iff.mp h.fences).2.1

theorem ClaimedJob.Live.running {a : AttemptRow} {r : JobRow} (h : claimed.Live now db a r) :
    a.state = .running := (ClaimedJob.fences_iff.mp h.fences).2.2.1

/-- A live claim rewrites its two rows and nothing else. -/
theorem ClaimedJob.Live.evolves {a a' : AttemptRow} {r r' : JobRow}
    (h : claimed.Live now db a r) (hid : a'.id = a.id) (hjob : a'.jobId = a.jobId)
    (hr : r'.id = r.id)
    (ht : ∀ v v' : JobView, v.Rewrites v' r r' a a' → v'.outputs = v.outputs →
      Transition now v v') :
    db.Evolves now ((db.setAttempt a').setJob r') := by
  have haid : a.id = claimed.attemptId := Table.key_of_get? h.attempt
  have hrid : r.id = claimed.jobId.get := Table.key_of_get? h.job
  refine evolves_rewrite ?_ hjob ?_ ?_ ht
  · rw [hid, haid]
    exact h.attempt
  · rw [h.jobId]
    exact h.job
  · rw [hr, hrid, h.jobId]

theorem ClaimedJob.Live.evolves_attempt {a a' : AttemptRow} {r : JobRow}
    (h : claimed.Live now db a r) (hid : a'.id = a.id) (hjob : a'.jobId = a.jobId)
    (ht : ∀ v v' : JobView, v.Rewrites v' r r a a' → v'.outputs = v.outputs →
      Transition now v v') :
    db.Evolves now (db.setAttempt a') := by
  have haid : a.id = claimed.attemptId := Table.key_of_get? h.attempt
  refine evolves_setAttempt ?_ hjob ?_ ht
  · rw [hid, haid]
    exact h.attempt
  · rw [h.jobId]
    exact h.job

/-! ### The operations -/

theorem finishCancelledTx_ok {ms : ℕ} {u : Unit} :
    finishCancelledTx claimed ms now db = .ok (u, db') ↔
      ∃ a r, claimed.Live now db a r ∧ r.state = .cancelRequested ∧
        db' = (db.setAttempt (a.closed .cancelled .cancelled cancelledMessage now ms)).setJob
          (r.cancelled now) := by
  refine (fenced_ok claimed fences_pin isAt_pin).trans ?_
  constructor
  · rintro ⟨a, r, ha, hf, hr, hs, rfl⟩
    exact ⟨a, r, ⟨ha, hf, hr⟩, (JobRow.isAt_iff.mp hs).2, rfl⟩
  · rintro ⟨a, r, ⟨ha, hf, hr⟩, hs, rfl⟩
    exact ⟨a, r, ha, hf, hr, JobRow.isAt_iff.mpr ⟨Table.key_of_get? hr, hs⟩, rfl⟩

theorem finishCancelledTx_evolves {ms : ℕ} {u : Unit}
    (h : finishCancelledTx claimed ms now db = .ok (u, db')) : db.Evolves now db' := by
  obtain ⟨a, r, hlive, hs, rfl⟩ := finishCancelledTx_ok.mp h
  exact hlive.evolves rfl rfl rfl fun v v' hrw hout =>
    .cancelFinished r a cancelledMessage now ms hlive.running hs hrw hout

theorem completeTx_ok {ms : ℕ} {u : Unit} :
    completeTx claimed ms now db = .ok (u, db') ↔
      ∃ a r, claimed.Live now db a r ∧ r.state = .running ∧ r.jobType = .demoDelay ∧
        db' = (db.setAttempt (a.completed now ms)).setJob (r.completed now ms resultMessage) := by
  refine (fenced_ok claimed fences_pin ?_).trans ?_
  · intro r hq
    simp only [Bool.and_eq_true] at hq
    exact isAt_pin r hq.1
  constructor
  · rintro ⟨a, r, ha, hf, hr, hq, rfl⟩
    simp only [Bool.and_eq_true, beq_iff_eq] at hq
    exact ⟨a, r, ⟨ha, hf, hr⟩, (JobRow.isAt_iff.mp hq.1).2, hq.2, rfl⟩
  · rintro ⟨a, r, ⟨ha, hf, hr⟩, hs, hd, rfl⟩
    refine ⟨a, r, ha, hf, hr, ?_, rfl⟩
    simp only [Bool.and_eq_true, beq_iff_eq]
    exact ⟨JobRow.isAt_iff.mpr ⟨Table.key_of_get? hr, hs⟩, hd⟩

theorem completeTx_evolves {ms : ℕ} {u : Unit}
    (h : completeTx claimed ms now db = .ok (u, db')) : db.Evolves now db' := by
  obtain ⟨a, r, hlive, hs, hd, rfl⟩ := completeTx_ok.mp h
  exact hlive.evolves rfl rfl rfl fun v v' hrw hout =>
    .completed r a now ms hlive.running hs hd hrw hout

theorem updateProgressTx_ok {n : ℕ} {u : Unit} :
    updateProgressTx claimed n now db = .ok (u, db') ↔
      ∃ a r, claimed.Live now db a r ∧ r.state = .running ∧
        betweenProgress n a.progressCompleted a.progressTotal = true ∧
        betweenProgress n r.progressCompleted r.progressTotal = true ∧
        db' = (db.setAttempt { a with progressCompleted := n }).setJob
          { r with progressCompleted := n } := by
  refine (fenced_ok claimed ?_ ?_).trans ?_
  · intro a hp
    simp only [Bool.and_eq_true] at hp
    exact fences_pin a hp.1
  · intro r hq
    simp only [Bool.and_eq_true] at hq
    exact isAt_pin r hq.1
  constructor
  · rintro ⟨a, r, ha, hp, hr, hq, rfl⟩
    simp only [Bool.and_eq_true] at hp hq
    exact ⟨a, r, ⟨ha, hp.1, hr⟩, (JobRow.isAt_iff.mp hq.1).2, hp.2, hq.2, rfl⟩
  · rintro ⟨a, r, ⟨ha, hf, hr⟩, hs, hba, hbr, rfl⟩
    refine ⟨a, r, ha, ?_, hr, ?_, rfl⟩
    · simp only [Bool.and_eq_true]
      exact ⟨hf, hba⟩
    · simp only [Bool.and_eq_true]
      exact ⟨JobRow.isAt_iff.mpr ⟨Table.key_of_get? hr, hs⟩, hbr⟩

theorem updateProgressTx_evolves {n : ℕ} {u : Unit}
    (h : updateProgressTx claimed n now db = .ok (u, db')) : db.Evolves now db' := by
  obtain ⟨a, r, hlive, hs, hba, hbr, rfl⟩ := updateProgressTx_ok.mp h
  exact hlive.evolves rfl rfl rfl fun v v' hrw hout =>
    .progressed r a n hlive.running hs hba hbr hrw hout

/-- The two ends of a reported failure. -/
def retries (claimed : ClaimedJob) (kind : FailureKind) : Prop :=
  kind = .transient ∧ claimed.attemptNumber < claimed.maxAttempts

theorem recordFailureTx_ok {ms : ℕ} {kind : FailureKind} {message : String}
    {d : FailureDisposition} :
    recordFailureTx claimed ms kind message now db = .ok (d, db') ↔
      ∃ a r, claimed.Live now db a r ∧ r.state = .running ∧
        (retries claimed kind ∧
            d = .retryScheduled (now + seconds (retryBackoffSeconds claimed.attemptNumber)) ∧
            db' = (db.setAttempt (a.closed .failed kind.errorKind message now ms)).setJob
              (r.retried (now + seconds (retryBackoffSeconds claimed.attemptNumber)) message) ∨
          ¬retries claimed kind ∧ d = .failed ∧
            db' = (db.setAttempt (a.closed .failed kind.errorKind message now ms)).setJob
              (r.failed now message)) := by
  have hend : ∀ (g : JobRow → JobRow) (hg) (operation : String) (x : FailureDisposition),
      (do let attempt ← updateAttempts (claimed.fences now)
            (AttemptRow.closed .failed kind.errorKind message now ms)
          ensureClaimRow attempt
          let job ← updateJobs (JobRow.isAt claimed.jobId.get .running) g hg
          ensureOneRow job operation
          return x : Tx FailureDisposition) db = .ok (d, db') ↔
        ∃ a r, claimed.Live now db a r ∧ r.state = .running ∧ d = x ∧
          db' = (db.setAttempt (a.closed .failed kind.errorKind message now ms)).setJob (g r) := by
    intro g hg operation x
    simp only [Tx.bind_ok, lift_ok, ensureClaimRow_ok, ensureOneRow_ok, Tx.pure_run,
      Except.ok.injEq, Prod.mk.injEq]
    constructor
    · rintro ⟨n, db₁, hn, _, _, ⟨rfl, rfl⟩, m, db₂, hm, _, _, ⟨rfl, rfl⟩, rfl, rfl⟩
      obtain ⟨a, ha, hf, rfl⟩ := (updateAttempts_one fences_pin).mp hn
      obtain ⟨r, hr, hq, rfl⟩ := (updateJobs_one isAt_pin).mp hm
      exact ⟨a, r, ⟨ha, hf, hr⟩, (JobRow.isAt_iff.mp hq).2, rfl, rfl⟩
    · rintro ⟨a, r, ⟨ha, hf, hr⟩, hs, rfl, rfl⟩
      have hq := JobRow.isAt_iff.mpr ⟨Table.key_of_get? hr, hs⟩
      exact ⟨1, _, (updateAttempts_one fences_pin).mpr ⟨a, ha, hf, rfl⟩, (), _, ⟨rfl, rfl⟩, 1, _,
        (updateJobs_one isAt_pin).mpr ⟨r, hr, hq, rfl⟩, (), _, ⟨rfl, rfl⟩, rfl, rfl⟩
  unfold recordFailureTx
  by_cases hretry : retries claimed kind
  · simp only [if_pos (show kind = .transient ∧ _ from hretry), hretry, true_and,
      not_true_eq_false, false_and, or_false]
    exact hend _ _ _ _
  · simp only [if_neg (show ¬(kind = .transient ∧ _) from hretry), hretry, false_and,
      not_false_eq_true, true_and, false_or]
    exact hend _ _ _ _

theorem recordFailureTx_evolves {ms : ℕ} {kind : FailureKind} {message : String}
    {d : FailureDisposition} (hissued : claimed.Issued db)
    (h : recordFailureTx claimed ms kind message now db = .ok (d, db')) : db.Evolves now db' := by
  obtain ⟨a, r, hlive, hs, hend⟩ := recordFailureTx_ok.mp h
  rcases hend with ⟨hretry, -, rfl⟩ | ⟨-, -, rfl⟩
  · obtain ⟨b, hb, -, hnumber, -⟩ := hissued.attempt
    obtain ⟨s, hjob, hmax, -⟩ := hissued.job
    obtain rfl : a = b := Option.some.inj (hlive.attempt.symm.trans hb)
    obtain rfl : r = s := Option.some.inj (hlive.job.symm.trans hjob)
    have hroom : a.attemptNumber < r.maxAttempts := by
      rw [hnumber, hmax]
      exact hretry.2
    refine hlive.evolves rfl rfl rfl fun v v' hrw hout => ?_
    rw [hretry.1] at hrw
    have hbackoff : Backoff a.attemptNumber now
        (now + seconds (retryBackoffSeconds claimed.attemptNumber)) :=
      ⟨now, Or.inl ⟨rfl, by rw [hnumber]⟩⟩
    exact .retried r a message now _ ms hlive.running hs hroom hrw hout hbackoff
  · exact hlive.evolves rfl rfl rfl fun v v' hrw hout =>
      .failed r a kind message now ms hlive.running hs hrw hout

theorem recordEncodingDurationTx_ok {ms : ℕ} {u : Unit}
    (h : recordEncodingDurationTx claimed ms now db = .ok (u, db')) :
    ∃ a, db.jobAttempts.get? claimed.attemptId = some a ∧ claimed.fences now a = true ∧
      db' = db.setAttempt { a with encodingDurationMs := a.encodingDurationMs + ms } := by
  unfold recordEncodingDurationTx at h
  obtain ⟨db₀, _, hget, h⟩ := Tx.bind_ok.mp h
  cases hget
  split at h
  · cases h
  · simp only [Tx.bind_ok, lift_ok, ensureClaimRow_ok] at h
    obtain ⟨n, db₁, hn, rfl, rfl⟩ := h
    exact (updateAttempts_one fences_pin).mp hn

theorem recordEncodingDurationTx_evolves {ms : ℕ} {u : Unit} (hissued : claimed.Issued db)
    (h : recordEncodingDurationTx claimed ms now db = .ok (u, db')) : db.Evolves now db' := by
  obtain ⟨a, ha, hf, rfl⟩ := recordEncodingDurationTx_ok h
  obtain ⟨r, hr, -⟩ := hissued.job
  have hlive : claimed.Live now db a r := ⟨ha, hf, hr⟩
  exact hlive.evolves_attempt rfl rfl fun v v' hrw hout =>
    .measured r a _ hlive.running hrw hout

theorem renewalJoin_eq_some {t : ℤ} {w : WorkerRow} :
    renewalJoin claimed t db = some w ↔
      (∃ r, db.jobs.get? claimed.jobId.get = some r ∧ r.state.isActive = true) ∧
        activeWorker db claimed.workerId t = some w := by
  unfold renewalJoin
  cases db.jobs.get? claimed.jobId.get with
  | none => simp
  | some r => by_cases hs : r.state.isActive = true <;> simp [hs]

theorem renewLeaseTx_ok {e : ℤ} :
    renewLeaseTx claimed none now db = .ok (e, db') ↔
      ∃ a r w, claimed.Live now db a r ∧ r.state.isActive = true ∧
        activeWorker db claimed.workerId now = some w ∧
        e = now + seconds w.leaseDurationSeconds ∧
        db' = db.setAttempt { a with leaseExpiresAt := some e } := by
  unfold renewLeaseTx
  simp only [Tx.bind_ok, Tx.get_run, Except.ok.injEq, Prod.mk.injEq, Option.map_none,
    Option.getD_none]
  constructor
  · rintro ⟨_, _, ⟨rfl, rfl⟩, h⟩
    cases hw : renewalJoin claimed now db with
    | none =>
      simp only [hw] at h
      cases h
    | some w =>
      obtain ⟨⟨r, hr, hs⟩, hworker⟩ := renewalJoin_eq_some.mp hw
      simp only [hw, Tx.bind_ok, lift_ok, ensureClaimRow_ok, Tx.pure_run, Except.ok.injEq,
        Prod.mk.injEq] at h
      obtain ⟨n, _, hn, _, _, ⟨rfl, rfl⟩, rfl, rfl⟩ := h
      obtain ⟨a, ha, hf, rfl⟩ := (updateAttempts_one fences_pin).mp hn
      exact ⟨a, r, w, ⟨ha, hf, hr⟩, hs, hworker, rfl, rfl⟩
  · rintro ⟨a, r, w, ⟨ha, hf, hr⟩, hs, hworker, rfl, rfl⟩
    refine ⟨db, db, ⟨rfl, rfl⟩, ?_⟩
    have hw := renewalJoin_eq_some.mpr ⟨⟨r, hr, hs⟩, hworker⟩
    simp only [hw, Tx.bind_ok, lift_ok, ensureClaimRow_ok, Tx.pure_run, Except.ok.injEq,
      Prod.mk.injEq]
    exact ⟨1, _, (updateAttempts_one fences_pin).mpr ⟨a, ha, hf, rfl⟩, (), _, ⟨rfl, rfl⟩, trivial,
      rfl⟩

theorem renewLeaseTx_evolves {e : ℤ}
    (h : renewLeaseTx claimed none now db = .ok (e, db')) : db.Evolves now db' := by
  obtain ⟨a, r, w, hlive, -, -, -, rfl⟩ := renewLeaseTx_ok.mp h
  have hafter := (ClaimedJob.fences_iff.mp hlive.fences).2.2.2.2.2
  exact hlive.evolves_attempt rfl rfl fun v v' hrw hout =>
    .renewed r a e hlive.running hafter hrw hout

/-! ### A lost claim -/

theorem updateAttempts_lost {α : Type} {p : AttemptRow → Bool} {f : AttemptRow → AttemptRow} {hf}
    {k : Unit → Tx α} (h : ∀ a ∈ db.jobAttempts, p a = false) :
    (do let n ← updateAttempts p f hf
        let u ← ensureClaimRow n
        k u : Tx α) db = .error .claimLost := by
  have hcount : db.jobAttempts.count p = 0 := Table.count_eq_zero.mpr h
  simp only [Tx.bind_run, updateAttempts, hcount, Tx.liftExcept_run]
  rfl

theorem updateAttempts_lost_last {p : AttemptRow → Bool} {f : AttemptRow → AttemptRow} {hf}
    (h : ∀ a ∈ db.jobAttempts, p a = false) :
    (do let n ← updateAttempts p f hf
        ensureClaimRow n : Tx Unit) db = .error .claimLost := by
  have hcount : db.jobAttempts.count p = 0 := Table.count_eq_zero.mpr h
  simp only [Tx.bind_run, updateAttempts, hcount, Tx.liftExcept_run]
  rfl

theorem finishCancelledTx_lost {ms : ℕ} (h : claimed.Lost db now) :
    finishCancelledTx claimed ms now db = .error .claimLost :=
  updateAttempts_lost h.not_fences

theorem completeTx_lost {ms : ℕ} (h : claimed.Lost db now) :
    completeTx claimed ms now db = .error .claimLost :=
  updateAttempts_lost h.not_fences

theorem recordFailureTx_lost {ms : ℕ} {kind : FailureKind} {message : String}
    (h : claimed.Lost db now) :
    recordFailureTx claimed ms kind message now db = .error .claimLost :=
  updateAttempts_lost h.not_fences

theorem updateProgressTx_lost {n : ℕ} (h : claimed.Lost db now) :
    updateProgressTx claimed n now db = .error .claimLost :=
  updateAttempts_lost fun a ha => by simp [h.not_fences a ha]

theorem recordEncodingDurationTx_lost {ms : ℕ} (h : claimed.Lost db now) :
    recordEncodingDurationTx claimed ms now db = .error .claimLost := by
  have hnone : db.jobAttempts.rows.any (fun a =>
      claimed.fences now a && decide (i64Max < a.encodingDurationMs + ms)) = false := by
    rw [List.any_eq_false]
    intro a ha
    simp [h.not_fences a ha]
  unfold recordEncodingDurationTx
  simp only [Tx.bind_run get, Tx.get_run, hnone, Bool.false_eq_true, if_false]
  exact updateAttempts_lost_last h.not_fences

theorem renewLeaseTx_lost (h : claimed.Lost db now) :
    renewLeaseTx claimed none now db = .error .claimLost := by
  unfold renewLeaseTx
  simp only [Tx.bind_run, Tx.get_run, Option.map_none, Option.getD_none]
  cases renewalJoin claimed now db with
  | none => rfl
  | some w => exact updateAttempts_lost h.not_fences

theorem lockActiveClaim_lost (h : claimed.Lost db now) :
    lockActiveClaim claimed now db = .error .claimLost := by
  unfold lockActiveClaim
  simp only [Tx.bind_run, Tx.get_run, h.not_any]
  rfl

theorem cancellationRequested_lost (h : claimed.Lost db now) :
    cancellationRequested claimed now db = .error .claimLost := by
  unfold cancellationRequested
  simp [h.not_any]

end Fenced

end TaskHarbor
