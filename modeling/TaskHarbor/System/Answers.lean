import TaskHarbor.System.Manifest
import TaskHarbor.System.Tenure

/-! What a claim holder is answered. In a reachable state its claim is lost, or its attempt and its
job are both active; which of the three answers a guarded call gives depends on nothing else. -/
namespace TaskHarbor

open Relational Transaction Runs

/-! ### Held claims -/

/-- The claim was returned on the way to this state. -/
structure ClaimedJob.HeldIn (claimed : ClaimedJob) (s : System) : Prop where
  reachable : s.Reachable
  mem : claimed ∈ s.claims

/-- The claim is live, and its rows agree with each other and with its work. -/
structure ClaimedJob.Working (claimed : ClaimedJob) (s : System) (a : AttemptRow) (r : JobRow) :
    Prop where
  live : claimed.Live s.now s.db a r
  active : r.state = .running ∨ r.state = .cancelRequested
  paced : a.progressCompleted = r.progressCompleted ∧ a.progressTotal = r.progressTotal
  bounded : r.progressTotal ≤ maxFilesPerJob
  work : claimedWork r s.db = .ok claimed.work

section Held

variable {claimed : ClaimedJob} {s t : System} {ok : System → Op → Prop}

theorem ClaimedJob.HeldIn.run (h : claimed.HeldIn s) (hrun : Run System.step ok s t) :
    claimed.HeldIn t := ⟨h.reachable.run hrun, System.run_claims hrun h.mem⟩

theorem ClaimedJob.HeldIn.issued (h : claimed.HeldIn s) : claimed.Issued s.db :=
  h.reachable.inv.issued claimed h.mem

/-- The rows behind the claim are there, so only the state and the lease of the attempt matter. -/
theorem ClaimedJob.Issued.live_or_lost {db : Db} {now : ℤ} (h : claimed.Issued db) :
    claimed.Lost db now ∨ ∃ a r, claimed.Live now db a r := by
  obtain ⟨a, ha, hjob, -, howner, htoken⟩ := h.attempt
  obtain ⟨r, hr, -⟩ := h.job
  by_cases hlive : a.state = .running ∧ a.leaseAfter now = true
  · refine Or.inr ⟨a, r, ha, ?_, hr⟩
    exact ClaimedJob.fences_iff.mpr
      ⟨Table.key_of_get? ha, hjob, hlive.1, howner, htoken, hlive.2⟩
  · left
    intro b hb
    obtain rfl : a = b := Option.some.inj (ha.symm.trans hb)
    by_cases hrunning : a.state = .running
    · right
      simpa [hrunning] using hlive
    · exact Or.inl hrunning

theorem JobStatus.active_cases {state : JobStatus} (h : state.isActive = true) :
    state = .running ∨ state = .cancelRequested := by
  cases state <;> simp_all [JobStatus.isActive]

theorem ClaimedJob.HeldIn.working (h : claimed.HeldIn s) {a : AttemptRow} {r : JobRow}
    (hlive : claimed.Live s.now s.db a r) : claimed.Working s a r := by
  have hinv := h.reachable.inv.db
  have hmem : a ∈ s.db.attemptsOf claimed.jobId.get :=
    mem_attemptsOf.mpr ⟨Table.mem_of_get? hlive.attempt, hlive.jobId⟩
  have hjob : (s.db.view claimed.jobId.get).job = some r := hlive.job
  have hactive : r.state.isActive = true :=
    ((hinv.lifecycle claimed.jobId.get).course r hjob).admits.running_iff.mp
      ⟨a, hmem, hlive.running⟩
  obtain ⟨r', hr', -, hwork⟩ := h.issued.job
  obtain rfl : r = r' := Option.some.inj (hlive.job.symm.trans hr')
  exact ⟨hlive, JobStatus.active_cases hactive,
    h.reachable.paced claimed.jobId.get r hjob a hmem hlive.running,
    h.reachable.bounded r (Table.mem_of_get? hlive.job), hwork⟩

theorem ClaimedJob.HeldIn.working_or_lost (h : claimed.HeldIn s) :
    claimed.Lost s.db s.now ∨ ∃ a r, claimed.Working s a r :=
  h.issued.live_or_lost.imp_right fun ⟨a, r, hlive⟩ => ⟨a, r, h.working hlive⟩

theorem ClaimedJob.Working.not_lost {a : AttemptRow} {r : JobRow} (h : claimed.Working s a r) :
    ¬claimed.Lost s.db s.now := by
  intro hlost
  have hfenced := hlost.not_fences a (Table.mem_of_get? h.live.attempt)
  rw [h.live.fences] at hfenced
  cases hfenced

/-- A claimed image job has one input for each unit of its progress. -/
theorem ClaimedJob.Issued.total {db : Db} (h : claimed.Issued db) {w q : ℕ}
    {inputs : List ArtifactRecord} (hwork : claimed.work = .imageResize w q inputs) :
    ∃ r, db.jobs.get? claimed.jobId.get = some r ∧ inputs.length = r.progressTotal := by
  obtain ⟨r, hr, -, hclaimed⟩ := h.job
  refine ⟨r, hr, ?_⟩
  rw [hwork, claimedWork] at hclaimed
  cases htype : r.jobType with
  | demoDelay =>
    rw [htype] at hclaimed
    cases hclaimed
  | imageResize =>
    simp only [htype, except_bind_ok] at hclaimed
    obtain ⟨⟨w', q'⟩, -, loaded, -, hrest⟩ := hclaimed
    split at hrest
    · cases hrest
    · rename_i hcount
      cases hrest
      exact not_not.mp hcount

theorem ClaimedJob.Working.demo {a : AttemptRow} {r : JobRow} (h : claimed.Working s a r)
    {delay : ℕ} (hwork : claimed.work = .demoDelay delay) : r.jobType = .demoDelay := by
  have hclaimed := h.work
  cases htype : r.jobType with
  | demoDelay => rfl
  | imageResize =>
    rw [hwork, claimedWork] at hclaimed
    simp only [htype, except_bind_ok] at hclaimed
    obtain ⟨⟨w', q'⟩, -, loaded, -, hrest⟩ := hclaimed
    split at hrest
    · cases hrest
    · cases hrest

end Held

/-! ### Guarded calls -/

/-- The attempt of the claim is closed in this state. -/
def ClaimedJob.ClosedAs (claimed : ClaimedJob) (state : AttemptStatus) (db : Db) : Prop :=
  ∃ a, db.jobAttempts.get? claimed.attemptId = some a ∧ a.state = state

theorem ClaimedJob.ClosedAs.lost {claimed : ClaimedJob} {state : AttemptStatus} {db : Db}
    (h : claimed.ClosedAs state db) (hstate : state ≠ .running) (now : ℤ) :
    claimed.Lost db now := by
  obtain ⟨a, ha, rfl⟩ := h
  intro b hb
  obtain rfl : a = b := Option.some.inj (ha.symm.trans hb)
  exact Or.inl hstate

/-- How a call ends that needs the job of a claim in the state `wanted`. -/
inductive Guarded (claimed : ClaimedJob) (s : System) (wanted : JobStatus) (done : Db → Prop)
    {α : Type} : Except RepositoryError α × Db → Prop
  | lost (claim : claimed.Lost s.db s.now) :
      Guarded claimed s wanted done (.error .claimLost, s.db)
  | conflict (a : AttemptRow) (r : JobRow) (operation : String) (working : claimed.Working s a r)
      (state : r.state ≠ wanted) :
      Guarded claimed s wanted done (.error (.stateConflict operation), s.db)
  | committed (a : AttemptRow) (r : JobRow) (v : α) (db' : Db) (working : claimed.Working s a r)
      (state : r.state = wanted) (made : done db') : Guarded claimed s wanted done (.ok v, db')

section Guarded

variable {claimed : ClaimedJob} {s : System} {wanted : JobStatus} {done : Db → Prop} {α : Type}

theorem guarded_commit {x : Tx α} (h : claimed.HeldIn s)
    (hlost : claimed.Lost s.db s.now → x s.db = .error .claimLost)
    (hconflict : ∀ a r, claimed.Working s a r → r.state ≠ wanted →
      ∃ operation, x s.db = .error (.stateConflict operation))
    (hdone : ∀ a r, claimed.Working s a r → r.state = wanted →
      ∃ v db', x s.db = .ok (v, db') ∧ done db') :
    Guarded claimed s wanted done (commit x s.db) := by
  rcases h.working_or_lost with hl | ⟨a, r, hworking⟩
  · rw [commit_error (hlost hl)]
    exact .lost hl
  · by_cases hstate : r.state = wanted
    · obtain ⟨v, db', hx, hdb'⟩ := hdone a r hworking hstate
      rw [commit_ok hx]
      exact .committed a r v db' hworking hstate hdb'
    · obtain ⟨operation, hx⟩ := hconflict a r hworking hstate
      rw [commit_error hx]
      exact .conflict a r operation hworking hstate

section Fenced

variable {now : ℤ} {db : Db} {a : AttemptRow} {r : JobRow} {p : AttemptRow → Bool}
  {f : AttemptRow → AttemptRow} {q : JobRow → Bool} {g : JobRow → JobRow} {operation : String}

/-- The fenced UPDATE goes through, and the guarded one finds its job in another state. -/
theorem fenced_conflict {hf} {hg} {k : Unit → Tx α} (hlive : claimed.Live now db a r)
    (hp : ∀ b, p b = true → b.id = claimed.attemptId) (hpa : p a = true)
    (hq : ∀ b, q b = true → b.id = claimed.jobId.get) (hqr : q r = false) :
    (do let attempt ← updateAttempts p f hf
        ensureClaimRow attempt
        let job ← updateJobs q g hg
        let u ← ensureOneRow job operation
        k u : Tx α) db = .error (.stateConflict operation) := by
  have hattempt : updateAttempts p f hf db = .ok (1, db.setAttempt (f a)) :=
    (updateAttempts_one hp).mpr ⟨a, hlive.attempt, hpa, rfl⟩
  have hcount : db.jobs.count q = 0 := by
    refine Table.count_eq_zero.mpr fun r' hr' => ?_
    by_contra hsel
    rw [Bool.not_eq_false] at hsel
    obtain rfl : r = r' := Table.key_inj (Table.mem_of_get? hlive.job) hr'
      ((Table.key_of_get? hlive.job).trans (hq r' hsel).symm)
    rw [hqr] at hsel
    cases hsel
  rw [Tx.bind_run, hattempt]
  show (do let u ← liftM (ensureOneRow (db.jobs.count q) operation)
           k u : Tx α) _ = _
  rw [hcount]
  rfl

theorem fenced_conflict_last {hf} {hg} (hlive : claimed.Live now db a r)
    (hp : ∀ b, p b = true → b.id = claimed.attemptId) (hpa : p a = true)
    (hq : ∀ b, q b = true → b.id = claimed.jobId.get) (hqr : q r = false) :
    (do let attempt ← updateAttempts p f hf
        ensureClaimRow attempt
        let job ← updateJobs q g hg
        ensureOneRow job operation : Tx Unit) db = .error (.stateConflict operation) := by
  have h :=
    @fenced_conflict claimed Unit now db a r p f q g operation hf hg pure hlive hp hpa hq hqr
  simp only [bind_pure] at h
  exact h

theorem isAt_false {state : JobStatus} {id : ℕ} (h : r.state ≠ state) :
    r.isAt id state = false := by
  simp [JobRow.isAt, h]

end Fenced

theorem closedAs_setAttempt {db : Db} {a : AttemptRow} {r r' : JobRow} {now : ℤ} {a' : AttemptRow}
    (hlive : claimed.Live now db a r) (hid : a'.id = a.id) :
    claimed.ClosedAs a'.state ((db.setAttempt a').setJob r') := by
  have hkey : a.id = claimed.attemptId := Table.key_of_get? hlive.attempt
  refine ⟨a', ?_, rfl⟩
  rw [setJob_jobAttempts, ← hkey]
  exact Table.get?_put_self (hkey ▸ hlive.attempt) hid

theorem finishCancelled_guarded (h : claimed.HeldIn s) {duration : ℕ} (hd : duration ≤ i64Max) :
    Guarded claimed s .cancelRequested (claimed.ClosedAs .cancelled)
      (finishCancelled claimed duration s.now s.db) := by
  have henc : encodeDuration duration = .ok duration := encodeDuration_ok.mpr ⟨hd, rfl⟩
  rw [finishCancelled, Session.bind_run, Session.liftExcept_run, henc]
  refine guarded_commit h finishCancelledTx_lost (fun a r hworking hstate => ?_)
    fun a r hworking hstate => ?_
  · exact ⟨_, fenced_conflict_last hworking.live fences_pin hworking.live.fences isAt_pin
      (isAt_false hstate)⟩
  · exact ⟨(), _, finishCancelledTx_ok.mpr ⟨a, r, hworking.live, hstate, rfl⟩,
      closedAs_setAttempt hworking.live rfl⟩

theorem complete_guarded (h : claimed.HeldIn s) {delay duration : ℕ}
    (hwork : claimed.work = .demoDelay delay) (hd : duration ≤ i64Max) :
    Guarded claimed s .running (claimed.ClosedAs .succeeded)
      (complete claimed duration s.now s.db) := by
  unfold complete
  rw [hwork]
  simp only [if_neg (not_lt.mpr hd)]
  refine guarded_commit h completeTx_lost (fun a r hworking hstate => ?_)
    fun a r hworking hstate => ?_
  · refine ⟨_, fenced_conflict_last hworking.live fences_pin hworking.live.fences ?_ ?_⟩
    · intro b hb
      rw [Bool.and_eq_true] at hb
      exact isAt_pin b hb.1
    · rw [isAt_false hstate, Bool.false_and]
  · exact ⟨(), _, completeTx_ok.mpr ⟨a, r, hworking.live, hstate, hworking.demo hwork, rfl⟩,
      closedAs_setAttempt hworking.live rfl⟩

theorem recordFailure_guarded (h : claimed.HeldIn s) {duration : ℕ} {kind : FailureKind}
    {message : String} (hd : duration ≤ i64Max) :
    Guarded claimed s .running (claimed.ClosedAs .failed)
      (recordFailure claimed duration kind message s.now s.db) := by
  have henc : encodeDuration duration = .ok duration := encodeDuration_ok.mpr ⟨hd, rfl⟩
  rw [recordFailure, Session.bind_run, Session.liftExcept_run, henc]
  refine guarded_commit h recordFailureTx_lost (fun a r hworking hstate => ?_)
    fun a r hworking hstate => ?_
  · unfold recordFailureTx
    by_cases hretry : kind = .transient ∧ claimed.attemptNumber < claimed.maxAttempts
    · simp only [if_pos hretry]
      exact ⟨_, fenced_conflict hworking.live fences_pin hworking.live.fences isAt_pin
        (isAt_false hstate)⟩
    · simp only [if_neg hretry]
      exact ⟨_, fenced_conflict hworking.live fences_pin hworking.live.fences isAt_pin
        (isAt_false hstate)⟩
  · by_cases hretry : retries claimed kind
    · exact ⟨_, _, recordFailureTx_ok.mpr ⟨a, r, hworking.live, hstate, Or.inl ⟨hretry, rfl, rfl⟩⟩,
        closedAs_setAttempt hworking.live rfl⟩
    · exact ⟨_, _, recordFailureTx_ok.mpr ⟨a, r, hworking.live, hstate, Or.inr ⟨hretry, rfl, rfl⟩⟩,
        closedAs_setAttempt hworking.live rfl⟩

/-- The attempt of the claim runs, `n` units of its work are done. -/
def ClaimedJob.RunsAt (claimed : ClaimedJob) (n : ℕ) (db : Db) : Prop :=
  ∃ a, db.jobAttempts.get? claimed.attemptId = some a ∧ a.state = .running ∧
    a.progressCompleted = n

theorem updateProgress_guarded (h : claimed.HeldIn s) {n : ℕ}
    (hn : ∀ a r, claimed.Working s a r → a.progressCompleted ≤ n ∧ n ≤ r.progressTotal) :
    n ≤ i32Max → Guarded claimed s .running (claimed.RunsAt n)
      (updateProgress claimed n s.now s.db) := by
  intro hsmall
  unfold updateProgress
  rw [if_neg (not_lt.mpr hsmall)]
  have hbetween : ∀ a r, claimed.Working s a r →
      betweenProgress n a.progressCompleted a.progressTotal = true ∧
        betweenProgress n r.progressCompleted r.progressTotal = true := by
    intro a r hworking
    obtain ⟨hcompleted, htotal⟩ := hworking.paced
    have hbounds := hn a r hworking
    simp only [betweenProgress, Bool.and_eq_true, decide_eq_true_eq]
    omega
  refine guarded_commit h updateProgressTx_lost (fun a r hworking hstate => ?_)
    fun a r hworking hstate => ?_
  · refine ⟨_, fenced_conflict_last hworking.live ?_ ?_ ?_ ?_⟩
    · intro b hb
      rw [Bool.and_eq_true] at hb
      exact fences_pin b hb.1
    · rw [Bool.and_eq_true]
      exact ⟨hworking.live.fences, (hbetween a r hworking).1⟩
    · intro b hb
      rw [Bool.and_eq_true] at hb
      exact isAt_pin b hb.1
    · rw [isAt_false hstate, Bool.false_and]
  · obtain ⟨ha, hr⟩ := hbetween a r hworking
    refine ⟨(), _, updateProgressTx_ok.mpr ⟨a, r, hworking.live, hstate, ha, hr, rfl⟩, ?_⟩
    have hkey : a.id = claimed.attemptId := Table.key_of_get? hworking.live.attempt
    refine ⟨{ a with progressCompleted := n }, ?_, hworking.live.running, rfl⟩
    rw [setJob_jobAttempts, ← hkey]
    exact Table.get?_put_self (hkey ▸ hworking.live.attempt) rfl

end Guarded

/-! ### Calls without a guard on the job -/

section Unguarded

variable {claimed : ClaimedJob} {s : System}

theorem cancellationRequested_answers (h : claimed.HeldIn s) :
    (claimed.Lost s.db s.now ∧ cancellationRequested claimed s.now s.db = .error .claimLost) ∨
      ∃ a r, claimed.Working s a r ∧
        cancellationRequested claimed s.now s.db = .ok (r.state == .cancelRequested) := by
  rcases h.working_or_lost with hlost | ⟨a, r, hworking⟩
  · exact Or.inl ⟨hlost, cancellationRequested_lost hlost⟩
  · refine Or.inr ⟨a, r, hworking, ?_⟩
    have hany := any_fences hworking.live.attempt hworking.live.fences
    unfold cancellationRequested
    rcases hworking.active with hstate | hstate
    · simp [hany, hworking.live.job, hstate]
    · simp [hany, hworking.live.job, hstate]

theorem recordEncodingDuration_answers (h : claimed.HeldIn s) {duration : ℕ}
    (hd : duration ≤ i64Max) :
    (claimed.Lost s.db s.now ∧
      recordEncodingDuration claimed duration s.now s.db = (.error .claimLost, s.db)) ∨
    ∃ a r, claimed.Working s a r ∧
      ((∃ message, recordEncodingDuration claimed duration s.now s.db =
          (.error (.database message), s.db)) ∨
        ∃ db', recordEncodingDuration claimed duration s.now s.db = (.ok (), db') ∧
          claimed.RunsAt a.progressCompleted db') := by
  rcases h.working_or_lost with hlost | ⟨a, r, hworking⟩
  · exact Or.inl ⟨hlost, recordEncodingDuration_lost hlost hd⟩
  refine Or.inr ⟨a, r, hworking, ?_⟩
  unfold recordEncodingDuration
  rw [if_neg (not_lt.mpr hd)]
  cases htx : recordEncodingDurationTx claimed duration s.now s.db with
  | error e =>
    left
    have hfull : ∃ message, e = .database message := by
      unfold recordEncodingDurationTx at htx
      rw [Tx.bind_run, Tx.get_run] at htx
      simp only at htx
      split at htx
      · cases htx
        exact ⟨_, rfl⟩
      · have hattempt : updateAttempts (claimed.fences s.now)
            (fun a => { a with encodingDurationMs := a.encodingDurationMs + duration })
            (by intro r; rfl) s.db = .ok (1, _) :=
          (updateAttempts_one fences_pin).mpr
            ⟨a, hworking.live.attempt, hworking.live.fences, rfl⟩
        rw [Tx.bind_run, hattempt] at htx
        cases htx
    obtain ⟨message, rfl⟩ := hfull
    exact ⟨message, commit_error htx⟩
  | ok result =>
    obtain ⟨⟨⟩, db'⟩ := result
    right
    obtain ⟨b, hb, -, rfl⟩ := recordEncodingDurationTx_ok htx
    obtain rfl : a = b := Option.some.inj (hworking.live.attempt.symm.trans hb)
    have hkey : a.id = claimed.attemptId := Table.key_of_get? hb
    refine ⟨_, commit_ok htx, { a with encodingDurationMs := a.encodingDurationMs + duration }, ?_,
      hworking.live.running, rfl⟩
    rw [← hkey]
    exact Table.get?_put_self (hkey ▸ hb) rfl

end Unguarded

end TaskHarbor
