import TaskHarbor.System.Claimable
import TaskHarbor.System.Drain
import TaskHarbor.System.Readback

/-! `claim_next` does not look at the concurrency limit of a worker, so one worker can hold any
number of running attempts, and more than an `INTEGER` counts. -/
namespace TaskHarbor

open Relational Transaction Runs

/-- One worker holds `n` running attempts, and no other job exists. -/
structure System.Crowded (n : ℕ) (s : System) : Prop where
  run : Run System.step Op.Dated (.initial 0) s
  now : s.now = 0
  worker : ∃ w ∈ s.db.workers, w.id = 7 ∧ w.stoppedAt = none ∧ 0 < w.heartbeatExpiresAt
  jobs : s.db.jobs.next = n + 1
  attempts : s.db.jobAttempts.next = n + 1
  busy : ∀ r ∈ s.db.jobs, r.state = .running
  tokens : ∀ a ∈ s.db.jobAttempts, ∃ k < n, a.claimToken = some k
  held : activeAttempts s.db 7 = n

/-- The demo job that the next creation inserts. -/
def crowdJob (id : ℕ) : JobRow :=
  { JobRow.defaults id sampleName.asStr 0 with delayMs := demoDelayMs }

section Step

variable {n : ℕ} {s : System}

theorem crowded_initial : ∃ s, System.Crowded 0 s := by
  have hreplay : (exec System.step (.initial 0)
      [.readClock, .registerWorker (sampleWorker 7) 0]).any
        (fun s => decide (s.now = 0 ∧ s.db.jobs.rows = [] ∧ s.db.jobAttempts.rows = [] ∧
          s.db.jobs.next = 1 ∧ s.db.jobAttempts.next = 1) &&
          s.db.workers.rows.any fun w => decide (w.id = 7 ∧ w.stoppedAt = none ∧
            0 < w.heartbeatExpiresAt)) = true := by
    decide +kernel
  obtain ⟨s, hexec, htest⟩ := (Option.any_eq_true _ _).mp hreplay
  obtain ⟨hrows, hworker⟩ := Bool.and_eq_true_iff.mp htest
  obtain ⟨hnow, hjobs, hattempts, hnext, hnext'⟩ := of_decide_eq_true hrows
  obtain ⟨w, hw, hlive⟩ := List.any_eq_true.mp hworker
  refine ⟨s, run_of_exec ?_ hexec, hnow, ⟨w, hw, of_decide_eq_true hlive⟩, hnext, hnext', ?_, ?_,
    ?_⟩
  · intro u op hop
    simp only [List.mem_cons, List.not_mem_nil, or_false] at hop
    rcases hop with rfl | rfl <;> trivial
  · intro r hr
    rw [Table.mem_def, hjobs] at hr
    cases hr
  · intro a ha
    rw [Table.mem_def, hattempts] at ha
    cases ha
  · unfold activeAttempts
    rw [hattempts]
    rfl

theorem crowdJob_checks (id : ℕ) : holdsAll (crowdJob id).checks = true := by
  simp [holdsAll, JobRow.checks, crowdJob, JobRow.defaults, sampleName.btrim, demoDelayMs]

/-- Another demo job is created. -/
theorem System.Crowded.create (h : s.Crowded n) (hn : n < i64Max) :
    ∃ t, s.step (.create sampleName) = some t ∧ t.now = 0 ∧
      t.db = { s.db with jobs := s.db.jobs.insertNew crowdJob } := by
  have hstored : varcharParam 100 sampleName.asStr = .ok sampleName.asStr := by decide +kernel
  have hid : s.db.jobs.next ≤ i64Max := by
    rw [h.jobs]
    omega
  have hinsert : insertJob crowdJob (by intro n; rfl) s.db =
      .ok (s.db.jobs.next, { s.db with jobs := s.db.jobs.insertNew crowdJob }) :=
    insertJob_ok.mpr ⟨rfl, hid, crowdJob_checks _, Or.inl rfl, rfl⟩
  refine ⟨s.apply (.create sampleName), if_pos rfl, h.now, ?_⟩
  change (TaskHarbor.create sampleName s.now s.db).2 = _
  rw [h.now]
  unfold TaskHarbor.create
  rw [Session.commit_bind_ok (Tx.bind_ok.mpr ⟨_, _, lift_ok.mpr ⟨hstored, rfl⟩, hinsert⟩)]
  rfl

/-- What a claim leaves: the pending job runs, and the worker holds one attempt more. -/
theorem System.Crowded.claimed {t u : System} {candidate : JobRow} {worker : WorkerRow}
    {claimed : ClaimedJob} (h : s.Crowded n)
    (ht : t.db = { s.db with jobs := s.db.jobs.insertNew crowdJob })
    (hclaims : Claims t.db 7 0 n [] candidate worker claimed u.db) (hnow : u.now = 0)
    (hrun : Run System.step Op.Dated (.initial 0) u) : u.Crowded (n + 1) := by
  obtain ⟨hget, hpending, -⟩ := claimCandidate_spec hclaims.selected
  have hworker : worker.id = 7 :=
    Table.key_of_get? (Option.filter_eq_some_iff.mp hclaims.active).1
  have hcandidate : candidate = crowdJob s.db.jobs.next := by
    have hmem : candidate ∈ s.db.jobs.insertNew crowdJob := by
      have hstored := Table.mem_of_get? hget
      rwa [ht] at hstored
    rcases Table.mem_insertNew.mp hmem with hold | hnew
    · rw [h.busy candidate hold] at hpending
      cases hpending
    · exact hnew
  have hjobs : u.db.jobs = (s.db.jobs.insertNew crowdJob).put (candidate.started 0) := by
    rw [hclaims.written, ht]
    rfl
  obtain ⟨a, hrows, howner, hstate, htoken⟩ : ∃ a, u.db.jobAttempts.rows =
      s.db.jobAttempts.rows ++ [a] ∧ a.workerId = some 7 ∧ a.state = .running ∧
        a.claimToken = some n := by
    rw [hclaims.written, ht]
    exact ⟨_, rfl, congrArg some hworker, rfl, rfl⟩
  refine ⟨hrun, hnow, ?_, ?_, ?_, ?_, ?_, ?_⟩
  · rw [hclaims.written, ht]
    exact h.worker
  · rw [hjobs]
    exact congrArg (· + 1) h.jobs
  · rw [hclaims.written, ht]
    exact congrArg (· + 1) h.attempts
  · intro r hr
    rw [Table.mem_def, hjobs, Table.put_rows] at hr
    obtain ⟨r₀, hr₀, rfl⟩ := List.mem_map.mp hr
    split
    · rfl
    · rename_i hne
      have hmem : r₀ ∈ s.db.jobs.insertNew crowdJob := hr₀
      rcases Table.mem_insertNew.mp hmem with hold | hnew
      · exact h.busy r₀ hold
      · rw [hnew, ← hcandidate] at hne
        exact absurd rfl hne
  · intro b hb
    rw [Table.mem_def, hrows] at hb
    rcases List.mem_append.mp hb with hold | hnew
    · obtain ⟨k, hk, hfree⟩ := h.tokens b hold
      exact ⟨k, hk.trans (Nat.lt_succ_self n), hfree⟩
    · rw [List.mem_singleton.mp hnew]
      exact ⟨n, Nat.lt_succ_self n, htoken⟩
  · have hheld := h.held
    unfold activeAttempts at hheld ⊢
    rw [hrows, List.filter_append, List.length_append, hheld]
    simp [howner, hstate]

end Step

/-! ### Every reachable state -/

end TaskHarbor
