import TaskHarbor.System.Reachable

/-! In every reachable state each job stands in step with its attempts. -/
namespace TaskHarbor

open Relational Transaction Runs

/-- `a` has the highest attempt number. -/
def AttemptRow.LastOf (a : AttemptRow) (attempts : List AttemptRow) : Prop :=
  a ∈ attempts ∧ ∀ b ∈ attempts, b ≠ a → b.attemptNumber < a.attemptNumber

/-- A job row in step with its attempt rows. -/
structure JobRow.InStep (r : JobRow) (attempts : List AttemptRow) : Prop where
  running : attempts.countP (fun a => a.state == .running) = if r.state.isActive then 1 else 0
  runningLast : ∀ a ∈ attempts, a.state = .running → a.LastOf attempts
  queued : r.state = .queued → attempts = []
  retryWaiting : r.state = .retryWaiting → attempts.length < r.maxAttempts ∧
    ∃ a : AttemptRow, a.LastOf attempts ∧ a.state = .failed ∧ a.errorKind = some .transient
  succeeded : r.state = .succeeded → ∃ a : AttemptRow, a.LastOf attempts ∧ a.state = .succeeded ∧
    ∀ b ∈ attempts, b ≠ a → b.state ≠ .succeeded
  finished : r.finishedAt.isSome = true ↔ r.state.isTerminal = true

theorem JobView.Lifecycle.lastOf {v : JobView} (hv : v.Lifecycle) {earlier : List AttemptRow}
    {a : AttemptRow} (h : v.attempts = earlier ++ [a]) : a.LastOf v.attempts := by
  have hn := hv.numbered
  rw [h, List.map_append, List.length_append, List.length_singleton, List.range'_concat] at hn
  obtain ⟨hearlier, -⟩ := List.append_inj' hn rfl
  refine ⟨by simp [h], fun b hb hne => ?_⟩
  rw [h] at hb
  rcases List.mem_append.mp hb with hb | hb
  · have hnumber : b.attemptNumber ∈ List.range' 1 earlier.length := by
      rw [← hearlier]
      exact List.mem_map_of_mem hb
    rw [List.mem_range'] at hnumber
    have := hv.last_number h
    omega
  · exact absurd (List.mem_singleton.mp hb) hne

theorem Spent.countP_running {attempts : List AttemptRow} (h : Spent attempts) :
    attempts.countP (fun a => a.state == .running) = 0 := by
  rw [List.countP_eq_zero]
  intro a ha
  simp [h.not_running ha]

theorem Ends.countP_running {attempts : List AttemptRow} {s : AttemptStatus}
    (h : Ends attempts s) :
    attempts.countP (fun a => a.state == .running) = if s = .running then 1 else 0 := by
  obtain ⟨earlier, a, rfl, hspent, rfl⟩ := h
  rw [List.countP_append, hspent.countP_running]
  by_cases hrun : a.state = .running <;> simp [hrun]

theorem JobStatus.Admits.countP_running {state : JobStatus} {attempts : List AttemptRow}
    (h : state.Admits attempts) :
    attempts.countP (fun a => a.state == .running) = if state.isActive then 1 else 0 := by
  cases state with
  | queued =>
    rw [show attempts = [] from h]
    rfl
  | running => exact Ends.countP_running h
  | cancelRequested => exact Ends.countP_running h
  | retryWaiting => exact Spent.countP_running h.2
  | succeeded => exact Ends.countP_running h
  | failed => exact Ends.countP_running h
  | cancelled =>
    rcases h with hspent | hends
    · exact hspent.countP_running
    · exact hends.countP_running

/-- The lifecycle invariant keeps a job in step with its attempts. -/
theorem JobView.Lifecycle.inStep {v : JobView} (hv : v.Lifecycle) {r : JobRow}
    (hr : v.job = some r) : r.InStep v.attempts := by
  have hcourse := hv.course r hr
  have hadmits := hcourse.admits
  refine ⟨hadmits.countP_running, ?_, ?_, ?_, ?_, ?_⟩
  · intro a ha hrun
    obtain ⟨l₁, l₂, hsplit⟩ := List.append_of_mem ha
    obtain ⟨-, rfl, -⟩ := hadmits.split hsplit hrun
    exact hv.lastOf hsplit
  · intro hs
    rw [hs] at hadmits
    exact hadmits
  · intro hs
    rw [hs] at hadmits
    refine ⟨hcourse.room hs, ?_⟩
    rcases List.eq_nil_or_concat v.attempts with hnil | ⟨earlier, a, hlast⟩
    · exact absurd hnil hadmits.1
    · rw [List.concat_eq_append] at hlast
      have hmem : a ∈ v.attempts := by simp [hlast]
      exact ⟨a, hv.lastOf hlast, hadmits.2 a hmem⟩
  · intro hs
    rw [hs] at hadmits
    obtain ⟨earlier, a, hlast, hspent, ha⟩ := hadmits
    refine ⟨a, hv.lastOf hlast, ha, fun b hb hne => ?_⟩
    rw [hlast] at hb
    rcases List.mem_append.mp hb with hb | hb
    · rw [(hspent b hb).1]
      decide
    · exact absurd (List.mem_singleton.mp hb) hne
  · rw [hcourse.finished]

/-- Every job of a reachable state is in step with its attempts. -/
theorem reachable_jobs_inStep {s : System} (hs : s.Reachable) :
    ∀ r ∈ s.db.jobs, r.InStep (s.db.attemptsOf r.id) := by
  intro r hr
  exact (hs.inv.db.lifecycle r.id).inStep (Table.get?_key hr)

/-! A job name, a worker and a claim. -/

def sampleName : JobName := ⟨"demo", ⟨'d', by decide +kernel, by decide⟩, by decide +kernel⟩

def sampleWorker (id : Uuid) : WorkerRegistration :=
  ⟨id, "worker", 1, 60 * durationNanos, 60 * durationNanos⟩

def sampleClaimOps : List Op :=
  [.create sampleName, .readClock, .registerWorker (sampleWorker 7) 0, .claimNext 7 5 []]

theorem reachable_of_exec {s : System} {now : ℤ} {ops : List Op}
    (h : exec System.step (System.initial now) ops = some s) : s.Reachable :=
  ⟨now, run_of_exec (fun _ _ _ => trivial) h⟩

theorem reachable_jobs_inStep_claimed : ∃ s : System, s.Reachable ∧
    ∃ r ∈ s.db.jobs, r.state = .running ∧ r.InStep (s.db.attemptsOf r.id) := by
  have hrun : (exec System.step (System.initial 0) sampleClaimOps).any
      (fun s => (s.db.jobs.get? 1).any fun r => r.state == .running) = true := by
    decide +kernel
  obtain ⟨s, hexec, hjob⟩ := (Option.any_eq_true _ _).mp hrun
  obtain ⟨r, hr, hstate⟩ := (Option.any_eq_true _ _).mp hjob
  have hs := reachable_of_exec hexec
  exact ⟨s, hs, r, Table.mem_of_get? hr, by simpa using hstate,
    reachable_jobs_inStep hs r (Table.mem_of_get? hr)⟩

end TaskHarbor
