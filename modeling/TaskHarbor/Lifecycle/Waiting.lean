import TaskHarbor.Lifecycle.Course

/-! A job that waits for a retry became available by the backoff of its last attempt. -/
namespace TaskHarbor

/-- The last attempt of a waiting job decides when the job is available. -/
def JobView.Waits (v : JobView) : Prop :=
  ∀ r, v.job = some r → r.state = .retryWaiting → ∃ earlier a t, v.attempts = earlier ++ [a] ∧
    a.finishedAt = some t ∧ Backoff a.attemptNumber t r.availableAt

section Waiting

variable {now : ℤ} {v v' : JobView} {r r' : JobRow} {a a' : AttemptRow}

/-- A job that does not wait has nothing to show. -/
theorem JobView.Waits.of_state (job' : v'.job = some r') (hstate : r'.state ≠ .retryWaiting) :
    v'.Waits := by
  intro s hs hwaiting
  obtain rfl : r' = s := Option.some.inj (job'.symm.trans hs)
  exact absurd hwaiting hstate

/-- The end of the running attempt is the last of the attempts. -/
theorem JobView.Rewrites.last (h : v.Rewrites v' r r' a a') (hv : v.Lifecycle)
    (ha : a.state = .running) : ∃ earlier, v'.attempts = earlier ++ [a'] := by
  obtain ⟨l₁, l₂, hsplit, hsplit'⟩ := h.attempts
  obtain ⟨-, rfl, -⟩ := (hv.course r h.job).admits.split hsplit ha
  exact ⟨l₁, hsplit'⟩

/-- A job with a running attempt does not wait. -/
theorem JobView.Rewrites.not_waiting (h : v.Rewrites v' r r' a a') (hv : v.Lifecycle)
    (ha : a.state = .running) : r.state ≠ .retryWaiting := by
  obtain ⟨l₁, l₂, hsplit, -⟩ := h.attempts
  obtain ⟨hactive, -, -⟩ := (hv.course r h.job).admits.split hsplit ha
  intro hstate
  rw [hstate] at hactive
  cases hactive

theorem Transition.waits (h : Transition now v v') (hv : v.Lifecycle) (hwaits : v.Waits) :
    v'.Waits := by
  cases h with
  | stay h => rwa [h]
  | created r inputs job job' new batch attempts appended outputs =>
    refine .of_state job' ?_
    rw [new.state]
    decide
  | claimed r a t job pending opened job' attempts inputs outputs =>
    exact .of_state job' (by decide : JobStatus.running ≠ .retryWaiting)
  | renewed r a e running live rewrites outputs =>
    exact .of_state rewrites.job' (rewrites.not_waiting hv running)
  | measured r a ms running rewrites outputs =>
    exact .of_state rewrites.job' (rewrites.not_waiting hv running)
  | progressed r a n running state between between' rewrites outputs =>
    exact .of_state rewrites.job' (rewrites.not_waiting hv running)
  | cancelFinished r a message t ms running state rewrites outputs =>
    exact .of_state rewrites.job' (by decide : JobStatus.cancelled ≠ .retryWaiting)
  | retried r a message t availableAt ms running state room rewrites outputs backoff =>
    intro s hs hwaiting
    obtain rfl := Option.some.inj (rewrites.job'.symm.trans hs)
    obtain ⟨earlier, hlast⟩ := rewrites.last hv running
    exact ⟨earlier, _, t, hlast, rfl, backoff⟩
  | failed r a kind message t ms running state rewrites outputs =>
    exact .of_state rewrites.job' (by decide : JobStatus.failed ≠ .retryWaiting)
  | completed r a t ms running state demo rewrites outputs =>
    exact .of_state rewrites.job' (by decide : JobStatus.succeeded ≠ .retryWaiting)
  | published r a message t ms rows running state image rewrites batch shows count outputs =>
    exact .of_state rewrites.job' (by decide : JobStatus.succeeded ≠ .retryWaiting)
  | cancelRequested r t cancellable restates =>
    refine .of_state restates.job' ?_
    unfold JobRow.cancelRequested
    cases hstate : r.state <;> simp_all
  | outputsExpired r t terminal job job' attempts inputs outputs =>
    intro s hs hwaiting
    obtain rfl := Option.some.inj (job'.symm.trans hs)
    have hstate : r.state = .retryWaiting := hwaiting
    rw [hstate] at terminal
    cases terminal

end Waiting

end TaskHarbor
