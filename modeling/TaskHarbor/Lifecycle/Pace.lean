import TaskHarbor.Lifecycle.Manifest

/-! A running attempt has the progress of its job. -/
namespace TaskHarbor

/-- Every running attempt of the job is as far as the job. -/
def JobView.Paced (v : JobView) : Prop :=
  ∀ r, v.job = some r → ∀ a ∈ v.attempts, a.state = .running →
    a.progressCompleted = r.progressCompleted ∧ a.progressTotal = r.progressTotal

section Pace

variable {now : ℤ} {v v' : JobView}

/-- A job whose attempts are all closed is paced. -/
theorem JobView.Paced.of_closed (h : ∀ a ∈ v.attempts, a.state ≠ .running) : v.Paced :=
  fun _ _ a ha hrun => absurd hrun (h a ha)

/-- The running attempt is the last one, so its replacement decides the pace. -/
theorem JobView.Rewrites.paced {r r' : JobRow} {a a' : AttemptRow} (h : v.Rewrites v' r r' a a')
    (hv : v.Lifecycle) (ha : a.state = .running)
    (hpace : a'.state = .running →
      a'.progressCompleted = r'.progressCompleted ∧ a'.progressTotal = r'.progressTotal) :
    v'.Paced := by
  obtain ⟨l₁, l₂, hsplit, hsplit'⟩ := h.attempts
  obtain ⟨-, rfl, hspent⟩ := (hv.course r h.job).admits.split hsplit ha
  intro s hs b hb hrun
  obtain rfl : r' = s := Option.some.inj (h.job'.symm.trans hs)
  rw [hsplit'] at hb
  rcases List.mem_append.mp hb with hb | hb
  · exact absurd hrun (hspent.not_running hb)
  · obtain rfl : b = a' := List.mem_singleton.mp hb
    exact hpace hrun

theorem JobView.Paced.of_same {r r' : JobRow} (hv : v.Paced) (job : v.job = some r)
    (job' : v'.job = some r') (attempts : v'.attempts = v.attempts)
    (completed : r'.progressCompleted = r.progressCompleted)
    (total : r'.progressTotal = r.progressTotal) : v'.Paced := by
  intro s hs a ha hrun
  obtain rfl : r' = s := Option.some.inj (job'.symm.trans hs)
  rw [attempts] at ha
  rw [completed, total]
  exact hv r job a ha hrun

theorem Transition.paced (h : Transition now v v') (hv : v.Lifecycle) (hpaced : v.Paced) :
    v'.Paced := by
  cases h with
  | stay h => rwa [h]
  | created r inputs job job' new batch attempts appended outputs =>
    refine .of_closed fun a ha => ?_
    rw [attempts, (hv.absent job).1] at ha
    cases ha
  | claimed r a t job pending opened job' attempts inputs outputs =>
    intro s hs b hb hrun
    obtain rfl : r.started t = s := Option.some.inj (job'.symm.trans hs)
    rw [attempts] at hb
    rcases List.mem_append.mp hb with hb | hb
    · exact absurd hrun (((hv.course r job).admits.of_isPending pending).not_running hb)
    · obtain rfl : b = a := List.mem_singleton.mp hb
      exact ⟨opened.progressCompleted, opened.progressTotal⟩
  | renewed r a e running live rewrites outputs =>
    exact rewrites.paced hv running fun _ => hpaced r rewrites.job a rewrites.mem running
  | measured r a ms running rewrites outputs =>
    exact rewrites.paced hv running fun _ => hpaced r rewrites.job a rewrites.mem running
  | progressed r a n running state between between' rewrites outputs =>
    exact rewrites.paced hv running fun _ =>
      ⟨rfl, (hpaced r rewrites.job a rewrites.mem running).2⟩
  | cancelFinished r a message t ms running state rewrites outputs =>
    exact rewrites.paced hv running fun hrun => by cases hrun
  | retried r a message t availableAt ms running state room rewrites outputs =>
    exact rewrites.paced hv running fun hrun => by cases hrun
  | failed r a kind message t ms running state rewrites outputs =>
    exact rewrites.paced hv running fun hrun => by cases hrun
  | completed r a t ms running state demo rewrites outputs =>
    exact rewrites.paced hv running fun hrun => by cases hrun
  | published r a message t ms rows running state image rewrites batch shows count outputs =>
    exact rewrites.paced hv running fun hrun => by cases hrun
  | cancelRequested r t cancellable restates =>
    exact hpaced.of_same restates.job restates.job' restates.attempts rfl rfl
  | outputsExpired r t terminal job job' attempts inputs outputs =>
    exact hpaced.of_same job job' attempts rfl rfl

end Pace

end TaskHarbor
