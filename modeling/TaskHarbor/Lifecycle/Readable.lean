import TaskHarbor.Lifecycle.Permanence

/-! Every row of a job reads back: its own row decodes, and so do its attempts and artifacts. -/
namespace TaskHarbor

open Transaction

structure JobView.Readable (v : JobView) : Prop where
  job : ∀ r, v.job = some r → r.Sound
  attempts : ∀ a ∈ v.attempts, a.Sound
  inputs : ∀ x ∈ v.inputs, holdsAll x.checks = true
  outputs : ∀ x ∈ v.outputs, holdsAll x.checks = true

/-! ### Updates keep rows sound -/

/-- The checks of a job row read one column that changes later: the progress. -/
theorem JobRow.Sound.of_progress {r r' : JobRow} {n : ℕ} (h : r.Sound) (hn : n ≤ r.progressTotal)
    (htemplate : r'.template = r.template) (hprogress : r'.progressCompleted = n) : r'.Sound := by
  have hchecks : r'.checks = { r with progressCompleted := n }.checks := by
    have hsame : { r'.template with progressCompleted := r'.progressCompleted }.checks =
        { r.template with progressCompleted := n }.checks := by rw [htemplate, hprogress]
    exact hsame
  have hname : r'.name = r.name := (congrArg JobRow.name htemplate :)
  have hid : r'.id = r.id := (congrArg JobRow.id htemplate :)
  have hschedule : r'.scheduleId = r.scheduleId := (congrArg JobRow.scheduleId htemplate :)
  have hparent : r'.retryOfJobId = r.retryOfJobId := (congrArg JobRow.retryOfJobId htemplate :)
  constructor
  · have hc := h.checks
    rw [hchecks]
    simp only [holdsAll, JobRow.checks, List.all_cons, Bool.and_eq_true, decide_eq_true_eq] at hc ⊢
    exact ⟨hc.1, ⟨hc.2.1.1, hn⟩, hc.2.2⟩
  · rw [hname]
    exact h.name
  · rw [hid]
    exact h.id
  · rw [hschedule]
    exact h.schedule
  · rw [hparent]
    exact h.parent

theorem JobRow.Sound.progress {r : JobRow} (h : r.Sound) :
    0 < r.progressTotal ∧ r.progressCompleted ≤ r.progressTotal := by
  have hc := h.checks
  simp only [holdsAll, JobRow.checks, List.all_cons, Bool.and_eq_true, decide_eq_true_eq] at hc
  exact hc.2.1

theorem JobRow.Sound.same {r r' : JobRow} (h : r.Sound) (htemplate : r'.template = r.template)
    (hprogress : r'.progressCompleted = r.progressCompleted) : r'.Sound :=
  h.of_progress h.progress.2 htemplate hprogress

theorem AttemptRow.Sound.update {a a' : AttemptRow} (h : a.Sound)
    (htemplate : a'.template = a.template)
    (hprogress : a'.progressCompleted ≤ a.progressTotal)
    (hlease : ∃ e, a'.leaseExpiresAt = some e) : a'.Sound := by
  have htotal : a'.progressTotal = a.progressTotal :=
    (congrArg AttemptRow.progressTotal htemplate :)
  have howner : a'.workerId = a.workerId := (congrArg AttemptRow.workerId htemplate :)
  constructor
  · rw [htotal]
    exact ⟨h.progress.1, hprogress⟩
  · rw [howner]
    exact h.owner
  · exact hlease

theorem JobView.Rewrites.readable {v v' : JobView} {r r' : JobRow} {a a' : AttemptRow}
    (h : v.Rewrites v' r r' a a') (hv : v.Readable) (hr : r.Sound → r'.Sound)
    (ha : a.Sound → a'.Sound) (outputs : ∀ x ∈ v'.outputs, holdsAll x.checks = true) :
    v'.Readable where
  job := by
    intro s hs
    obtain rfl : r' = s := Option.some.inj (h.job'.symm.trans hs)
    exact hr (hv.job r h.job)
  attempts := h.forall_attempts hv.attempts (ha (hv.attempts a h.mem))
  inputs := by
    rw [h.inputs]
    exact hv.inputs
  outputs := outputs

theorem Transition.readable {now : ℤ} {v v' : JobView} (h : Transition now v v')
    (hv : v.Readable) : v'.Readable := by
  have hkeep : ∀ {a a' : AttemptRow}, a'.template = a.template →
      a'.progressCompleted = a.progressCompleted → a'.leaseExpiresAt = a.leaseExpiresAt →
      a.Sound → a'.Sound :=
    fun ht hp hl hs => hs.update ht (hp ▸ hs.progress.2) (hl ▸ hs.lease)
  have hdone : ∀ {a : AttemptRow} {t : ℤ} {ms : ℕ}, a.Sound → (a.completed t ms).Sound :=
    fun hs => hs.update rfl le_rfl hs.lease
  cases h with
  | stay h => rwa [h]
  | created r inputs job job' new batch attempts appended outputs =>
    constructor
    · intro s hs
      obtain rfl : r = s := Option.some.inj (job'.symm.trans hs)
      exact new.sound
    · rw [attempts]
      exact hv.attempts
    · rw [appended]
      intro x hx
      rcases List.mem_append.mp hx with hx | hx
      · exact hv.inputs x hx
      · exact batch.checks x hx
    · rw [outputs]
      exact hv.outputs
  | claimed r a t job pending opened job' attempts inputs outputs =>
    constructor
    · intro s hs
      obtain rfl : r.started t = s := Option.some.inj (job'.symm.trans hs)
      exact (hv.job r job).of_progress (Nat.zero_le _) rfl rfl
    · rw [attempts]
      intro b hb
      rcases List.mem_append.mp hb with hb | hb
      · exact hv.attempts b hb
      · rw [List.mem_singleton.mp hb]
        exact opened.sound
    · rw [inputs]
      exact hv.inputs
    · rw [outputs]
      exact hv.outputs
  | renewed r a e running live rewrites outputs =>
    exact rewrites.readable hv id (fun hs => hs.update rfl hs.progress.2 ⟨e, rfl⟩)
      (outputs ▸ hv.outputs)
  | measured r a ms running rewrites outputs =>
    exact rewrites.readable hv id (hkeep rfl rfl rfl) (outputs ▸ hv.outputs)
  | progressed r a n running state between between' rewrites outputs =>
    simp only [betweenProgress, Bool.and_eq_true, decide_eq_true_eq] at between between'
    exact rewrites.readable hv (fun hs => hs.of_progress between'.2 rfl rfl)
      (fun hs => hs.update rfl between.2 hs.lease) (outputs ▸ hv.outputs)
  | cancelFinished r a message t ms running state rewrites outputs =>
    exact rewrites.readable hv (fun hs => hs.same rfl rfl) (hkeep rfl rfl rfl)
      (outputs ▸ hv.outputs)
  | retried r a message t availableAt ms running state room rewrites outputs =>
    exact rewrites.readable hv (fun hs => hs.of_progress (Nat.zero_le _) rfl rfl)
      (hkeep rfl rfl rfl) (outputs ▸ hv.outputs)
  | failed r a kind message t ms running state rewrites outputs =>
    exact rewrites.readable hv (fun hs => hs.same rfl rfl) (hkeep rfl rfl rfl)
      (outputs ▸ hv.outputs)
  | completed r a t ms running state demo rewrites outputs =>
    exact rewrites.readable hv (fun hs => hs.of_progress le_rfl rfl rfl) hdone
      (outputs ▸ hv.outputs)
  | published r a message t ms rows running state image rewrites batch shows count outputs =>
    refine rewrites.readable hv (fun hs => hs.of_progress le_rfl rfl rfl) hdone ?_
    rw [outputs]
    intro x hx
    rcases List.mem_append.mp hx with hx | hx
    · exact hv.outputs x hx
    · exact batch.checks x hx
  | cancelRequested r t cancellable restates =>
    constructor
    · intro s hs
      obtain rfl : r.cancelRequested t = s := Option.some.inj (restates.job'.symm.trans hs)
      exact (hv.job r restates.job).same rfl rfl
    · rw [restates.attempts]
      exact hv.attempts
    · rw [restates.inputs]
      exact hv.inputs
    · rw [restates.outputs]
      exact hv.outputs
  | outputsExpired r t terminal job job' attempts inputs outputs =>
    constructor
    · intro s hs
      rw [job'] at hs
      cases hs
      exact (hv.job r job).same rfl rfl
    · rw [attempts]
      exact hv.attempts
    · rw [inputs]
      exact hv.inputs
    · intro x hx
      rw [outputs] at hx
      cases hx

end TaskHarbor
