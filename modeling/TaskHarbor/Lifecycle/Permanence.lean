import TaskHarbor.Lifecycle.Manifest

/-! What no transition takes back: the fixed columns of a job and of its attempts, a closed
attempt, a lease that is over, a terminal job, a cancel. -/
namespace TaskHarbor

/-! ### Fixed columns -/

/-- A job row with every column that some UPDATE writes blanked out. -/
def JobRow.template (r : JobRow) : JobRow :=
  { r with
    state := .queued
    availableAt := 0
    progressCompleted := 0
    resultMessage := none
    resultDurationMs := none
    startedAt := none
    finishedAt := none
    failureMessage := none
    cancelRequestedAt := none
    outputsExpiredAt := none }

/-- An attempt row with every column that some UPDATE writes blanked out. -/
def AttemptRow.template (a : AttemptRow) : AttemptRow :=
  { a with
    state := .running
    progressCompleted := 0
    finishedAt := none
    durationMs := none
    errorMessage := none
    errorKind := none
    leaseExpiresAt := none
    encodingDurationMs := 0 }

/-- The holder of the attempt can do nothing more with it. -/
def AttemptRow.Dead (a : AttemptRow) (t : ℤ) : Prop := a.state ≠ .running ∨ a.leaseAfter t = false

/-- What may become of an attempt row while the clock shows `now`. -/
structure AttemptRow.Becomes (now : ℤ) (a a' : AttemptRow) : Prop where
  template : a'.template = a.template
  closed : a.state ≠ .running → a' = a
  expired : a.leaseAfter now = false → a'.leaseExpiresAt = a.leaseExpiresAt

theorem AttemptRow.Becomes.refl (now : ℤ) (a : AttemptRow) : a.Becomes now a :=
  ⟨rfl, fun _ => rfl, fun _ => rfl⟩

theorem AttemptRow.leaseAfter_mono {a : AttemptRow} {s t : ℤ} (hst : s ≤ t)
    (h : a.leaseAfter s = false) : a.leaseAfter t = false := by
  unfold AttemptRow.leaseAfter at h ⊢
  cases he : a.leaseExpiresAt with
  | none => rfl
  | some e =>
    rw [he] at h
    simp only [Option.any_some, decide_eq_false_iff_not, not_lt] at h ⊢
    exact h.trans hst

/-- A dead attempt stays dead. -/
theorem AttemptRow.Becomes.dead {now t : ℤ} {a a' : AttemptRow} (h : a.Becomes now a')
    (hdead : a.Dead now) (ht : now ≤ t) : a'.Dead t := by
  by_cases hrun : a.state = .running
  · rcases hdead with hclosed | hover
    · exact absurd hrun hclosed
    · right
      apply AttemptRow.leaseAfter_mono ht
      rwa [AttemptRow.leaseAfter, h.expired hover]
  · rw [h.closed hrun]
    exact Or.inl hrun

theorem AttemptRow.Becomes.of_running {now : ℤ} {a a' : AttemptRow} (hrun : a.state = .running)
    (template : a'.template = a.template)
    (expired : a.leaseAfter now = false → a'.leaseExpiresAt = a.leaseExpiresAt) :
    a.Becomes now a' :=
  ⟨template, fun h => absurd hrun h, expired⟩

/-! ### Transitions -/

/-- What a transition leaves of a view. -/
structure JobView.Keeps (now : ℤ) (v v' : JobView) : Prop where
  job : ∀ r, v.job = some r → ∃ r', v'.job = some r' ∧ r'.template = r.template
  inputs : v.job.isSome = true → v'.inputs = v.inputs
  attempts : ∀ a ∈ v.attempts, ∃ a' ∈ v'.attempts, a.Becomes now a'

theorem JobView.Keeps.of_eq {now : ℤ} {v v' : JobView}
    (job : ∀ r, v.job = some r → ∃ r', v'.job = some r' ∧ r'.template = r.template)
    (inputs : v.job.isSome = true → v'.inputs = v.inputs) (attempts : v'.attempts = v.attempts) :
    v.Keeps now v' where
  job := job
  inputs := inputs
  attempts := fun a ha => ⟨a, attempts ▸ ha, .refl now a⟩

/-- What holds of every attempt row and of the replacement holds afterwards. -/
theorem JobView.Rewrites.forall_attempts {v v' : JobView} {r r' : JobRow} {a a' : AttemptRow}
    (h : v.Rewrites v' r r' a a') {P : AttemptRow → Prop} (hold : ∀ b ∈ v.attempts, P b)
    (hnew : P a') : ∀ b ∈ v'.attempts, P b := by
  obtain ⟨l₁, l₂, hsplit, hsplit'⟩ := h.attempts
  intro b hb
  rw [hsplit'] at hb
  rcases List.mem_append.mp hb with hb | hb
  · exact hold b (by simp [hsplit, hb])
  · rcases List.mem_cons.mp hb with rfl | hb
    · exact hnew
    · exact hold b (by simp [hsplit, hb])

theorem JobView.Rewrites.keeps {now : ℤ} {v v' : JobView} {r r' : JobRow} {a a' : AttemptRow}
    (h : v.Rewrites v' r r' a a') (hr : r'.template = r.template) (ha : a.Becomes now a') :
    v.Keeps now v' where
  job := by
    intro s hs
    obtain rfl : r = s := Option.some.inj (h.job.symm.trans hs)
    exact ⟨r', h.job', hr⟩
  inputs := fun _ => h.inputs
  attempts := by
    obtain ⟨l₁, l₂, hsplit, hsplit'⟩ := h.attempts
    intro b hb
    rw [hsplit] at hb
    rcases List.mem_append.mp hb with hb | hb
    · exact ⟨b, by simp [hsplit', hb], .refl now b⟩
    · rcases List.mem_cons.mp hb with rfl | hb
      · exact ⟨a', by simp [hsplit'], ha⟩
      · exact ⟨b, by simp [hsplit', hb], .refl now b⟩

theorem Transition.keeps {now : ℤ} {v v' : JobView} (h : Transition now v v') :
    v.Keeps now v' := by
  cases h with
  | stay h =>
    rw [h]
    exact .of_eq (fun r hr => ⟨r, hr, rfl⟩) (fun _ => rfl) rfl
  | created r inputs job job' new batch attempts appended outputs =>
    refine .of_eq ?_ ?_ attempts
    · intro s hs
      rw [job] at hs
      cases hs
    · intro hs
      rw [job] at hs
      cases hs
  | claimed r a t job pending opened job' attempts inputs outputs =>
    constructor
    · intro s hs
      obtain rfl : r = s := Option.some.inj (job.symm.trans hs)
      exact ⟨_, job', rfl⟩
    · exact fun _ => inputs
    · intro b hb
      exact ⟨b, by simp [attempts, hb], .refl now b⟩
  | renewed r a e running live rewrites outputs =>
    refine rewrites.keeps rfl (.of_running running rfl fun hover => ?_)
    rw [hover] at live
    cases live
  | measured r a ms running rewrites outputs =>
    exact rewrites.keeps rfl (.of_running running rfl fun _ => rfl)
  | progressed r a n running state between between' rewrites outputs =>
    exact rewrites.keeps rfl (.of_running running rfl fun _ => rfl)
  | cancelFinished r a message t ms running state rewrites outputs =>
    exact rewrites.keeps rfl (.of_running running rfl fun _ => rfl)
  | retried r a message t availableAt ms running state room rewrites outputs =>
    exact rewrites.keeps rfl (.of_running running rfl fun _ => rfl)
  | failed r a kind message t ms running state rewrites outputs =>
    exact rewrites.keeps rfl (.of_running running rfl fun _ => rfl)
  | completed r a t ms running state demo rewrites outputs =>
    exact rewrites.keeps rfl (.of_running running rfl fun _ => rfl)
  | published r a message t ms rows running state image rewrites batch shows count outputs =>
    exact rewrites.keeps rfl (.of_running running rfl fun _ => rfl)
  | cancelRequested r t cancellable restates =>
    refine .of_eq ?_ (fun _ => restates.inputs) restates.attempts
    intro s hs
    obtain rfl : r = s := Option.some.inj (restates.job.symm.trans hs)
    exact ⟨_, restates.job', rfl⟩
  | outputsExpired r t terminal job job' attempts inputs outputs =>
    refine .of_eq ?_ (fun _ => inputs) attempts
    intro s hs
    obtain rfl : r = s := Option.some.inj (job.symm.trans hs)
    exact ⟨_, job', rfl⟩

/-! ### Terminal jobs and cancels -/

theorem JobRow.cancelRequested_of_cancelled {r : JobRow} {t : ℤ}
    (hs : r.state = .cancelRequested ∨ r.state = .cancelled)
    (hasked : r.cancelRequestedAt.isSome = true) : r.cancelRequested t = r := by
  obtain ⟨c, hc⟩ := Option.isSome_iff_exists.mp hasked
  have hat : some (r.cancelRequestedAt.getD t) = r.cancelRequestedAt := by simp [hc]
  unfold JobRow.cancelRequested
  rcases hs with hs | hs
  · simp [hs, hat, JobStatus.isPending]
    rw [← hs]
  · simp [hs, hat, JobStatus.isPending]
    rw [← hs]

/-- A terminal job keeps its row, up to the mark of expired outputs, and its attempts. -/
theorem Transition.terminal {now : ℤ} {v v' : JobView} {r : JobRow} (h : Transition now v v')
    (hv : v.Lifecycle) (hr : v.job = some r) (hterminal : r.state.isTerminal = true) :
    (∃ e, v'.job = some { r with outputsExpiredAt := e }) ∧ v'.attempts = v.attempts := by
  have hactive : ∀ {s r' : JobRow} {a a' : AttemptRow}, v.Rewrites v' s r' a a' →
      a.state = .running → False := by
    intro s r' a a' hrw ha
    obtain rfl : s = r := Option.some.inj (hrw.job.symm.trans hr)
    have hact := JobStatus.not_isTerminal_of_isActive (hrw.isActive hv ha)
    rw [hterminal] at hact
    cases hact
  cases h with
  | stay h =>
    rw [h]
    exact ⟨⟨r.outputsExpiredAt, hr⟩, rfl⟩
  | created s inputs job job' new batch attempts appended outputs =>
    rw [hr] at job
    cases job
  | claimed s a t job pending opened job' attempts inputs outputs =>
    obtain rfl : s = r := Option.some.inj (job.symm.trans hr)
    rw [JobStatus.not_isTerminal_of_isPending pending] at hterminal
    cases hterminal
  | renewed s a e running live rewrites outputs => exact (hactive rewrites running).elim
  | measured s a ms running rewrites outputs => exact (hactive rewrites running).elim
  | progressed s a n running state between between' rewrites outputs =>
    exact (hactive rewrites running).elim
  | cancelFinished s a message t ms running state rewrites outputs =>
    exact (hactive rewrites running).elim
  | retried s a message t availableAt ms running state room rewrites outputs =>
    exact (hactive rewrites running).elim
  | failed s a kind message t ms running state rewrites outputs =>
    exact (hactive rewrites running).elim
  | completed s a t ms running state demo rewrites outputs =>
    exact (hactive rewrites running).elim
  | published s a message t ms rows running state image rewrites batch shows count outputs =>
    exact (hactive rewrites running).elim
  | cancelRequested s t cancellable restates =>
    obtain rfl : s = r := Option.some.inj (restates.job.symm.trans hr)
    have hcancelled : s.state = .cancelled := by
      cases hs : s.state <;> simp_all [JobStatus.isCancellable, JobStatus.isTerminal]
    have hasked := (hv.course s hr).asked (Or.inr hcancelled)
    have hsame := JobRow.cancelRequested_of_cancelled (t := t) (Or.inr hcancelled) hasked
    exact ⟨⟨s.outputsExpiredAt, by rw [restates.job', hsame]⟩, restates.attempts⟩
  | outputsExpired s t terminal job job' attempts inputs outputs =>
    obtain rfl : s = r := Option.some.inj (job.symm.trans hr)
    exact ⟨⟨_, job'⟩, attempts⟩

/-- Asked to stop, or stopped. -/
def JobStatus.isCancelling : JobStatus → Bool
  | .cancelRequested | .cancelled => true
  | _ => false

/-- A cancelled job stays cancelled; one that was asked to stop can only become cancelled. -/
theorem Transition.cancelling {now : ℤ} {v v' : JobView} {r : JobRow} (h : Transition now v v')
    (hr : v.job = some r) (hc : r.state.isCancelling = true) :
    ∃ r', v'.job = some r' ∧ r'.state.isCancelling = true := by
  cases h with
  | stay h => exact ⟨r, by rw [h, hr], hc⟩
  | created s inputs job job' new batch attempts appended outputs =>
    rw [hr] at job
    cases job
  | claimed s a t job pending opened job' attempts inputs outputs =>
    obtain rfl : s = r := Option.some.inj (job.symm.trans hr)
    cases hs : s.state <;> simp_all [JobStatus.isCancelling, JobStatus.isPending]
  | renewed s a e running live rewrites outputs =>
    obtain rfl : s = r := Option.some.inj (rewrites.job.symm.trans hr)
    exact ⟨_, rewrites.job', hc⟩
  | measured s a ms running rewrites outputs =>
    obtain rfl : s = r := Option.some.inj (rewrites.job.symm.trans hr)
    exact ⟨_, rewrites.job', hc⟩
  | progressed s a n running state between between' rewrites outputs =>
    obtain rfl : s = r := Option.some.inj (rewrites.job.symm.trans hr)
    exact ⟨_, rewrites.job', hc⟩
  | cancelFinished s a message t ms running state rewrites outputs =>
    exact ⟨_, rewrites.job', rfl⟩
  | retried s a message t availableAt ms running state room rewrites outputs =>
    obtain rfl : s = r := Option.some.inj (rewrites.job.symm.trans hr)
    rw [state] at hc
    cases hc
  | failed s a kind message t ms running state rewrites outputs =>
    obtain rfl : s = r := Option.some.inj (rewrites.job.symm.trans hr)
    rw [state] at hc
    cases hc
  | completed s a t ms running state demo rewrites outputs =>
    obtain rfl : s = r := Option.some.inj (rewrites.job.symm.trans hr)
    rw [state] at hc
    cases hc
  | published s a message t ms rows running state image rewrites batch shows count outputs =>
    obtain rfl : s = r := Option.some.inj (rewrites.job.symm.trans hr)
    rw [state] at hc
    cases hc
  | cancelRequested s t cancellable restates =>
    obtain rfl : s = r := Option.some.inj (restates.job.symm.trans hr)
    refine ⟨_, restates.job', ?_⟩
    unfold JobRow.cancelRequested
    cases hs : s.state <;> simp_all [JobStatus.isCancelling]
  | outputsExpired s t terminal job job' attempts inputs outputs =>
    obtain rfl : s = r := Option.some.inj (job.symm.trans hr)
    exact ⟨_, job', hc⟩

end TaskHarbor
