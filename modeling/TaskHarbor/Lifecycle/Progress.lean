import TaskHarbor.Lifecycle.Pace
import TaskHarbor.Lifecycle.Readable

/-! Where progress ends up: full on success, zero while a retry waits, and never less than before
for any one attempt. -/
namespace TaskHarbor

/-- Successes are full, and a job that waits for a retry starts again from zero. -/
structure JobView.Tallied (v : JobView) : Prop where
  succeeded : ∀ r, v.job = some r → r.state = .succeeded → r.progressCompleted = r.progressTotal
  waiting : ∀ r, v.job = some r → r.state = .retryWaiting → r.progressCompleted = 0
  attempts : ∀ a ∈ v.attempts, a.state = .succeeded → a.progressCompleted = a.progressTotal

/-- What later states show of an attempt. -/
structure AttemptRow.Advances (a a' : AttemptRow) : Prop where
  id : a'.id = a.id
  total : a'.progressTotal = a.progressTotal
  completed : a.progressCompleted ≤ a'.progressCompleted

theorem AttemptRow.Advances.refl (a : AttemptRow) : a.Advances a := ⟨rfl, rfl, le_rfl⟩

theorem AttemptRow.Advances.trans {a b c : AttemptRow} (h : a.Advances b) (h' : b.Advances c) :
    a.Advances c :=
  ⟨h'.id.trans h.id, h'.total.trans h.total, h.completed.trans h'.completed⟩

section Tally

variable {now : ℤ} {v v' : JobView} {r r' : JobRow} {a a' : AttemptRow}

/-- A rewrite of two rows keeps the tally when the new rows do. -/
theorem JobView.Rewrites.tallied (h : v.Rewrites v' r r' a a') (hv : v.Tallied)
    (hsucceeded : r'.state = .succeeded → r'.progressCompleted = r'.progressTotal)
    (hwaiting : r'.state = .retryWaiting → r'.progressCompleted = 0)
    (hattempt : a'.state = .succeeded → a'.progressCompleted = a'.progressTotal) :
    v'.Tallied where
  succeeded := by
    intro s hs
    obtain rfl : r' = s := Option.some.inj (h.job'.symm.trans hs)
    exact hsucceeded
  waiting := by
    intro s hs
    obtain rfl : r' = s := Option.some.inj (h.job'.symm.trans hs)
    exact hwaiting
  attempts := h.forall_attempts hv.attempts hattempt

/-- A new version of the job row alone. -/
theorem JobView.Tallied.of_job (hv : v.Tallied) (job' : v'.job = some r')
    (hsucceeded : r'.state = .succeeded → r'.progressCompleted = r'.progressTotal)
    (hwaiting : r'.state = .retryWaiting → r'.progressCompleted = 0)
    (attempts : ∀ b ∈ v'.attempts, b ∈ v.attempts ∨ b.state = .running) : v'.Tallied where
  succeeded := by
    intro s hs
    obtain rfl : r' = s := Option.some.inj (job'.symm.trans hs)
    exact hsucceeded
  waiting := by
    intro s hs
    obtain rfl : r' = s := Option.some.inj (job'.symm.trans hs)
    exact hwaiting
  attempts := by
    intro b hb hdone
    rcases attempts b hb with hb | hrun
    · exact hv.attempts b hb hdone
    · rw [hrun] at hdone
      cases hdone

theorem Transition.tallied (h : Transition now v v') (hv : v.Tallied) : v'.Tallied := by
  cases h with
  | stay h => rwa [h]
  | created r inputs job job' new batch attempts appended outputs =>
    refine hv.of_job job' ?_ ?_ fun b hb => Or.inl (attempts ▸ hb)
    · intro hs
      rw [new.state] at hs
      cases hs
    · intro hs
      rw [new.state] at hs
      cases hs
  | claimed r a t job pending opened job' attempts inputs outputs =>
    refine hv.of_job job' nofun nofun fun b hb => ?_
    rw [attempts] at hb
    rcases List.mem_append.mp hb with hb | hb
    · exact Or.inl hb
    · rw [List.mem_singleton.mp hb]
      exact Or.inr opened.state
  | renewed r a e running live rewrites outputs =>
    exact rewrites.tallied hv (hv.succeeded r rewrites.job) (hv.waiting r rewrites.job)
      (hv.attempts a rewrites.mem)
  | measured r a ms running rewrites outputs =>
    exact rewrites.tallied hv (hv.succeeded r rewrites.job) (hv.waiting r rewrites.job)
      (hv.attempts a rewrites.mem)
  | progressed r a n running state between between' rewrites outputs =>
    refine rewrites.tallied hv ?_ ?_ ?_ <;> intro hs
    · exact absurd (state.symm.trans hs) (by decide)
    · exact absurd (state.symm.trans hs) (by decide)
    · exact absurd (running.symm.trans hs) (by decide)
  | cancelFinished r a message t ms running state rewrites outputs =>
    exact rewrites.tallied hv nofun nofun nofun
  | retried r a message t availableAt ms running state room rewrites outputs =>
    exact rewrites.tallied hv nofun (fun _ => rfl) nofun
  | failed r a kind message t ms running state rewrites outputs =>
    exact rewrites.tallied hv nofun nofun nofun
  | completed r a t ms running state demo rewrites outputs =>
    exact rewrites.tallied hv (fun _ => rfl) nofun fun _ => rfl
  | published r a message t ms rows running state image rewrites batch shows count outputs =>
    exact rewrites.tallied hv (fun _ => rfl) nofun fun _ => rfl
  | cancelRequested r t cancellable restates =>
    refine hv.of_job restates.job' ?_ ?_ fun b hb => Or.inl (restates.attempts ▸ hb)
    · intro hs
      exact absurd hs (JobRow.cancelRequested_state_ne_succeeded cancellable)
    · intro hs
      unfold JobRow.cancelRequested at hs
      cases hstate : r.state <;> simp_all
  | outputsExpired r t terminal job job' attempts inputs outputs =>
    exact hv.of_job job' (hv.succeeded r job) (hv.waiting r job)
      fun b hb => Or.inl (attempts ▸ hb)

/-- A rewrite whose new attempt row is ahead of the old one. -/
theorem JobView.Rewrites.advances (h : v.Rewrites v' r r' a a') (ha : a.Advances a') :
    ∀ b ∈ v.attempts, ∃ b' ∈ v'.attempts, b.Advances b' := by
  obtain ⟨l₁, l₂, hsplit, hsplit'⟩ := h.attempts
  intro b hb
  rw [hsplit] at hb
  rcases List.mem_append.mp hb with hb | hb
  · exact ⟨b, by simp [hsplit', hb], .refl b⟩
  · rcases List.mem_cons.mp hb with rfl | hb
    · exact ⟨a', by simp [hsplit'], ha⟩
    · exact ⟨b, by simp [hsplit', hb], .refl b⟩

/-- No attempt goes back. -/
theorem Transition.advances (h : Transition now v v') (hv : v.Readable) :
    ∀ a ∈ v.attempts, ∃ a' ∈ v'.attempts, a.Advances a' := by
  have hstay (hsub : ∀ b ∈ v.attempts, b ∈ v'.attempts) :
      ∀ a ∈ v.attempts, ∃ a' ∈ v'.attempts, a.Advances a' :=
    fun b hb => ⟨b, hsub b hb, .refl b⟩
  have hfull {a : AttemptRow} (ha : a ∈ v.attempts) (t : ℤ) (ms : ℕ) :
      a.Advances (a.completed t ms) := ⟨rfl, rfl, (hv.attempts a ha).progress.2⟩
  cases h with
  | stay h => exact hstay fun b hb => h ▸ hb
  | created r inputs job job' new batch attempts appended outputs =>
    exact hstay fun b hb => attempts ▸ hb
  | claimed r a t job pending opened job' attempts inputs outputs =>
    exact hstay fun b hb => by simp [attempts, hb]
  | renewed r a e running live rewrites outputs => exact rewrites.advances ⟨rfl, rfl, le_rfl⟩
  | measured r a ms running rewrites outputs => exact rewrites.advances ⟨rfl, rfl, le_rfl⟩
  | progressed r a n running state between between' rewrites outputs =>
    simp only [betweenProgress, Bool.and_eq_true, decide_eq_true_eq] at between
    exact rewrites.advances ⟨rfl, rfl, between.1⟩
  | cancelFinished r a message t ms running state rewrites outputs =>
    exact rewrites.advances ⟨rfl, rfl, le_rfl⟩
  | retried r a message t availableAt ms running state room rewrites outputs =>
    exact rewrites.advances ⟨rfl, rfl, le_rfl⟩
  | failed r a kind message t ms running state rewrites outputs =>
    exact rewrites.advances ⟨rfl, rfl, le_rfl⟩
  | completed r a t ms running state demo rewrites outputs =>
    exact rewrites.advances (hfull rewrites.mem t ms)
  | published r a message t ms rows running state image rewrites batch shows count outputs =>
    exact rewrites.advances (hfull rewrites.mem t ms)
  | cancelRequested r t cancellable restates => exact hstay fun b hb => restates.attempts ▸ hb
  | outputsExpired r t terminal job job' attempts inputs outputs =>
    exact hstay fun b hb => attempts ▸ hb

end Tally

end TaskHarbor
