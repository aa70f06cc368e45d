import TaskHarbor.Lifecycle.Transition

/-! The lifecycle invariant of one job: its attempts are numbered from one, all but the last failed
in a way that allows a retry, and the last one stands in step with the state of the job. -/
namespace TaskHarbor

/-- Attempts after which a job may try again. -/
def Spent (attempts : List AttemptRow) : Prop :=
  ∀ a ∈ attempts, a.state = .failed ∧ a.errorKind = some .transient

/-- The last attempt is in state `s`, the earlier ones are spent. -/
def Ends (attempts : List AttemptRow) (s : AttemptStatus) : Prop :=
  ∃ earlier a, attempts = earlier ++ [a] ∧ Spent earlier ∧ a.state = s

/-- The attempts that a job in a given state may have. -/
def JobStatus.Admits (state : JobStatus) (attempts : List AttemptRow) : Prop :=
  match state with
  | .queued => attempts = []
  | .running | .cancelRequested => Ends attempts .running
  | .retryWaiting => attempts ≠ [] ∧ Spent attempts
  | .succeeded => Ends attempts .succeeded
  | .failed => Ends attempts .failed
  | .cancelled => Spent attempts ∨ Ends attempts .cancelled

structure JobRow.Course (r : JobRow) (attempts : List AttemptRow) : Prop where
  finished : r.finishedAt.isSome = r.state.isTerminal
  asked : r.state = .cancelRequested ∨ r.state = .cancelled → r.cancelRequestedAt.isSome = true
  counted : attempts.length ≤ r.maxAttempts
  room : r.state = .retryWaiting → attempts.length < r.maxAttempts
  admits : r.state.Admits attempts

structure JobView.Lifecycle (v : JobView) : Prop where
  absent : v.job = none → v.attempts = [] ∧ v.inputs = [] ∧ v.outputs = []
  numbered : v.attempts.map AttemptRow.attemptNumber = List.range' 1 v.attempts.length
  course : ∀ r, v.job = some r → r.Course v.attempts

/-! ### The running attempt is the last one -/

theorem Spent.not_running {attempts : List AttemptRow} (h : Spent attempts) {a : AttemptRow}
    (ha : a ∈ attempts) : a.state ≠ .running := by
  rw [(h a ha).1]
  decide

theorem Ends.split {attempts l₁ l₂ : List AttemptRow} {s : AttemptStatus} {a : AttemptRow}
    (h : Ends attempts s) (hsplit : attempts = l₁ ++ a :: l₂) (ha : a.state = .running) :
    l₂ = [] ∧ Spent l₁ ∧ s = .running := by
  obtain ⟨earlier, b, hends, hspent, hb⟩ := h
  have heq : l₁ ++ a :: l₂ = earlier ++ [b] := hsplit.symm.trans hends
  rcases List.eq_nil_or_concat l₂ with rfl | ⟨l₃, c, rfl⟩
  · obtain ⟨rfl, hab⟩ := List.append_inj' heq rfl
    cases hab
    exact ⟨rfl, hspent, hb.symm.trans ha⟩
  · rw [List.concat_eq_append, ← List.cons_append, ← List.append_assoc] at heq
    obtain ⟨rfl, _⟩ := List.append_inj' heq rfl
    have hmem : a ∈ l₁ ++ a :: l₃ := by simp
    exact absurd ha (hspent.not_running hmem)

/-- A job with a running attempt is active, and that attempt is its last. -/
theorem JobStatus.Admits.split {state : JobStatus} {attempts l₁ l₂ : List AttemptRow}
    {a : AttemptRow} (h : state.Admits attempts) (hsplit : attempts = l₁ ++ a :: l₂)
    (ha : a.state = .running) : state.isActive = true ∧ l₂ = [] ∧ Spent l₁ := by
  have hmem : a ∈ attempts := by simp [hsplit]
  have hends : ∀ {s}, Ends attempts s → s ≠ .running → False :=
    fun he hs => hs (he.split hsplit ha).2.2
  cases state with
  | queued =>
    rw [show attempts = [] from h] at hmem
    cases hmem
  | running => exact ⟨rfl, (Ends.split h hsplit ha).1, (Ends.split h hsplit ha).2.1⟩
  | cancelRequested => exact ⟨rfl, (Ends.split h hsplit ha).1, (Ends.split h hsplit ha).2.1⟩
  | retryWaiting => exact absurd ha (Spent.not_running h.2 hmem)
  | succeeded => exact (hends h (by decide)).elim
  | failed => exact (hends h (by decide)).elim
  | cancelled =>
    rcases h with hspent | he
    · exact absurd ha (hspent.not_running hmem)
    · exact (hends he (by decide)).elim

theorem JobStatus.Admits.of_isActive {state : JobStatus} {attempts : List AttemptRow}
    (h : state.Admits attempts) (hs : state.isActive = true) : Ends attempts .running := by
  cases state <;> first | exact h | cases hs

theorem JobStatus.Admits.of_isPending {state : JobStatus} {attempts : List AttemptRow}
    (h : state.Admits attempts) (hs : state.isPending = true) : Spent attempts := by
  cases state with
  | queued =>
    rw [show attempts = [] from h]
    intro a ha
    cases ha
  | retryWaiting => exact h.2
  | running => cases hs
  | cancelRequested => cases hs
  | succeeded => cases hs
  | failed => cases hs
  | cancelled => cases hs

/-! ### Numbers -/

theorem foldr_max_range' (n : ℕ) : (List.range' 1 n).foldr max 0 = n := by
  have hbound : ∀ k : ℕ, (List.range' 1 n).foldr max k = max n k := by
    induction n with
    | zero =>
      intro k
      simp
    | succ n ih =>
      intro k
      rw [List.range'_concat, List.foldr_append]
      simp only [List.foldr_cons, List.foldr_nil, one_mul]
      rw [ih]
      omega
  rw [hbound]
  exact Nat.max_zero n

theorem JobView.Lifecycle.maxNumber {v : JobView} (h : v.Lifecycle) :
    maxNumber v.attempts = v.attempts.length := by
  rw [TaskHarbor.maxNumber, h.numbered, foldr_max_range']

/-- The last attempt has as number the count of the attempts. -/
theorem JobView.Lifecycle.last_number {v : JobView} (h : v.Lifecycle) {l : List AttemptRow}
    {a : AttemptRow} (hl : v.attempts = l ++ [a]) : a.attemptNumber = l.length + 1 := by
  have hn := h.numbered
  rw [hl, List.map_append, List.length_append, List.length_singleton, List.range'_concat] at hn
  have := (List.append_inj' hn rfl).2
  simp only [List.map_cons, List.map_nil, List.cons.injEq, and_true] at this
  omega

/-! ### Every transition keeps the lifecycle -/

/-- A rewrite of the running attempt and its job keeps the lifecycle if it keeps the course. -/
theorem JobView.Rewrites.lifecycle {v v' : JobView} {r r' : JobRow} {a a' : AttemptRow}
    (h : v.Rewrites v' r r' a a') (hv : v.Lifecycle) (ha : a.state = .running)
    (hnumber : a'.attemptNumber = a.attemptNumber)
    (hcourse : ∀ earlier, Spent earlier → a.attemptNumber = earlier.length + 1 →
      r.Course (earlier ++ [a]) → r'.Course (earlier ++ [a'])) : v'.Lifecycle := by
  obtain ⟨l₁, l₂, hsplit, hsplit'⟩ := h.attempts
  have hr := hv.course r h.job
  obtain ⟨-, rfl, hspent⟩ := hr.admits.split hsplit ha
  constructor
  · intro hnone
    rw [h.job'] at hnone
    cases hnone
  · have hn := hv.numbered
    rw [hsplit] at hn
    rw [hsplit']
    simpa [hnumber] using hn
  · intro s hs
    obtain rfl : r' = s := Option.some.inj (h.job'.symm.trans hs)
    rw [hsplit']
    exact hcourse l₁ hspent (hv.last_number hsplit) (hsplit ▸ hr)

theorem Spent.ends {earlier : List AttemptRow} {a : AttemptRow} {s : AttemptStatus}
    (h : Spent earlier) (ha : a.state = s) : Ends (earlier ++ [a]) s :=
  ⟨earlier, a, rfl, h, ha⟩

theorem Spent.concat {earlier : List AttemptRow} {a : AttemptRow} (h : Spent earlier)
    (ha : a.state = .failed ∧ a.errorKind = some .transient) : Spent (earlier ++ [a]) := by
  intro b hb
  rcases List.mem_append.mp hb with hb | hb
  · exact h b hb
  · rwa [List.mem_singleton.mp hb]

theorem JobRow.Course.counted_replace {r : JobRow} {earlier : List AttemptRow} {a a' : AttemptRow}
    (h : r.Course (earlier ++ [a])) : (earlier ++ [a']).length ≤ r.maxAttempts := by
  simpa using h.counted

/-- The running attempt goes on. -/
theorem JobRow.Course.goOn {r r' : JobRow} {earlier : List AttemptRow} {a a' : AttemptRow}
    (h : r.Course (earlier ++ [a])) (ha : a.state = .running) (ha' : a'.state = .running)
    (hspent : Spent earlier) (hstate : r'.state = r.state)
    (hfinished : r'.finishedAt = r.finishedAt)
    (hasked : r'.cancelRequestedAt = r.cancelRequestedAt) (hmax : r'.maxAttempts = r.maxAttempts) :
    r'.Course (earlier ++ [a']) := by
  have hlen : (earlier ++ [a']).length = (earlier ++ [a]).length := by simp
  have hactive : r.state.isActive = true := (h.admits.split rfl ha).1
  constructor
  · rw [hfinished, hstate]
    exact h.finished
  · rw [hasked, hstate]
    exact h.asked
  · rw [hlen, hmax]
    exact h.counted
  · rw [hlen, hmax, hstate]
    exact h.room
  · rw [hstate]
    have hends : Ends (earlier ++ [a']) .running := hspent.ends ha'
    cases hs : r.state <;> rw [hs] at hactive <;> first | exact hends | cases hactive

/-- Success closes the running attempt and the job. -/
theorem JobRow.Course.succeed {r : JobRow} {earlier : List AttemptRow} {a : AttemptRow} {t : ℤ}
    {ms : ℕ} {message : String} (h : r.Course (earlier ++ [a])) (hspent : Spent earlier) :
    (r.completed t ms message).Course (earlier ++ [a.completed t ms]) := by
  constructor
  · rfl
  · intro hasked
    rcases hasked with hasked | hasked <;> cases hasked
  · exact h.counted_replace
  · intro hwait
    cases hwait
  · exact hspent.ends rfl

/-- A cancel request keeps the attempts and either closes the job or asks its worker to. -/
theorem JobRow.Course.cancel {r : JobRow} {attempts : List AttemptRow} {t : ℤ}
    (h : r.Course attempts) (hc : r.state.isCancellable = true) :
    (r.cancelRequested t).Course attempts := by
  have hadmits := h.admits
  have hfinished := h.finished
  cases hs : r.state with
  | queued =>
    have hnil : attempts = [] := by rwa [hs] at hadmits
    constructor <;> simp [JobRow.cancelRequested, hs, JobStatus.isPending, JobStatus.isTerminal,
      JobStatus.Admits, hnil, Spent]
  | retryWaiting =>
    rw [hs] at hadmits
    have hcounted := h.counted
    constructor <;> simp [JobRow.cancelRequested, hs, JobStatus.isPending, JobStatus.isTerminal,
      JobStatus.Admits, hadmits.2, hcounted]
  | running =>
    rw [hs] at hadmits hfinished
    have hcounted := h.counted
    have hends : Ends attempts .running := hadmits
    constructor <;> simp_all [JobRow.cancelRequested, JobStatus.isPending, JobStatus.isTerminal,
      JobStatus.Admits]
  | cancelRequested =>
    rw [hs] at hadmits hfinished
    have hcounted := h.counted
    have hends : Ends attempts .running := hadmits
    constructor <;> simp_all [JobRow.cancelRequested, JobStatus.isPending, JobStatus.isTerminal,
      JobStatus.Admits]
  | cancelled =>
    rw [hs] at hadmits hfinished
    have hcounted := h.counted
    have hends : Spent attempts ∨ Ends attempts .cancelled := hadmits
    constructor <;> simp_all [JobRow.cancelRequested, JobStatus.isPending, JobStatus.isTerminal,
      JobStatus.Admits]
  | succeeded =>
    rw [hs] at hc
    cases hc
  | failed =>
    rw [hs] at hc
    cases hc

/-- A transition keeps the lifecycle of a job. -/
theorem Transition.lifecycle {now : ℤ} {v v' : JobView} (h : Transition now v v')
    (hv : v.Lifecycle) : v'.Lifecycle := by
  cases h with
  | stay h => rwa [h]
  | created r inputs job job' new batch attempts appended outputs =>
    obtain ⟨hattempts, -, -⟩ := hv.absent job
    rw [hattempts] at attempts
    constructor
    · intro hnone
      rw [job'] at hnone
      cases hnone
    · simp [attempts]
    · intro s hs
      obtain rfl : r = s := Option.some.inj (job'.symm.trans hs)
      rw [attempts]
      constructor <;> simp [new.state, new.finishedAt, JobStatus.isTerminal, JobStatus.Admits]
  | claimed r a t job pending opened job' attempts inputs outputs =>
    have hr := hv.course r job
    have hnumber := opened.number
    rw [hv.maxNumber] at hnumber
    constructor
    · intro hnone
      rw [job'] at hnone
      cases hnone
    · rw [attempts, List.map_append, List.length_append, List.length_singleton,
        List.range'_concat, hv.numbered]
      simp [hnumber, Nat.add_comm]
    · intro s hs
      obtain rfl : r.started t = s := Option.some.inj (job'.symm.trans hs)
      rw [attempts]
      have hroom := opened.room
      constructor
      · rfl
      · intro hasked
        rcases hasked with hasked | hasked <;> cases hasked
      · rw [List.length_append, List.length_singleton]
        change _ ≤ r.maxAttempts
        omega
      · intro hwait
        cases hwait
      · exact (hr.admits.of_isPending pending).ends opened.state
  | renewed r a e running live rewrites outputs =>
    refine rewrites.lifecycle hv running rfl fun earlier hspent _ hr => ?_
    exact hr.goOn running running hspent rfl rfl rfl rfl
  | measured r a ms running rewrites outputs =>
    refine rewrites.lifecycle hv running rfl fun earlier hspent _ hr => ?_
    exact hr.goOn running running hspent rfl rfl rfl rfl
  | progressed r a n running state between between' rewrites outputs =>
    refine rewrites.lifecycle hv running rfl fun earlier hspent _ hr => ?_
    exact hr.goOn running running hspent rfl rfl rfl rfl
  | cancelFinished r a message t ms running state rewrites outputs =>
    refine rewrites.lifecycle hv running rfl fun earlier hspent hnumber hr => ?_
    constructor
    · rfl
    · intro _
      exact hr.asked (Or.inl state)
    · exact hr.counted_replace
    · intro hwait
      cases hwait
    · exact Or.inr (hspent.ends rfl)
  | retried r a message t availableAt ms running state room rewrites outputs =>
    refine rewrites.lifecycle hv running rfl fun earlier hspent hnumber hr => ?_
    have hspent' := hspent.concat (a := a.closed .failed .transient message t ms) ⟨rfl, rfl⟩
    have hlen : (earlier ++ [a.closed .failed .transient message t ms]).length < r.maxAttempts := by
      rw [List.length_append, List.length_singleton]
      omega
    constructor
    · rfl
    · intro hasked
      rcases hasked with hasked | hasked <;> cases hasked
    · exact hlen.le
    · exact fun _ => hlen
    · exact ⟨by simp, hspent'⟩
  | failed r a kind message t ms running state rewrites outputs =>
    refine rewrites.lifecycle hv running rfl fun earlier hspent hnumber hr => ?_
    constructor
    · rfl
    · intro hasked
      rcases hasked with hasked | hasked <;> cases hasked
    · exact hr.counted_replace
    · intro hwait
      cases hwait
    · exact hspent.ends rfl
  | completed r a t ms running state demo rewrites outputs =>
    exact rewrites.lifecycle hv running rfl fun _ hspent _ hr => hr.succeed hspent
  | published r a message t ms rows running state image rewrites batch shows count outputs =>
    exact rewrites.lifecycle hv running rfl fun _ hspent _ hr => hr.succeed hspent
  | cancelRequested r t cancellable restates =>
    have hr := hv.course r restates.job
    constructor
    · intro hnone
      rw [restates.job'] at hnone
      cases hnone
    · rw [restates.attempts]
      exact hv.numbered
    · intro s hs
      obtain rfl : r.cancelRequested t = s := Option.some.inj (restates.job'.symm.trans hs)
      rw [restates.attempts]
      exact hr.cancel cancellable
  | outputsExpired r t terminal job job' attempts inputs outputs =>
    have hr := hv.course r job
    constructor
    · intro hnone
      rw [job'] at hnone
      cases hnone
    · rw [attempts]
      exact hv.numbered
    · intro s hs
      rw [job'] at hs
      cases hs
      rw [attempts]
      exact ⟨hr.finished, hr.asked, hr.counted, hr.room, hr.admits⟩

end TaskHarbor
