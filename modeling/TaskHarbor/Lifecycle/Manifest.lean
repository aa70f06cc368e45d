import TaskHarbor.Lifecycle.Course

/-! The manifest invariant: a job has outputs exactly from its success to their expiry, and then
one for each input, all of the attempt that succeeded. -/
namespace TaskHarbor

/-- `outputs` show `inputs` one for one, all made by one attempt. -/
structure Published (inputs outputs : List ArtifactRow) (attemptId : ℕ) : Prop where
  indexes : (outputs.map ArtifactRow.itemIndex).Nodup
  shows : ∀ o ∈ outputs, o.Shows inputs attemptId
  count : outputs.length = inputs.length

/-- A published job whose outputs are not expired. -/
def JobRow.Showing (r : JobRow) : Prop :=
  r.state = .succeeded ∧ r.jobType = .imageResize ∧ r.outputsExpiredAt = none

structure JobView.Manifest (v : JobView) : Prop where
  inputs : (v.inputs.map ArtifactRow.itemIndex).Nodup
  unexpired : ∀ r, v.job = some r → r.state.isTerminal = false → r.outputsExpiredAt = none
  published : ∀ r, v.job = some r → r.Showing →
    ∃ earlier a, v.attempts = earlier ++ [a] ∧ Published v.inputs v.outputs a.id
  unpublished : ∀ r, v.job = some r → ¬r.Showing → v.outputs = []

/-- The outputs of a published job are in bijection with its inputs. -/
theorem Published.perm {inputs outputs : List ArtifactRow} {attemptId : ℕ}
    (h : Published inputs outputs attemptId) :
    (outputs.map fun o => (o.sourceArtifactId, o.itemIndex)).Perm
      (inputs.map fun i => (some i.id, i.itemIndex)) := by
  have hnodup : (outputs.map fun o => (o.sourceArtifactId, o.itemIndex)).Nodup := by
    have hsnd : ((outputs.map fun o => (o.sourceArtifactId, o.itemIndex)).map Prod.snd).Nodup := by
      rw [List.map_map]
      exact h.indexes
    exact hsnd.of_map _
  have hsubset : (outputs.map fun o => (o.sourceArtifactId, o.itemIndex)) ⊆
      inputs.map fun i => (some i.id, i.itemIndex) := by
    intro p hp
    obtain ⟨o, ho, rfl⟩ := List.mem_map.mp hp
    obtain ⟨-, i, hi, hsource, hindex⟩ := h.shows o ho
    exact List.mem_map.mpr ⟨i, hi, by rw [hsource, hindex]⟩
  have hsubperm := List.subperm_of_subset hnodup hsubset
  exact hsubperm.perm_of_length_le (by simp [h.count])

/-! ### Every transition keeps the manifest -/

/-- A step between states other than success shows nothing before and after. -/
theorem JobView.Manifest.quiet {v v' : JobView} {r r' : JobRow} (h : v.Manifest)
    (job : v.job = some r) (job' : v'.job = some r') (hr : r.state ≠ .succeeded)
    (hr' : r'.state ≠ .succeeded) (inputs : v'.inputs = v.inputs)
    (outputs : v'.outputs = v.outputs)
    (hexpired : r'.state.isTerminal = false → r'.outputsExpiredAt = none) : v'.Manifest := by
  constructor
  · rw [inputs]
    exact h.inputs
  · intro s hs
    obtain rfl : r' = s := Option.some.inj (job'.symm.trans hs)
    exact hexpired
  · intro s hs hshow
    obtain rfl : r' = s := Option.some.inj (job'.symm.trans hs)
    exact absurd hshow.1 hr'
  · intro s hs _
    rw [outputs]
    exact h.unpublished r job fun hshow => hr hshow.1

theorem JobStatus.ne_succeeded_of_isPending {s : JobStatus} (h : s.isPending = true) :
    s ≠ .succeeded := by
  rintro rfl
  cases h

theorem JobStatus.not_isTerminal_of_isPending {s : JobStatus} (h : s.isPending = true) :
    s.isTerminal = false := by
  cases s <;> first | rfl | cases h

theorem JobStatus.not_isTerminal_of_isActive {s : JobStatus} (h : s.isActive = true) :
    s.isTerminal = false := by
  cases s <;> first | rfl | cases h

theorem JobStatus.ne_succeeded_of_isActive {s : JobStatus} (h : s.isActive = true) :
    s ≠ .succeeded := by
  rintro rfl
  cases h

/-- The job of a running attempt is active. -/
theorem JobView.Rewrites.isActive {v v' : JobView} {r r' : JobRow} {a a' : AttemptRow}
    (h : v.Rewrites v' r r' a a') (hv : v.Lifecycle) (ha : a.state = .running) :
    r.state.isActive = true := by
  obtain ⟨l₁, l₂, hsplit, -⟩ := h.attempts
  exact ((hv.course r h.job).admits.split hsplit ha).1

/-- A step of a running attempt that does not succeed. -/
theorem JobView.Rewrites.manifest {v v' : JobView} {r r' : JobRow} {a a' : AttemptRow}
    (h : v.Rewrites v' r r' a a') (hv : v.Lifecycle) (hm : v.Manifest) (ha : a.state = .running)
    (outputs : v'.outputs = v.outputs) (hr' : r'.state ≠ .succeeded)
    (hexpired : r'.outputsExpiredAt = r.outputsExpiredAt) : v'.Manifest := by
  have hactive := h.isActive hv ha
  refine hm.quiet h.job h.job' (JobStatus.ne_succeeded_of_isActive hactive) hr' h.inputs outputs ?_
  intro _
  rw [hexpired]
  exact hm.unexpired r h.job (JobStatus.not_isTerminal_of_isActive hactive)

theorem JobRow.cancelRequested_state_ne_succeeded {r : JobRow} {t : ℤ}
    (h : r.state.isCancellable = true) : (r.cancelRequested t).state ≠ .succeeded := by
  unfold JobRow.cancelRequested
  cases hs : r.state <;> simp_all [JobStatus.isCancellable]

theorem JobStatus.ne_succeeded_of_isCancellable {s : JobStatus} (h : s.isCancellable = true) :
    s ≠ .succeeded := by
  rintro rfl
  cases h

/-- A cancelled job that is not over was not over before. -/
theorem JobRow.not_isTerminal_of_cancelRequested {r : JobRow} {t : ℤ}
    (h : (r.cancelRequested t).state.isTerminal = false) : r.state.isTerminal = false := by
  unfold JobRow.cancelRequested at h
  cases hs : r.state <;> simp_all [JobStatus.isTerminal]

theorem Transition.manifest {now : ℤ} {v v' : JobView} (h : Transition now v v')
    (hv : v.Lifecycle) (hm : v.Manifest) : v'.Manifest := by
  cases h with
  | stay h => rwa [h]
  | created r inputs job job' new batch attempts appended outputs =>
    obtain ⟨-, hinputs, houtputs⟩ := hv.absent job
    rw [hinputs, List.nil_append] at appended
    rw [houtputs] at outputs
    constructor
    · rw [appended]
      exact batch.indexes
    · intro s hs _
      obtain rfl : r = s := Option.some.inj (job'.symm.trans hs)
      exact new.outputsExpiredAt
    · intro s hs hshow
      obtain rfl : r = s := Option.some.inj (job'.symm.trans hs)
      rw [JobRow.Showing, new.state] at hshow
      cases hshow.1
    · intro _ _ _
      exact outputs
  | claimed r a t job pending opened job' attempts inputs outputs =>
    refine hm.quiet job job' (JobStatus.ne_succeeded_of_isPending pending) ?_ inputs outputs ?_
    · intro hs
      cases hs
    · intro _
      exact hm.unexpired r job (JobStatus.not_isTerminal_of_isPending pending)
  | renewed r a e running live rewrites outputs =>
    have hactive := rewrites.isActive hv running
    exact rewrites.manifest hv hm running outputs (JobStatus.ne_succeeded_of_isActive hactive) rfl
  | measured r a ms running rewrites outputs =>
    have hactive := rewrites.isActive hv running
    exact rewrites.manifest hv hm running outputs (JobStatus.ne_succeeded_of_isActive hactive) rfl
  | progressed r a n running state between between' rewrites outputs =>
    have hactive := rewrites.isActive hv running
    exact rewrites.manifest hv hm running outputs (JobStatus.ne_succeeded_of_isActive hactive) rfl
  | cancelFinished r a message t ms running state rewrites outputs =>
    exact rewrites.manifest hv hm running outputs (fun hs => by cases hs) rfl
  | retried r a message t availableAt ms running state room rewrites outputs =>
    exact rewrites.manifest hv hm running outputs (fun hs => by cases hs) rfl
  | failed r a kind message t ms running state rewrites outputs =>
    exact rewrites.manifest hv hm running outputs (fun hs => by cases hs) rfl
  | completed r a t ms running state demo rewrites outputs =>
    have hempty : v.outputs = [] := by
      refine hm.unpublished r rewrites.job fun hshow => ?_
      rw [JobRow.Showing, state] at hshow
      cases hshow.1
    constructor
    · rw [rewrites.inputs]
      exact hm.inputs
    · intro s hs hterminal
      obtain rfl : r.completed t ms resultMessage = s :=
        Option.some.inj (rewrites.job'.symm.trans hs)
      cases hterminal
    · intro s hs hshow
      obtain rfl : r.completed t ms resultMessage = s :=
        Option.some.inj (rewrites.job'.symm.trans hs)
      have himage : r.jobType = .imageResize := hshow.2.1
      rw [demo] at himage
      cases himage
    · intro _ _ _
      rw [outputs, hempty]
  | published r a message t ms rows running state image rewrites batch shows count outputs =>
    have hactive := rewrites.isActive hv running
    have hempty : v.outputs = [] :=
      hm.unpublished r rewrites.job fun hshow => JobStatus.ne_succeeded_of_isActive hactive hshow.1
    have hexpired := hm.unexpired r rewrites.job (JobStatus.not_isTerminal_of_isActive hactive)
    rw [hempty, List.nil_append] at outputs
    constructor
    · rw [rewrites.inputs]
      exact hm.inputs
    · intro s hs hterminal
      obtain rfl : r.completed t ms message = s := Option.some.inj (rewrites.job'.symm.trans hs)
      cases hterminal
    · intro _ _ _
      obtain ⟨l₁, l₂, hsplit, hsplit'⟩ := rewrites.attempts
      obtain ⟨-, rfl, -⟩ := (hv.course r rewrites.job).admits.split hsplit running
      refine ⟨l₁, _, hsplit', ?_⟩
      rw [outputs, rewrites.inputs]
      exact ⟨batch.indexes, shows, count⟩
    · intro s hs hshow
      obtain rfl : r.completed t ms message = s := Option.some.inj (rewrites.job'.symm.trans hs)
      exact absurd ⟨rfl, image, hexpired⟩ hshow
  | cancelRequested r t cancellable restates =>
    refine hm.quiet restates.job restates.job' (JobStatus.ne_succeeded_of_isCancellable cancellable)
      (JobRow.cancelRequested_state_ne_succeeded cancellable) restates.inputs restates.outputs ?_
    intro hterminal
    exact hm.unexpired r restates.job (JobRow.not_isTerminal_of_cancelRequested hterminal)
  | outputsExpired r t terminal job job' attempts inputs outputs =>
    constructor
    · rw [inputs]
      exact hm.inputs
    · intro s hs hterminal
      rw [job'] at hs
      cases hs
      rw [terminal] at hterminal
      cases hterminal
    · intro s hs hshow
      rw [job'] at hs
      cases hs
      cases hshow.2.2
    · intro _ _ _
      exact outputs

end TaskHarbor
