import TaskHarbor.Lifecycle.Tenure
import TaskHarbor.System.Progress

/-! The tenure of a claim. As long as no reclaim finds its lease over, the holder of a running
attempt is the only party whose calls change the attempt, its job or the files of its job. -/
namespace TaskHarbor

open Relational Transaction Runs

/-- The step is no call of the holder of attempt `id`. -/
def Op.Foreign (id : ℕ) (op : Op) : Prop :=
  ∀ claimed, op.claim = some claimed → claimed.attemptId ≠ id

/-- What a step does to the attempts and the workers. -/
inductive System.Attends (s : System) (op : Op) (t : System) : Prop
  | same (h : s.db.Aside t.db)
  | staffed (h : s.db.Staffs s.now t.db)
  | tended (claimed : ClaimedJob) (claim : op.claim = some claimed)
      (h : Db.Tends claimed s.db t.db)
  | renewed (claimed : ClaimedJob) (claim : op.claim = some claimed)
      (h : Db.Renews claimed s.now s.db t.db)
  | opened (workerId claimToken : Uuid) (locked : List ℕ)
      (claim : op = .claimNext workerId claimToken locked) (h : Db.Opens workerId s.now s.db t.db)
  | expired (asOf : ℤ) (clock : asOf ∈ s.reads) (h : Db.Expires (bindTimestamp asOf) s.db t.db)

section Steps

variable {s t : System} {op : Op} {id : ℕ} {a : AttemptRow}

theorem System.attends_same {α : Type} {x : Session α}
    (h : Session.Moves Db.Aside x s.db) : s.Attends op (s.run x) := .same h

theorem System.attends_staffed {α : Type} {x : Session α}
    (h : Session.Moves (Db.Staffs s.now) x s.db) : s.Attends op (s.run x) := .staffed h

theorem System.attends_tended {α : Type} {x : Session α} {claimed : ClaimedJob}
    (hclaim : op.claim = some claimed) (h : Session.Moves (Db.Tends claimed) x s.db) :
    s.Attends op (s.run x) := .tended claimed hclaim h

/-- Every step does one of these. -/
theorem System.step_attends (h : s.step op = some t) : s.Attends op t := by
  have hclock : ∀ asOf, op.clock = some asOf → asOf ∈ s.reads :=
    fun asOf hasOf => System.step_clock h hasOf
  obtain ⟨-, rfl⟩ := System.step_eq_some.mp h
  cases op with
  | create name => exact System.attends_same create_aside
  | createImageJob request => exact System.attends_same createImageJob_aside
  | manualRetry jobId owner => exact System.attends_same manualRetry_aside
  | requestCancel jobId owner => exact System.attends_same requestCancel_aside
  | registerWorker registration asOf => exact System.attends_staffed registerWorker_staffs
  | heartbeatWorker workerId ttl asOf => exact System.attends_staffed heartbeatWorker_staffs
  | stopWorker workerId => exact System.attends_staffed stopWorker_staffs
  | claimNext workerId claimToken locked =>
    exact .opened workerId claimToken locked rfl claimNext_opens
  | renewLease claimed => exact .renewed claimed rfl renewLease_renews
  | updateProgress claimed completed => exact System.attends_tended rfl updateProgress_tends
  | recordEncodingDuration claimed duration =>
    exact System.attends_tended rfl recordEncodingDuration_tends
  | recordFailure claimed duration kind message =>
    exact System.attends_tended rfl recordFailure_tends
  | finishCancelled claimed duration => exact System.attends_tended rfl finishCancelled_tends
  | complete claimed duration => exact System.attends_tended rfl complete_tends
  | completeImageJob claimed duration outputs =>
    exact System.attends_tended rfl completeImageJob_tends
  | reclaim asOf locked =>
    exact .expired asOf (hclock asOf rfl) reclaimNextExpiredAttemptAt_expires
  | createSchedule request => exact System.attends_same createSchedule_aside
  | updateSchedule scheduleId request asOf owner =>
    exact System.attends_same updateScheduleAtWithOwner_aside
  | materialize asOf locked => exact System.attends_same materializeNextScheduleAt_aside
  | expireOutputs retentionSeconds => exact System.attends_same expireOutputArtifacts_aside
  | tick now => exact .same (.refl s.db)
  | readClock => exact .same (.refl s.db)

/-- A foreign step leaves the attempt, or it is a reclaim that finds the lease over. -/
theorem System.step_overlooks (h : s.step op = some t) (hforeign : op.Foreign id) :
    s.db.LeavesAttempt id t.db ∨
      ∃ asOf ∈ s.reads, s.db.OverlooksAttempt id (bindTimestamp asOf) t.db := by
  cases System.step_attends h with
  | same h => exact Or.inl (.of_eq h.attempts)
  | staffed h => exact Or.inl (.of_eq h.attempts)
  | tended claimed claim h => exact Or.inl (h.leaves (hforeign claimed claim))
  | renewed claimed claim h => exact Or.inl (h.leaves (hforeign claimed claim))
  | opened workerId claimToken locked claim h => exact Or.inl h.leaves
  | expired asOf clock h => exact Or.inr ⟨asOf, clock, h.overlooks⟩

theorem System.apply_reads (s : System) (op : Op) :
    (s.apply op).reads = match op with
      | .readClock => s.now :: s.reads
      | _ => s.reads := by
  cases op <;> simp only [System.apply, System.run, System.runClaim]

theorem System.reads_subset (s : System) (op : Op) : s.reads ⊆ (s.apply op).reads := by
  rw [System.apply_reads]
  cases op with
  | readClock => exact List.subset_cons_self s.now s.reads
  | _ => exact List.Subset.refl s.reads

end Steps

/-! ### Runs -/

section Runs

variable {ok : System → Op → Prop} {s t u : System} {a : AttemptRow}

/-- A closed attempt stays closed. -/
theorem closed_step {op : Op} (hinv : s.Inv) (hstep : s.step op = some t)
    (ha : s.db.jobAttempts.get? a.id = some a) (hclosed : a.state ≠ .running) :
    t.db.jobAttempts.get? a.id = some a := by
  have hmem : a ∈ (s.db.view a.jobId).attempts := mem_attemptsOf.mpr ⟨Table.mem_of_get? ha, rfl⟩
  obtain ⟨a', ha', hbecomes⟩ := ((System.step_db hinv hstep).turns a.jobId).keeps.attempts a hmem
  obtain rfl := hbecomes.closed hclosed
  exact Table.get?_key (mem_attemptsOf.mp ha').1

/-- Attempt `a` of `s` is still in `t` what its holder left, and so is its job up to a cancel
request. -/
structure System.Undisturbed (s t : System) (a : AttemptRow) : Prop where
  attempt : t.db.jobAttempts.get? a.id = some a
  job : ∃ r r', s.db.jobs.get? a.jobId = some r ∧ t.db.jobs.get? a.jobId = some r' ∧
    r.AskedOnly r'
  artifacts : ∀ kind, t.db.artifactsOf a.jobId kind = s.db.artifactsOf a.jobId kind

/-- A reclaim found the lease of `a` over, and the attempt is given up. -/
structure System.Reclaimed (t : System) (a : AttemptRow) : Prop where
  expired : ∃ asOf ∈ t.reads, a.leaseOver (bindTimestamp asOf) = true
  closed : ∃ a', t.db.jobAttempts.get? a.id = some a' ∧ a'.GivenUp

theorem System.Undisturbed.refl (hinv : s.Inv) (ha : s.db.jobAttempts.get? a.id = some a) :
    s.Undisturbed s a := by
  have hmem : a ∈ (s.db.view a.jobId).attempts := mem_attemptsOf.mpr ⟨Table.mem_of_get? ha, rfl⟩
  obtain ⟨r, hr⟩ : ∃ r, s.db.jobs.get? a.jobId = some r := by
    rw [← Option.isSome_iff_exists, ← Option.ne_none_iff_isSome]
    intro hnone
    rw [((hinv.db.lifecycle a.jobId).absent hnone).1] at hmem
    cases hmem
  exact ⟨ha, ⟨r, r, hr, hr, Or.inl rfl⟩, fun _ => rfl⟩

/-- One foreign step disturbs nothing, or it reclaims. -/
theorem System.Undisturbed.step {op : Op} (ht : t.Reachable) (hrun : a.state = .running)
    (h : s.Undisturbed t a) (hstep : t.step op = some u) (hforeign : op.Foreign a.id) :
    s.Undisturbed u a ∨ u.Reclaimed a := by
  have hsame : u.db.jobAttempts.get? a.id = some a ∨ u.Reclaimed a := by
    rcases System.step_overlooks hstep hforeign with hleaves | ⟨asOf, hasOf, hoverlooks⟩
    · exact Or.inl (hleaves a h.attempt)
    · refine (hoverlooks a h.attempt).imp_right fun ⟨hover, hclosed⟩ => ⟨⟨asOf, ?_, hover⟩, hclosed⟩
      obtain ⟨-, rfl⟩ := System.step_eq_some.mp hstep
      exact System.reads_subset t op hasOf
  refine hsame.imp_left fun ha' => ?_
  obtain ⟨r, r₁, hr, hr₁, hasked⟩ := h.job
  have hmem : a ∈ (t.db.view a.jobId).attempts :=
    mem_attemptsOf.mpr ⟨Table.mem_of_get? h.attempt, rfl⟩
  have hmem' : a ∈ (u.db.view a.jobId).attempts := mem_attemptsOf.mpr ⟨Table.mem_of_get? ha', rfl⟩
  have hlifecycle := ht.inv.db.lifecycle a.jobId
  obtain ⟨⟨r₂, hr₂, hasked'⟩, hinputs, houtputs⟩ := ((System.step_db ht.inv hstep).turns
    a.jobId).undisturbed hlifecycle (ht.paced a.jobId) hr₁ hmem hrun hmem'
  refine ⟨ha', ⟨r, r₂, hr, hr₂, ?_⟩, fun kind => ?_⟩
  · rcases hasked with rfl | ⟨asked, rfl⟩
    · exact hasked'
    · have hactive : (r.cancelRequested asked).state.isActive = true := by
        obtain ⟨l₁, l₂, hsplit⟩ := List.append_of_mem hmem
        exact ((hlifecycle.course _ hr₁).admits.split hsplit hrun).1
      refine JobRow.AskedOnly.trans (Or.inr ⟨asked, rfl⟩) hasked' ?_
      cases hstate : r.state <;> simp_all [JobStatus.isActive, JobRow.cancelRequested]
  · rw [← h.artifacts kind]
    cases kind with
    | input => exact hinputs
    | output => exact houtputs

end Runs

/-- A running attempt belongs to its holder: whatever the others do, its row, its job up to a cancel
request and the files of its job stay as they are, until a reclaim finds its lease over. -/
theorem attempt_belongs_to_holder {s t : System} {a : AttemptRow} (hs : s.Reachable)
    (ha : a ∈ s.db.jobAttempts) (hrunning : a.state = .running)
    (hrun : Run System.step (fun _ op => op.Foreign a.id) s t) :
    s.Undisturbed t a ∨ t.Reclaimed a := by
  induction hrun with
  | refl => exact Or.inl (.refl hs.inv (Table.get?_key ha))
  | tail op hrun hforeign hstep ih =>
    have hmid := hs.run hrun
    rcases ih with hundisturbed | hreclaimed
    · exact hundisturbed.step hmid hrunning hstep hforeign
    · obtain ⟨⟨asOf, hasOf, hover⟩, a', ha', hclosed⟩ := hreclaimed
      have hid : a'.id = a.id := Table.key_of_get? ha'
      rw [← hid] at ha'
      have hafter := closed_step hmid.inv hstep ha' hclosed.closed.1
      rw [hid] at hafter
      obtain ⟨-, rfl⟩ := System.step_eq_some.mp hstep
      exact Or.inr ⟨⟨asOf, System.reads_subset _ op hasOf, hover⟩, a', hafter, hclosed⟩

/-- A client asks for a cancel while the attempt runs. -/
theorem attempt_belongs_to_holder_asked : ∃ (s t : System) (a : AttemptRow), s.Reachable ∧
    (t.db.jobs.get? a.jobId).any (fun r => r.state == .cancelRequested) = true ∧
    (s.Undisturbed t a ∨ t.Reclaimed a) := by
  have hrun : (exec System.step (System.initial 0) sampleClaimOps).any (fun s =>
      s.db.jobAttempts.rows.any fun a => a.state == .running && a.jobId == 1 &&
        (s.step (.requestCancel ⟨1, by decide, by decide⟩ none)).any fun t =>
          (t.db.jobs.get? a.jobId).any fun r => r.state == .cancelRequested) = true := by
    decide +kernel
  obtain ⟨s, hexec, hattempt⟩ := (Option.any_eq_true _ _).mp hrun
  obtain ⟨a, ha, hboth⟩ := List.any_eq_true.mp hattempt
  rw [Bool.and_eq_true, Bool.and_eq_true, beq_iff_eq] at hboth
  obtain ⟨⟨hrunning, -⟩, hasked⟩ := hboth
  obtain ⟨t, hstep, hstate⟩ := (Option.any_eq_true _ _).mp hasked
  have hs := reachable_of_exec hexec
  refine ⟨s, t, a, hs, hstate, attempt_belongs_to_holder hs ha hrunning (.single _ ?_ hstep)⟩
  intro claimed hclaim
  cases hclaim

end TaskHarbor
