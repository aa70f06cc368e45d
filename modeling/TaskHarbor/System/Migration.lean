import TaskHarbor.Database.Leases
import TaskHarbor.System.Drain

/-! The lease migration leaves no attempt and no job active. A job that ran can be claimed at once
or has failed, and nothing else changes. -/
namespace TaskHarbor

open Relational

/-! ### The invariant of jobs and attempts -/

/-- The highest-numbered of the attempts. -/
structure IsLast (attempts : List UnleasedAttemptRow) (a : UnleasedAttemptRow) : Prop where
  mem : a ∈ attempts
  highest : ∀ b ∈ attempts, b.attemptNumber ≤ a.attemptNumber

/-- The attempts are numbered from one, no more than allowed; the job is active exactly if its
last attempt is its only running one. -/
structure UnleasedJobRow.Consistent (j : UnleasedJobRow) (attempts : List UnleasedAttemptRow) :
    Prop where
  numbered : (attempts.map UnleasedAttemptRow.attemptNumber).Perm (List.range' 1 attempts.length)
  counted : attempts.length ≤ j.maxAttempts
  active : j.state.isActive = true ↔ ∃ a, IsLast attempts a ∧ a.state = .running ∧
    ∀ b ∈ attempts, b.state = .running → b = a

structure UnleasedDb.Consistent (db : UnleasedDb) : Prop where
  job : ∀ j ∈ db.jobs, j.Consistent (db.attemptsOf j.id)

/-! ### The updates pass their checks -/

section Checks

variable {now : ℤ} {used : ℕ} {job j : UnleasedJobRow} {a : UnleasedAttemptRow}

theorem updateChecked_ok {ρ : Type} [Keyed ρ] {checks : ρ → List Check} {t : Table ρ}
    {p : ρ → Bool} {f : ρ → ρ} {hf} (h : ∀ r ∈ t, holdsAll (checks (f r)) = true) :
    updateChecked checks t p f hf = .ok (t.update p f hf) := by
  have henforce : enforce ((t.rows.filter p).flatMap fun r => checks (f r)) = .ok () := by
    rw [enforce_ok_iff, holdsAll, List.all_eq_true]
    intro c hc
    obtain ⟨r, hr, hc⟩ := List.mem_flatMap.mp hc
    exact List.all_eq_true.mp (h r (List.mem_filter.mp hr).1) c hc
  unfold updateChecked
  rw [henforce]
  rfl

theorem UnleasedAttemptRow.closed_checks (h : holdsAll a.checks = true) :
    holdsAll (a.closed now job).checks = true := by
  have hkind : (a.closed now job).errorKindValid = true := by
    unfold UnleasedAttemptRow.errorKindValid UnleasedAttemptRow.closed
    by_cases hcancel : job.state = .cancelRequested
    · simp [hcancel]
    · simp [hcancel]
  simp only [holdsAll, UnleasedAttemptRow.checks, List.all_cons, List.all_nil, Bool.and_true,
    Bool.and_eq_true] at h ⊢
  exact ⟨h.1, h.2.1, hkind⟩

theorem UnleasedDb.close_checks (db : UnleasedDb) (h : holdsAll a.checks = true) :
    holdsAll (db.close now a).checks = true := by
  unfold UnleasedDb.close
  split
  · exact UnleasedAttemptRow.closed_checks h
  · exact h

theorem UnleasedJobRow.reset_checks (h : holdsAll j.checks = true) :
    holdsAll (j.reset now used).checks = true := by
  simp only [holdsAll, UnleasedJobRow.checks, UnleasedJobRow.reset, List.all_cons, List.all_nil,
    Bool.and_true, Bool.and_eq_true] at h ⊢
  obtain ⟨hname, hprogress, hrest⟩ := h
  obtain ⟨hpositive, hle⟩ := of_decide_eq_true hprogress
  refine ⟨hname, decide_eq_true ⟨hpositive, ?_⟩, hrest⟩
  split
  · exact Nat.zero_le _
  · exact hle

end Checks

/-! ### The result -/

/-- The database between the two updates. -/
def UnleasedDb.afterClose (db : UnleasedDb) (now : ℤ) : UnleasedDb :=
  { db with jobAttempts := db.jobAttempts.update db.closes (db.close now) (db.close_id now) }

/-- An attempt after the first update. -/
def UnleasedDb.closeIf (db : UnleasedDb) (now : ℤ) (a : UnleasedAttemptRow) : UnleasedAttemptRow :=
  if db.closes a then db.close now a else a

/-- A job after the second update. -/
def UnleasedDb.resetIf (db : UnleasedDb) (now : ℤ) (j : UnleasedJobRow) : UnleasedJobRow :=
  if j.state.isActive then j.reset now (db.used j.id) else j

/-- The attempts of a job without the columns of the lease. -/
def LeasedDb.attemptsOf (db : LeasedDb) (id : ℕ) : List UnleasedAttemptRow :=
  (db.jobAttempts.rows.map LeasedAttemptRow.toUnleasedAttemptRow).filter fun a => a.jobId == id

/-- What the migration makes of the rows. -/
structure UnleasedDb.MigratesTo (db : UnleasedDb) (now : ℤ) (db' : LeasedDb) : Prop where
  workers : db'.workers = Table.empty
  jobs : db'.jobs.rows = db.jobs.rows.map (db.resetIf now)
  attempts : db'.jobAttempts.rows =
    db.jobAttempts.rows.map fun a => ⟨db.closeIf now a, none, none, none⟩

section Migration

variable {db : UnleasedDb} {db' : LeasedDb} {now : ℤ} {j : UnleasedJobRow}
  {a : UnleasedAttemptRow}

theorem UnleasedDb.closeIf_jobId (db : UnleasedDb) (now : ℤ) (a : UnleasedAttemptRow) :
    (db.closeIf now a).jobId = a.jobId := by
  unfold UnleasedDb.closeIf UnleasedDb.close
  split
  · split <;> rfl
  · rfl

theorem UnleasedDb.closeIf_attemptNumber (db : UnleasedDb) (now : ℤ) (a : UnleasedAttemptRow) :
    (db.closeIf now a).attemptNumber = a.attemptNumber := by
  unfold UnleasedDb.closeIf UnleasedDb.close
  split
  · split <;> rfl
  · rfl

theorem UnleasedDb.closeIf_of_not_running (h : a.state ≠ .running) : db.closeIf now a = a := by
  refine if_neg ?_
  simp [UnleasedDb.closes, h]

/-- A running attempt is closed with its job. -/
theorem UnleasedDb.closeIf_running (hj : j ∈ db.jobs) (hjob : a.jobId = j.id)
    (h : a.state = .running) : db.closeIf now a = a.closed now j := by
  have hget : db.jobs.get? a.jobId = some j := Table.get?_eq_some.mpr ⟨hj, hjob.symm⟩
  unfold UnleasedDb.closeIf UnleasedDb.closes UnleasedDb.close
  rw [hget, h]
  rfl

theorem UnleasedAttemptRow.closed_failed (h : j.state = .running) :
    (a.closed now j).state = .failed ∧ (a.closed now j).errorKind = some .transient := by
  simp [UnleasedAttemptRow.closed, h]

theorem UnleasedAttemptRow.closed_cancelled (h : j.state = .cancelRequested) :
    (a.closed now j).state = .cancelled ∧ (a.closed now j).errorKind = some .cancelled := by
  simp [UnleasedAttemptRow.closed, h]

theorem UnleasedAttemptRow.closed_state_ne : (a.closed now j).state ≠ .running := by
  unfold UnleasedAttemptRow.closed
  dsimp only
  split <;> decide

theorem UnleasedDb.Declared.closeIf_state (h : db.Declared) (ha : a ∈ db.jobAttempts) :
    (db.closeIf now a).state ≠ .running := by
  by_cases hrunning : a.state = .running
  · obtain ⟨j, hj, hjob⟩ := h.references a ha
    rw [UnleasedDb.closeIf_running hj hjob.symm hrunning]
    exact UnleasedAttemptRow.closed_state_ne
  · rw [UnleasedDb.closeIf_of_not_running hrunning]
    exact hrunning

theorem UnleasedJobRow.reset_state_inactive {used : ℕ} :
    (j.reset now used).state.isActive = false := by
  unfold UnleasedJobRow.reset
  dsimp only
  split
  · rfl
  · split <;> rfl

theorem UnleasedDb.resetIf_inactive (db : UnleasedDb) (now : ℤ) (j : UnleasedJobRow) :
    (db.resetIf now j).state.isActive = false := by
  unfold UnleasedDb.resetIf
  cases hactive : j.state.isActive with
  | true => exact UnleasedJobRow.reset_state_inactive
  | false => exact hactive

theorem UnleasedDb.resetIf_id (db : UnleasedDb) (now : ℤ) (j : UnleasedJobRow) :
    (db.resetIf now j).id = j.id := by
  unfold UnleasedDb.resetIf
  split <;> rfl

theorem UnleasedDb.resetIf_maxAttempts (db : UnleasedDb) (now : ℤ) (j : UnleasedJobRow) :
    (db.resetIf now j).maxAttempts = j.maxAttempts := by
  unfold UnleasedDb.resetIf
  split <;> rfl

/-- An active job has an attempt, so the join keeps it. -/
theorem UnleasedDb.Consistent.used_pos (h : db.Consistent) (hj : j ∈ db.jobs)
    (hactive : j.state.isActive = true) : 0 < db.used j.id := by
  obtain ⟨a, hlast, -⟩ := (h.job j hj).active.mp hactive
  exact List.length_pos_of_mem hlast.mem

theorem UnleasedDb.attemptsOf_closed (db : UnleasedDb) (now : ℤ) (id : ℕ) :
    (db.afterClose now).attemptsOf id = (db.attemptsOf id).map (db.closeIf now) := by
  refine Table.filter_update db.jobAttempts db.closes _ (db.close now) (db.close_id now) ?_
  intro a hcloses
  have hjobId := db.closeIf_jobId now a
  unfold UnleasedDb.closeIf at hjobId
  rw [if_pos hcloses] at hjobId
  rw [hjobId]

/-- The second update touches the active jobs. -/
theorem UnleasedDb.Consistent.resets_eq (h : db.Consistent) (hj : j ∈ db.jobs) :
    (db.afterClose now).resets j = j.state.isActive := by
  have hstates : (j.state == .running || j.state == .cancelRequested) = j.state.isActive := by
    cases j.state <;> rfl
  unfold UnleasedDb.resets UnleasedDb.used
  rw [hstates, UnleasedDb.attemptsOf_closed, List.length_map]
  cases hactive : j.state.isActive with
  | true =>
    have hused := h.used_pos hj hactive
    rw [Bool.and_true]
    exact decide_eq_true hused
  | false => exact Bool.and_false _

/-- Unclaimed attempts that do not run meet the new constraints. -/
theorem LeasedDb.leaseConstraints_hold (h : ∀ a ∈ db'.jobAttempts, a.workerId = none ∧
    a.claimToken = none ∧ a.leaseExpiresAt = none ∧ a.state ≠ .running) :
    holdsAll db'.leaseConstraints = true := by
  have htokens : db'.jobAttempts.rows.filterMap LeasedAttemptRow.claimToken = [] :=
    List.filterMap_eq_nil_iff.mpr fun a ha => (h a ha).2.1
  simp only [holdsAll, LeasedDb.leaseConstraints, List.all_cons, List.all_nil, Bool.and_true,
    Bool.and_eq_true, htokens, List.all_eq_true]
  refine ⟨fun a ha => ?_, rfl, fun a ha => ?_, fun a ha => ?_⟩
  · rw [(h a ha).1]
    rfl
  · obtain ⟨hworker, htoken, hlease, -⟩ := h a ha
    simp [LeasedAttemptRow.claimFieldsValid, hworker, htoken, hlease]
  · simp [LeasedAttemptRow.runningClaimValid, (h a ha).2.2.2]

theorem UnleasedDb.addLeases_ok (h : ∀ a ∈ db.jobAttempts, a.state ≠ .running) :
    db.addLeases = .ok db.leased := by
  have hconstraints : holdsAll db.leased.leaseConstraints = true := by
    refine LeasedDb.leaseConstraints_hold fun a ha => ?_
    obtain ⟨b, hb, rfl⟩ := List.mem_map.mp ha
    exact ⟨rfl, rfl, rfl, h b hb⟩
  have henforce : enforce db.leased.leaseConstraints = .ok () := enforce_ok_iff.mpr hconstraints
  unfold UnleasedDb.addLeases
  rw [henforce]
  rfl

/-- The migration succeeds, and touches the running attempts and the active jobs. -/
theorem leaseMigration_ok (hdeclared : db.Declared) (hconsistent : db.Consistent) (now : ℤ) :
    ∃ db', db.leaseMigration now = .ok db' ∧ db.MigratesTo now db' := by
  have hclosed : updateChecked UnleasedAttemptRow.checks db.jobAttempts db.closes (db.close now)
      (db.close_id now) =
        .ok (db.jobAttempts.update db.closes (db.close now) (db.close_id now)) :=
    updateChecked_ok fun a ha => db.close_checks (hdeclared.attempts a ha)
  have hreset : updateChecked UnleasedJobRow.checks (db.afterClose now).jobs
      (db.afterClose now).resets (fun j => j.reset now ((db.afterClose now).used j.id))
        (fun _ => rfl) =
        .ok ((db.afterClose now).jobs.update (db.afterClose now).resets
          fun j => j.reset now ((db.afterClose now).used j.id)) :=
    updateChecked_ok fun j hj => UnleasedJobRow.reset_checks (hdeclared.jobs j hj)
  have hinactive : ∀ a ∈ (db.afterClose now).jobAttempts, a.state ≠ .running := by
    intro a ha
    obtain ⟨b, hb, rfl⟩ := List.mem_map.mp ha
    exact hdeclared.closeIf_state hb
  refine ⟨UnleasedDb.leased ⟨(db.afterClose now).jobs.update (db.afterClose now).resets
    (fun j => j.reset now ((db.afterClose now).used j.id)), (db.afterClose now).jobAttempts⟩,
    ?_, ?_, ?_, ?_⟩
  · unfold UnleasedDb.leaseMigration
    rw [hclosed]
    change (updateChecked UnleasedJobRow.checks (db.afterClose now).jobs
      (db.afterClose now).resets (fun j => j.reset now ((db.afterClose now).used j.id)) _ >>= _) = _
    rw [hreset]
    exact UnleasedDb.addLeases_ok hinactive
  · rfl
  · refine List.map_congr_left fun j hj => ?_
    have hused : (db.afterClose now).used j.id = db.used j.id := by
      unfold UnleasedDb.used
      rw [UnleasedDb.attemptsOf_closed, List.length_map]
    rw [hconsistent.resets_eq hj]
    dsimp only
    rw [hused]
    rfl
  · exact List.map_map

/-! ### Attempts and jobs afterwards -/

theorem UnleasedDb.MigratesTo.attemptsOf (h : db.MigratesTo now db') (id : ℕ) :
    db'.attemptsOf id = (db.attemptsOf id).map (db.closeIf now) := by
  unfold LeasedDb.attemptsOf UnleasedDb.attemptsOf
  rw [h.attempts, List.map_map, List.filter_map]
  congr 1
  refine List.filter_congr fun a _ => ?_
  simp [UnleasedDb.closeIf_jobId]

theorem UnleasedDb.MigratesTo.numbers (h : db.MigratesTo now db') (id : ℕ) :
    (db'.attemptsOf id).map UnleasedAttemptRow.attemptNumber =
      (db.attemptsOf id).map UnleasedAttemptRow.attemptNumber := by
  rw [h.attemptsOf, List.map_map]
  exact List.map_congr_left fun a _ => db.closeIf_attemptNumber now a

theorem UnleasedDb.mem_attemptsOf {id : ℕ} :
    a ∈ db.attemptsOf id ↔ a ∈ db.jobAttempts ∧ a.jobId = id := by
  simp [UnleasedDb.attemptsOf, Table.mem_def]

theorem UnleasedDb.MigratesTo.isLast (h : db.MigratesTo now db') {id : ℕ}
    (hlast : IsLast (db.attemptsOf id) a) : IsLast (db'.attemptsOf id) (db.closeIf now a) := by
  constructor
  · rw [h.attemptsOf]
    exact List.mem_map_of_mem hlast.mem
  · intro b hb
    rw [h.attemptsOf] at hb
    obtain ⟨c, hc, rfl⟩ := List.mem_map.mp hb
    rw [UnleasedDb.closeIf_attemptNumber, UnleasedDb.closeIf_attemptNumber]
    exact hlast.highest c hc

/-- The last attempt of an active job is closed with it. -/
theorem UnleasedDb.MigratesTo.closed (h : db.MigratesTo now db') (hconsistent : db.Consistent)
    (hj : j ∈ db.jobs) (hactive : j.state.isActive = true) :
    ∃ a : UnleasedAttemptRow, IsLast (db'.attemptsOf j.id) (a.closed now j) := by
  obtain ⟨a, hlast, hrunning, -⟩ := (hconsistent.job j hj).active.mp hactive
  have hjob := (UnleasedDb.mem_attemptsOf.mp hlast.mem).2
  have hlast' := h.isLast hlast
  rw [UnleasedDb.closeIf_running hj hjob hrunning] at hlast'
  exact ⟨a, hlast'⟩

theorem UnleasedDb.MigratesTo.job (h : db.MigratesTo now db') (hj : j ∈ db.jobs) :
    db.resetIf now j ∈ db'.jobs := by
  rw [Table.mem_def, h.jobs]
  exact List.mem_map_of_mem hj

theorem UnleasedDb.MigratesTo.exists_job (h : db.MigratesTo now db') {j' : UnleasedJobRow}
    (hj' : j' ∈ db'.jobs) : ∃ j ∈ db.jobs, db.resetIf now j = j' := by
  rw [Table.mem_def, h.jobs] at hj'
  exact List.mem_map.mp hj'

theorem UnleasedDb.MigratesTo.exists_attempt (h : db.MigratesTo now db') {a' : LeasedAttemptRow}
    (ha' : a' ∈ db'.jobAttempts) : ∃ a ∈ db.jobAttempts, (db.closeIf now a).unclaimed = a' := by
  rw [Table.mem_def, h.attempts] at ha'
  exact List.mem_map.mp ha'

/-- The next number of a job, whatever the other tables hold. -/
theorem UnleasedDb.MigratesTo.nextAttemptNumber (h : db.MigratesTo now db')
    (hconsistent : db.Consistent) (hj : j ∈ db.jobs) (rest : Db) :
    TaskHarbor.nextAttemptNumber (db'.current rest) j.id = db.used j.id + 1 := by
  have hnumbers : ((db'.current rest).jobAttempts.rows.filter fun a => a.jobId == j.id).map
      AttemptRow.attemptNumber = (db'.attemptsOf j.id).map UnleasedAttemptRow.attemptNumber := by
    change ((db'.jobAttempts.rows.map LeasedAttemptRow.current).filter _).map _ = _
    unfold LeasedDb.attemptsOf
    rw [List.filter_map, List.map_map, List.filter_map, List.map_map]
    rfl
  unfold TaskHarbor.nextAttemptNumber
  rw [hnumbers, h.numbers, (hconsistent.job j hj).numbered.foldr_eq, foldr_max_range']
  rfl

/-! ### The claim on the migration -/

/-- What the migration leaves of a job that ran and has an attempt left: `claim_next` selects it
from now on, and its next attempt is allowed. -/
structure LeasedDb.Waiting (db' : LeasedDb) (now : ℤ) (j : UnleasedJobRow) : Prop where
  state : j.state = .retryWaiting
  progress : j.progressCompleted = 0
  attempt : ∃ a, IsLast (db'.attemptsOf j.id) a ∧ a.state = .failed ∧
    a.errorKind = some .transient
  claimable : ∀ rest t, now ≤ t → j.current ∈ (db'.current rest).claimable t
  room : ∀ rest, TaskHarbor.nextAttemptNumber (db'.current rest) j.id ≤ j.maxAttempts

/-- What the migration leaves of a job that ran and has no attempt left. -/
structure LeasedDb.Failed (db' : LeasedDb) (now : ℤ) (j : UnleasedJobRow) : Prop where
  state : j.state = .failed
  finished : j.finishedAt = some now
  attempt : ∃ a, IsLast (db'.attemptsOf j.id) a ∧ a.state = .failed ∧
    a.errorKind = some .transient

/-- What the migration leaves of a job with a requested cancellation. -/
structure LeasedDb.Cancelled (db' : LeasedDb) (now : ℤ) (j : UnleasedJobRow) : Prop where
  state : j.state = .cancelled
  finished : j.finishedAt = some now
  attempt : ∃ a, IsLast (db'.attemptsOf j.id) a ∧ a.state = .cancelled ∧
    a.errorKind = some .cancelled

/-- The lifecycle after the migration. -/
structure LeasedDb.Settled (db : UnleasedDb) (now : ℤ) (db' : LeasedDb) : Prop where
  attempts : ∀ a ∈ db'.jobAttempts, a.state ≠ .running
  jobs : ∀ j ∈ db'.jobs, j.state ≠ .running ∧ j.state ≠ .cancelRequested
  consistent : ∀ j ∈ db'.jobs, j.Consistent (db'.attemptsOf j.id)
  waiting : ∀ j ∈ db.jobs, j.state = .running → db.used j.id < j.maxAttempts →
    ∃ j' ∈ db'.jobs, j'.id = j.id ∧ db'.Waiting now j'
  failed : ∀ j ∈ db.jobs, j.state = .running → db.used j.id = j.maxAttempts →
    ∃ j' ∈ db'.jobs, j'.id = j.id ∧ db'.Failed now j'
  cancelled : ∀ j ∈ db.jobs, j.state = .cancelRequested →
    ∃ j' ∈ db'.jobs, j'.id = j.id ∧ db'.Cancelled now j'

/-- Everything else stays. -/
structure LeasedDb.Keeps (db : UnleasedDb) (db' : LeasedDb) : Prop where
  jobs : ∀ j ∈ db.jobs, j.state ≠ .running → j.state ≠ .cancelRequested → j ∈ db'.jobs
  attempts : ∀ a ∈ db.jobAttempts, a.state ≠ .running → a.unclaimed ∈ db'.jobAttempts
  jobIds : db'.jobs.rows.map UnleasedJobRow.id = db.jobs.rows.map UnleasedJobRow.id
  attemptIds : (db'.jobAttempts.rows.map fun a => a.id) = db.jobAttempts.rows.map fun a => a.id

/-- The constraints of the new schema. -/
structure LeasedDb.Declared (db' : LeasedDb) : Prop where
  workers : ∀ w ∈ db'.workers, holdsAll w.checks = true
  jobs : ∀ j ∈ db'.jobs, holdsAll j.checks = true
  attempts : ∀ a ∈ db'.jobAttempts, holdsAll a.checks = true
  references : ∀ a ∈ db'.jobAttempts, ∃ j ∈ db'.jobs, j.id = a.jobId
  lease : holdsAll db'.leaseConstraints = true

theorem UnleasedDb.MigratesTo.waiting (h : db.MigratesTo now db') (hconsistent : db.Consistent)
    (hj : j ∈ db.jobs) (hstate : j.state = .running) (hused : db.used j.id < j.maxAttempts) :
    db'.Waiting now (db.resetIf now j) := by
  have hactive : j.state.isActive = true := by
    rw [hstate]
    rfl
  have hreset : db.resetIf now j = j.reset now (db.used j.id) := if_pos hactive
  obtain ⟨a, hlast⟩ := h.closed hconsistent hj hactive
  obtain ⟨hfailed, hkind⟩ := UnleasedAttemptRow.closed_failed hstate
  have hwaiting : (db.resetIf now j).state = .retryWaiting := by
    simp [hreset, UnleasedJobRow.reset, hstate, hused]
  refine ⟨hwaiting, ?_, ?_, fun rest t ht => ?_, fun rest => ?_⟩
  · simp [hreset, UnleasedJobRow.reset, hstate, hused]
  · rw [db.resetIf_id]
    exact ⟨_, hlast, hfailed, hkind⟩
  · have hmem : (db.resetIf now j).current ∈ (db'.current rest).jobs :=
      List.mem_map_of_mem (h.job hj)
    have hpending : (db.resetIf now j).current.state.isPending = true := by
      change (db.resetIf now j).state.isPending = true
      rw [hwaiting]
      rfl
    have havailable : (db.resetIf now j).current.availableAt ≤ t := by
      change (db.resetIf now j).availableAt ≤ t
      simpa [hreset, UnleasedJobRow.reset, hstate, hused] using ht
    exact mem_claimable.mpr ⟨hmem, hpending, havailable⟩
  · rw [db.resetIf_id, h.nextAttemptNumber hconsistent hj, db.resetIf_maxAttempts]
    exact hused

theorem UnleasedDb.MigratesTo.failed (h : db.MigratesTo now db') (hconsistent : db.Consistent)
    (hj : j ∈ db.jobs) (hstate : j.state = .running) (hused : db.used j.id = j.maxAttempts) :
    db'.Failed now (db.resetIf now j) := by
  have hactive : j.state.isActive = true := by
    rw [hstate]
    rfl
  have hreset : db.resetIf now j = j.reset now (db.used j.id) := if_pos hactive
  obtain ⟨a, hlast⟩ := h.closed hconsistent hj hactive
  obtain ⟨hfailed, hkind⟩ := UnleasedAttemptRow.closed_failed hstate
  refine ⟨?_, ?_, ?_⟩
  · simp [hreset, UnleasedJobRow.reset, hstate, hused]
  · simp [hreset, UnleasedJobRow.reset, hused]
  · rw [db.resetIf_id]
    exact ⟨_, hlast, hfailed, hkind⟩

theorem UnleasedDb.MigratesTo.cancelled (h : db.MigratesTo now db')
    (hconsistent : db.Consistent) (hj : j ∈ db.jobs) (hstate : j.state = .cancelRequested) :
    db'.Cancelled now (db.resetIf now j) := by
  have hactive : j.state.isActive = true := by
    rw [hstate]
    rfl
  have hreset : db.resetIf now j = j.reset now (db.used j.id) := if_pos hactive
  obtain ⟨a, hlast⟩ := h.closed hconsistent hj hactive
  obtain ⟨hcancelled, hkind⟩ := UnleasedAttemptRow.closed_cancelled hstate
  refine ⟨?_, ?_, ?_⟩
  · simp [hreset, UnleasedJobRow.reset, hstate]
  · simp [hreset, UnleasedJobRow.reset, hstate]
  · rw [db.resetIf_id]
    exact ⟨_, hlast, hcancelled, hkind⟩

/-- No attempt runs any more, so the invariant says that no job is active. -/
theorem UnleasedDb.MigratesTo.consistent (h : db.MigratesTo now db') (hdeclared : db.Declared)
    (hold : j.Consistent (db.attemptsOf j.id)) :
    (db.resetIf now j).Consistent (db'.attemptsOf j.id) := by
  refine ⟨?_, ?_, ?_⟩
  · rw [h.numbers, h.attemptsOf, List.length_map]
    exact hold.numbered
  · rw [h.attemptsOf, List.length_map, UnleasedDb.resetIf_maxAttempts]
    exact hold.counted
  · rw [db.resetIf_inactive]
    constructor
    · intro hactive
      cases hactive
    · rintro ⟨a, hlast, hrunning, -⟩
      have hmem := hlast.mem
      rw [h.attemptsOf] at hmem
      obtain ⟨b, hb, rfl⟩ := List.mem_map.mp hmem
      exact absurd hrunning (hdeclared.closeIf_state (UnleasedDb.mem_attemptsOf.mp hb).1)

theorem UnleasedDb.MigratesTo.settled (h : db.MigratesTo now db') (hdeclared : db.Declared)
    (hconsistent : db.Consistent) : LeasedDb.Settled db now db' := by
  refine ⟨fun a' ha' => ?_, fun j' hj' => ?_, fun j' hj' => ?_, fun j hj hstate hused => ?_,
    fun j hj hstate hused => ?_, fun j hj hstate => ?_⟩
  · obtain ⟨a, ha, rfl⟩ := h.exists_attempt ha'
    exact hdeclared.closeIf_state ha
  · obtain ⟨j, -, rfl⟩ := h.exists_job hj'
    have hinactive := db.resetIf_inactive now j
    constructor <;> (intro hstate; rw [hstate] at hinactive; cases hinactive)
  · obtain ⟨j, hj, rfl⟩ := h.exists_job hj'
    rw [UnleasedDb.resetIf_id]
    exact h.consistent hdeclared (hconsistent.job j hj)
  · exact ⟨_, h.job hj, db.resetIf_id now j, h.waiting hconsistent hj hstate hused⟩
  · exact ⟨_, h.job hj, db.resetIf_id now j, h.failed hconsistent hj hstate hused⟩
  · exact ⟨_, h.job hj, db.resetIf_id now j, h.cancelled hconsistent hj hstate⟩

theorem UnleasedDb.MigratesTo.keeps (h : db.MigratesTo now db') : LeasedDb.Keeps db db' := by
  refine ⟨fun j hj hrunning hcancel => ?_, fun a ha hstate => ?_, ?_, ?_⟩
  · have hinactive : ¬j.state.isActive = true := by
      cases hs : j.state <;> simp_all [JobStatus.isActive]
    have hmem := h.job hj
    rwa [UnleasedDb.resetIf, if_neg hinactive] at hmem
  · rw [Table.mem_def, h.attempts]
    refine List.mem_map.mpr ⟨a, ha, ?_⟩
    rw [UnleasedDb.closeIf_of_not_running hstate]
    rfl
  · rw [h.jobs, List.map_map]
    exact List.map_congr_left fun j _ => db.resetIf_id now j
  · rw [h.attempts, List.map_map]
    refine List.map_congr_left fun a _ => ?_
    change (db.closeIf now a).id = a.id
    unfold UnleasedDb.closeIf
    split
    · exact db.close_id now a
    · rfl

theorem UnleasedDb.MigratesTo.declared (h : db.MigratesTo now db') (hdeclared : db.Declared) :
    db'.Declared := by
  refine ⟨fun w hw => ?_, fun j' hj' => ?_, fun a' ha' => ?_, fun a' ha' => ?_, ?_⟩
  · rw [h.workers] at hw
    exact absurd hw (Table.not_mem_empty w)
  · obtain ⟨j, hj, rfl⟩ := h.exists_job hj'
    have hchecks := hdeclared.jobs j hj
    unfold UnleasedDb.resetIf
    split
    · exact UnleasedJobRow.reset_checks hchecks
    · exact hchecks
  · obtain ⟨a, ha, rfl⟩ := h.exists_attempt ha'
    have hchecks := hdeclared.attempts a ha
    change holdsAll (db.closeIf now a).checks = true
    unfold UnleasedDb.closeIf
    split
    · exact db.close_checks hchecks
    · exact hchecks
  · obtain ⟨a, ha, rfl⟩ := h.exists_attempt ha'
    obtain ⟨j, hj, hjob⟩ := hdeclared.references a ha
    refine ⟨_, h.job hj, ?_⟩
    rw [db.resetIf_id, hjob]
    exact (db.closeIf_jobId now a).symm
  · refine LeasedDb.leaseConstraints_hold fun a' ha' => ?_
    obtain ⟨a, ha, rfl⟩ := h.exists_attempt ha'
    exact ⟨rfl, rfl, rfl, hdeclared.closeIf_state ha⟩

/-- The lease migration succeeds on every consistent database. Afterwards nothing is active, each
job that ran waits or has failed, each requested cancellation is done, the rest is unchanged, and
every constraint holds. -/
theorem lease_migration_settles (hdeclared : db.Declared) (hconsistent : db.Consistent) (now : ℤ) :
    ∃ db', db.leaseMigration now = .ok db' ∧ LeasedDb.Settled db now db' ∧
      LeasedDb.Keeps db db' ∧ db'.Declared := by
  obtain ⟨db', hok, h⟩ := leaseMigration_ok hdeclared hconsistent now
  exact ⟨db', hok, h.settled hdeclared hconsistent, h.keeps, h.declared hdeclared⟩

end Migration

/-- A demo job whose only attempt of three runs. -/
def sampleUnleased : UnleasedDb where
  jobs := ⟨[⟨1, "demo", .demoDelay, .running, 0, 1, 2, 500, none, none, 0, some 0, none, none, none,
    none, 3, none, none, .normal, none, none⟩], 2, by decide, by decide, by decide⟩
  jobAttempts := ⟨[⟨1, 1, 1, .running, 1, 2, 0, none, none, none, none⟩], 2,
    by decide, by decide, by decide⟩

theorem sampleUnleased_declared : sampleUnleased.Declared where
  jobs := by
    intro j hj
    rw [List.mem_singleton.mp hj]
    decide +kernel
  attempts := by
    intro a ha
    rw [List.mem_singleton.mp ha]
    decide +kernel
  references := by
    intro a ha
    rw [List.mem_singleton.mp ha]
    exact ⟨_, List.mem_singleton_self _, rfl⟩

theorem sampleUnleased_consistent : sampleUnleased.Consistent where
  job := by
    intro j hj
    rw [List.mem_singleton.mp hj]
    refine ⟨List.Perm.refl _, by decide, fun _ => ?_, fun _ => rfl⟩
    refine ⟨_, ⟨List.mem_singleton_self _, fun b hb => ?_⟩, rfl, fun b hb _ => ?_⟩
    · rw [List.mem_singleton.mp hb]
    · exact List.mem_singleton.mp hb

theorem lease_migration_settles_sample : ∃ db', sampleUnleased.leaseMigration 7 = .ok db' ∧
    ∃ j ∈ db'.jobs, j.id = 1 ∧ j.state = .retryWaiting := by
  obtain ⟨db', hok, hsettled, -⟩ :=
    lease_migration_settles sampleUnleased_declared sampleUnleased_consistent 7
  obtain ⟨j, hj, hid, hwaiting⟩ :=
    hsettled.waiting _ (List.mem_singleton_self _) rfl (by decide +kernel)
  exact ⟨db', hok, j, hj, hid, hwaiting.state⟩

end TaskHarbor
