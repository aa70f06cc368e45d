import TaskHarbor.Lifecycle.Births
import TaskHarbor.System.Machine

/-! What every reachable state satisfies, and what every run keeps: the invariant of the database,
and the rows behind every claim that was ever returned. -/
namespace TaskHarbor

open Relational Transaction Runs

/-! ### Issued claims -/

section Issued

variable {now : ℤ} {db db' : Db}

/-- The work of a claim depends on fixed columns and on the inputs only. -/
theorem claimedWork_congr {r r' : JobRow} (hr : r'.template = r.template)
    (hinputs : db'.artifactsOf r.id .input = db.artifactsOf r.id .input) :
    claimedWork r' db' = claimedWork r db := by
  have hid : r'.id = r.id := (congrArg JobRow.id hr :)
  have htype : r'.jobType = r.jobType := (congrArg JobRow.jobType hr :)
  have hdelay : r'.delayMs = r.delayMs := (congrArg JobRow.delayMs hr :)
  have hwidth : r'.maxWidth = r.maxWidth := (congrArg JobRow.maxWidth hr :)
  have hquality : r'.jpegQuality = r.jpegQuality := (congrArg JobRow.jpegQuality hr :)
  have htotal : r'.progressTotal = r.progressTotal := (congrArg JobRow.progressTotal hr :)
  have hload : loadInputArtifacts db' r.id = loadInputArtifacts db r.id := by
    unfold Db.artifactsOf at hinputs
    rw [loadInputArtifacts, loadInputArtifacts, hinputs]
  unfold claimedWork
  rw [hid, htype, hdelay, hwidth, hquality, htotal, hload]

/-- The rows behind a claim stay. -/
theorem ClaimedJob.Issued.turns {claimed : ClaimedJob} (h : claimed.Issued db)
    (hturns : db.Turns now db') : claimed.Issued db' := by
  obtain ⟨a, ha, hjob, hnumber, howner, htoken⟩ := h.attempt
  obtain ⟨r, hr, hmax, hwork⟩ := h.job
  have hkeeps := (hturns claimed.jobId.get).keeps
  have hmem : a ∈ (db.view claimed.jobId.get).attempts :=
    mem_attemptsOf.mpr ⟨Table.mem_of_get? ha, hjob⟩
  obtain ⟨a', ha', hbecomes⟩ := hkeeps.attempts a hmem
  obtain ⟨r', hr', htemplate⟩ := hkeeps.job r hr
  have hinputs : db'.artifactsOf claimed.jobId.get .input =
      db.artifactsOf claimed.jobId.get .input := by
    refine hkeeps.inputs ?_
    change (db.jobs.get? claimed.jobId.get).isSome = true
    rw [hr]
    rfl
  have hid : a'.id = claimed.attemptId :=
    (congrArg AttemptRow.id hbecomes.template :).trans (Table.key_of_get? ha)
  refine ⟨⟨a', ?_, ?_, ?_, ?_, ?_⟩, ⟨r', hr', ?_, ?_⟩⟩
  · exact Table.get?_eq_some.mpr ⟨(mem_attemptsOf.mp ha').1, hid⟩
  · exact (congrArg AttemptRow.jobId hbecomes.template :).trans hjob
  · exact (congrArg AttemptRow.attemptNumber hbecomes.template :).trans hnumber
  · exact (congrArg AttemptRow.workerId hbecomes.template :).trans howner
  · exact (congrArg AttemptRow.claimToken hbecomes.template :).trans htoken
  · exact (congrArg JobRow.maxAttempts htemplate :).trans hmax
  · have hrid : r.id = claimed.jobId.get := Table.key_of_get? hr
    rw [← hrid] at hinputs
    rw [claimedWork_congr htemplate hinputs, hwork]

/-- A lost claim stays lost. -/
theorem ClaimedJob.Lost.turns {claimed : ClaimedJob} (hissued : claimed.Issued db)
    (h : claimed.Lost db now) (hturns : db.Turns now db') {t : ℤ} (ht : now ≤ t) :
    claimed.Lost db' t := by
  obtain ⟨a, ha, hjob, -⟩ := hissued.attempt
  have hmem : a ∈ (db.view claimed.jobId.get).attempts :=
    mem_attemptsOf.mpr ⟨Table.mem_of_get? ha, hjob⟩
  obtain ⟨a', ha', hbecomes⟩ := (hturns claimed.jobId.get).keeps.attempts a hmem
  have hid : a'.id = claimed.attemptId :=
    (congrArg AttemptRow.id hbecomes.template :).trans (Table.key_of_get? ha)
  intro b hb
  obtain rfl : b = a' := Table.key_inj (Table.mem_of_get? hb) (mem_attemptsOf.mp ha').1
    ((Table.key_of_get? hb).trans hid.symm)
  exact hbecomes.dead (h a ha) ht

end Issued

/-! ### Steps -/

/-- What an operation does to schedules. -/
def Op.Makes (op : Op) (request : NewSchedule) : Prop := op = .createSchedule request

def Op.Edits (op : Op) (id : ℕ) (request : UpdateSchedule) (asOf : ℤ) : Prop :=
  ∃ scheduleId owner, scheduleId.get = id ∧ op = .updateSchedule scheduleId request asOf owner

/-- The operation is this upload. -/
def Op.Uploads (op : Op) (request : NewImageJob) : Prop := op = .createImageJob request

def Op.Runs (op : Op) (asOf : ℤ) : Prop := ∃ locked, op = .materialize asOf locked

/-- The invariant of the system. -/
structure System.Inv (s : System) : Prop where
  db : s.db.Inv
  issued : ∀ claimed ∈ s.claims, claimed.Issued s.db

section Steps

variable {s t : System} {op : Op}

theorem System.step_claim (h : s.step op = some t) {claimed : ClaimedJob}
    (hc : op.claim = some claimed) : claimed ∈ s.claims := by
  have henabled := (System.step_eq_some.mp h).1
  simp only [Op.enabled, Bool.and_eq_true, hc, Option.all_some, List.contains_eq_mem,
    decide_eq_true_eq] at henabled
  exact henabled.1.1

theorem System.step_clock (h : s.step op = some t) {asOf : ℤ} (hc : op.clock = some asOf) :
    asOf ∈ s.reads := by
  have henabled := (System.step_eq_some.mp h).1
  simp only [Op.enabled, Bool.and_eq_true, hc, Option.all_some, List.contains_eq_mem,
    decide_eq_true_eq] at henabled
  exact henabled.1.2

theorem System.apply_now (s : System) (op : Op) :
    (s.apply op).now = match op with
      | .tick now => now
      | _ => s.now := by
  cases op <;> simp only [System.apply, System.run, System.runClaim]

theorem System.step_now (h : s.step op = some t) : s.now ≤ t.now := by
  obtain ⟨henabled, rfl⟩ := System.step_eq_some.mp h
  rw [System.apply_now]
  cases op with
  | tick now =>
    simp only [Op.enabled, Bool.and_eq_true, decide_eq_true_eq] at henabled
    exact henabled.2
  | _ => exact le_rfl

/-- A session that is not about schedules, as a step. -/
theorem System.run_steps {α : Type} {x : Session α}
    (h : Session.Moves (Db.Evolves s.now) x s.db) :
    s.db.Steps op.Makes op.Edits op.Runs s.now (s.run x).db := Db.Evolves.steps h

theorem System.runClaim_steps {x : Session (Option ClaimedJob)}
    (h : Session.Moves (Db.Evolves s.now) x s.db) :
    s.db.Steps op.Makes op.Edits op.Runs s.now (s.runClaim x).db := Db.Evolves.steps h

/-- Every step lets each job and each schedule make one step of its own. -/
theorem System.step_db (hinv : s.Inv) (h : s.step op = some t) :
    s.db.Steps op.Makes op.Edits op.Runs s.now t.db := by
  have hissued : ∀ claimed, op.claim = some claimed → claimed.Issued s.db :=
    fun claimed hc => hinv.issued claimed (System.step_claim h hc)
  obtain ⟨-, rfl⟩ := System.step_eq_some.mp h
  have hrefl : s.db.Evolves s.now s.db := .refl _ _
  cases op with
  | create name => exact System.run_steps (create_moves name s.now s.db)
  | createImageJob request => exact System.run_steps (createImageJob_moves request s.now s.db)
  | manualRetry id owner => exact System.run_steps (manualRetry_moves hinv.db)
  | requestCancel id owner => exact System.run_steps requestCancel_moves
  | registerWorker registration asOf => exact System.run_steps registerWorker_moves
  | heartbeatWorker workerId ttl asOf => exact System.run_steps heartbeatWorker_moves
  | stopWorker workerId => exact System.run_steps stopWorker_moves
  | claimNext workerId claimToken locked => exact System.runClaim_steps claimNext_moves
  | renewLease claimed => exact System.run_steps renewLease_moves
  | updateProgress claimed completed => exact System.run_steps updateProgress_moves
  | recordEncodingDuration claimed duration =>
    exact System.run_steps (recordEncodingDuration_moves (hissued claimed rfl))
  | recordFailure claimed duration kind message =>
    exact System.run_steps (recordFailure_moves (hissued claimed rfl))
  | finishCancelled claimed duration => exact System.run_steps finishCancelled_moves
  | complete claimed duration => exact System.run_steps complete_moves
  | completeImageJob claimed duration outputs =>
    exact System.run_steps (completeImageJob_moves (hissued claimed rfl))
  | reclaim asOf locked => exact System.run_steps reclaimNextExpiredAttemptAt_moves
  | createSchedule request => exact ⟨createSchedule_turns, createSchedule_plans rfl⟩
  | updateSchedule id request asOf owner =>
    exact ⟨updateScheduleAtWithOwner_turns,
      updateScheduleAtWithOwner_plans hinv.db.schedules fun _ => ⟨id, owner, rfl, rfl⟩⟩
  | materialize asOf locked =>
    exact ⟨materializeNextScheduleAt_turns hinv.db.schedules,
      materializeNextScheduleAt_plans ⟨locked, rfl⟩⟩
  | expireOutputs retentionSeconds => exact System.run_steps expireOutputArtifacts_moves
  | tick now => exact hrefl.steps
  | readClock => exact hrefl.steps

theorem System.run_grows {α : Type} {x : Session α}
    (h : Session.Moves (Db.Grows op.Uploads s.now) x s.db) :
    s.db.Grows op.Uploads s.now (s.run x).db := h

theorem System.run_stays {α : Type} {x : Session α} (h : Session.Moves Db.Stays x s.db) :
    s.db.Grows op.Uploads s.now (s.run x).db := Db.Stays.grows h

theorem System.runClaim_grows {x : Session (Option ClaimedJob)}
    (h : Session.Moves (Db.Grows op.Uploads s.now) x s.db) :
    s.db.Grows op.Uploads s.now (s.runClaim x).db := h

/-- The new rows of every step come from the creations and from claims. -/
theorem System.step_grows (hinv : s.Inv) (h : s.step op = some t) :
    s.db.Grows op.Uploads s.now t.db := by
  obtain ⟨-, rfl⟩ := System.step_eq_some.mp h
  have hrefl : ∀ now, s.db.Grows op.Uploads now s.db := fun _ => (Db.Stays.refl s.db).grows
  cases op with
  | create name => exact System.run_grows (create_grows hinv.db)
  | createImageJob request => exact System.run_grows (createImageJob_grows hinv.db rfl)
  | manualRetry id owner => exact System.run_grows (manualRetry_grows hinv.db)
  | requestCancel id owner => exact System.run_stays requestCancel_stays
  | registerWorker registration asOf => exact System.run_stays registerWorker_stays
  | heartbeatWorker workerId ttl asOf => exact System.run_stays heartbeatWorker_stays
  | stopWorker workerId => exact System.run_stays stopWorker_stays
  | claimNext workerId claimToken locked => exact System.runClaim_grows claimNext_grows
  | renewLease claimed => exact System.run_stays renewLease_stays
  | updateProgress claimed completed => exact System.run_stays updateProgress_stays
  | recordEncodingDuration claimed duration => exact System.run_stays recordEncodingDuration_stays
  | recordFailure claimed duration kind message => exact System.run_stays recordFailure_stays
  | finishCancelled claimed duration => exact System.run_stays finishCancelled_stays
  | complete claimed duration => exact System.run_stays complete_stays
  | completeImageJob claimed duration outputs => exact System.run_stays completeImageJob_stays
  | reclaim asOf locked => exact System.run_stays reclaimNextExpiredAttemptAt_stays
  | createSchedule request => exact System.run_stays createSchedule_stays
  | updateSchedule id request asOf owner => exact System.run_stays updateScheduleAtWithOwner_stays
  | materialize asOf locked => exact System.run_grows (materializeNextScheduleAt_grows hinv.db)
  | expireOutputs retentionSeconds => exact System.run_stays expireOutputArtifacts_stays
  | tick now => exact hrefl _
  | readClock => exact hrefl _

/-- A claim in the answer of `claim_next` is issued. -/
theorem claimNext_issued {now : ℤ} {db : Db} {workerId claimToken : Uuid} {asOf : Option ℤ}
    {locked : List ℕ} {claimed : ClaimedJob}
    (h : claimed ∈ returnedClaim (claimNext workerId asOf now claimToken locked db).1) :
    claimed.Issued (claimNext workerId asOf now claimToken locked db).2 := by
  unfold claimNext at h ⊢
  rcases commit_cases (claimNextWithTime workerId asOf now claimToken locked) db with
    ⟨result, db', htx, hc⟩ | ⟨e, -, hc⟩
  · rw [hc] at h ⊢
    rcases claimNextWithTime_ok htx with ⟨rfl, -⟩ | ⟨candidate, worker, issued, rfl, hclaims⟩
    · cases h
    · obtain rfl : claimed = issued := List.mem_singleton.mp h
      exact hclaims.issued
  · rw [hc] at h
    cases h

theorem System.apply_claims (s : System) (op : Op) :
    (s.apply op).claims = match op with
      | .claimNext workerId claimToken locked =>
          returnedClaim (TaskHarbor.claimNext workerId none s.now claimToken locked s.db).1 ++
            s.claims
      | _ => s.claims := by
  cases op <;> simp only [System.apply, System.run, System.runClaim]

theorem System.claims_subset (s : System) (op : Op) : s.claims ⊆ (s.apply op).claims := by
  rw [System.apply_claims]
  cases op with
  | claimNext workerId claimToken locked => exact List.subset_append_right _ _
  | _ => exact List.Subset.refl s.claims

theorem System.runClaim_issued {x : Session (Option ClaimedJob)} {claimed : ClaimedJob}
    (hx : claimed ∈ returnedClaim (x s.db).1 → claimed.Issued (x s.db).2)
    (h : claimed ∈ returnedClaim (x s.db).1) : claimed.Issued (s.runClaim x).db := hx h

/-- A claim is held from before, or it was issued by this step. -/
theorem System.mem_claims {claimed : ClaimedJob} (h : claimed ∈ (s.apply op).claims) :
    claimed ∈ s.claims ∨ claimed.Issued (s.apply op).db := by
  rw [System.apply_claims] at h
  cases op with
  | claimNext workerId claimToken locked =>
    rcases List.mem_append.mp h with h | h
    · exact Or.inr (System.runClaim_issued claimNext_issued h)
    · exact Or.inl h
  | _ => exact Or.inl h

theorem System.Inv.step (hinv : s.Inv) (h : s.step op = some t) : t.Inv := by
  have hsteps := System.step_db hinv h
  refine ⟨hinv.db.steps hsteps, ?_⟩
  obtain ⟨-, rfl⟩ := System.step_eq_some.mp h
  intro claimed hc
  rcases System.mem_claims hc with hc | hissued
  · exact (hinv.issued claimed hc).turns hsteps.turns
  · exact hissued

end Steps

/-! ### Runs -/

section Runs

variable {ok : System → Op → Prop} {s t : System}

theorem System.Inv.initial (now : ℤ) : (System.initial now).Inv :=
  ⟨Db.Inv.empty, fun _ h => nomatch h⟩

theorem System.Inv.run (hinv : s.Inv) (h : Run System.step ok s t) : t.Inv :=
  h.invariant (fun _ _ _ hinv _ hstep => hinv.step hstep) hinv

theorem System.Reachable.inv (h : s.Reachable) : s.Inv := by
  obtain ⟨now, hrun⟩ := h
  exact (System.Inv.initial now).run hrun

theorem System.Reachable.run (hs : s.Reachable) (h : Run System.step ok s t) : t.Reachable := by
  obtain ⟨now, hrun⟩ := hs
  exact ⟨now, hrun.trans h.always⟩

/-- What every step from an invariant state respects, every run respects. -/
theorem System.Inv.related {R : System → System → Prop} (hinv : s.Inv)
    (h : Run System.step ok s t) (hrefl : ∀ s, R s s)
    (htrans : ∀ s t u, R s t → R t u → R s u)
    (hstep : ∀ s op t, s.Inv → ok s op → s.step op = some t → R s t) : R s t :=
  h.related hrefl htrans (fun s op t hinv hok he => ⟨hinv.step he, hstep s op t hinv hok he⟩) hinv

theorem System.run_claims (h : Run System.step ok s t) : s.claims ⊆ t.claims := by
  induction h with
  | refl => exact List.Subset.refl _
  | tail op _ _ hstep ih =>
    obtain ⟨-, rfl⟩ := System.step_eq_some.mp hstep
    exact List.Subset.trans ih (System.claims_subset _ op)

end Runs

end TaskHarbor
