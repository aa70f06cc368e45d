import TaskHarbor.Lifecycle.Progress
import TaskHarbor.System.Readers

/-! Progress over whole runs. A running attempt is as far as its job, no attempt goes back, and the
error of `update_progress` tells its holder that the job is being cancelled. -/
namespace TaskHarbor

open Relational Transaction Runs

/-! ### Totals -/

/-- No job has more units of work than a request may have files. -/
def Db.Bounded (db : Db) : Prop := ∀ r ∈ db.jobs, r.progressTotal ≤ maxFilesPerJob

section Totals

variable {uploads : NewImageJob → Prop} {now : ℤ} {db db' : Db}

theorem Origin.total_le {r : JobRow} {inputs : List ArtifactRow}
    (h : Origin uploads db now r inputs) (hbounded : db.Bounded) (hr : r.Sound) :
    r.progressTotal ≤ maxFilesPerJob := by
  have himage (himage : r.jobType = .imageResize) : r.progressTotal ≤ maxFilesPerJob := by
    obtain ⟨-, -, -, -, hitems, -⟩ := JobRow.checks_iff.mp hr.checks
    exact (hitems.resolve_left (not_not.mpr himage)).2
  cases h with
  | demo name row none =>
    rw [row]
    show 1 ≤ maxFilesPerJob
    decide
  | upload request uploads valid storable row indexes => exact himage (by rw [row]; rfl)
  | retry source stored ended row copied =>
    rw [row]
    exact hbounded source (Table.mem_of_get? stored)
  | occurrence candidate scheduledFor stored free row copied => exact himage (by rw [row]; rfl)

theorem Db.Bounded.step (hturns : db.Turns now db') (hgrows : db.Grows uploads now db')
    (hinv : db'.Inv) (h : db.Bounded) : db'.Bounded := by
  intro r hr
  have hget : db'.jobs.get? r.id = some r := Table.get?_key hr
  cases hold : db.jobs.get? r.id with
  | none =>
    obtain ⟨-, -, horigin⟩ := hgrows.jobs r.id r hold hget
    exact horigin.total_le h ((hinv.readable r.id).job r hget)
  | some r₀ =>
    obtain ⟨r', hr', htemplate⟩ := (hturns r.id).keeps.job r₀ hold
    obtain rfl : r = r' := Option.some.inj (hget.symm.trans hr')
    have htotal : r.progressTotal = r₀.progressTotal :=
      (congrArg JobRow.progressTotal htemplate :)
    rw [htotal]
    exact h r₀ (Table.mem_of_get? hold)

end Totals

/-! ### Reachable states -/

section Reachable

variable {s t : System}

theorem System.Reachable.bounded (hs : s.Reachable) : s.db.Bounded := by
  obtain ⟨start, hrun⟩ := hs
  have hall : s.Inv ∧ s.db.Bounded := by
    refine hrun.invariant (P := fun s => s.Inv ∧ s.db.Bounded) ?_
      ⟨.initial start, fun r hr => by cases hr⟩
    rintro s op t ⟨hinv, h⟩ - he
    exact ⟨hinv.step he, h.step (System.step_db hinv he).turns (System.step_grows hinv he)
      (hinv.step he).db⟩
  exact hall.2

theorem System.Reachable.tallied (hs : s.Reachable) (id : ℕ) : (s.db.view id).Tallied := by
  obtain ⟨start, hrun⟩ := hs
  have hall : s.Inv ∧ ∀ id, (s.db.view id).Tallied := by
    refine hrun.invariant (P := fun s => s.Inv ∧ ∀ id, (s.db.view id).Tallied) ?_ ?_
    · rintro s op t ⟨hinv, h⟩ - he
      exact ⟨hinv.step he, fun id => ((System.step_db hinv he).turns id).tallied (h id)⟩
    · refine ⟨.initial start, fun id => ⟨?_, ?_, ?_⟩⟩ <;> intro r hr <;> cases hr
  exact hall.2 id

/-- Whatever happens, an attempt is never shown with less progress. -/
theorem progress_run {ok : System → Op → Prop} (hinv : s.Inv) (hrun : Run System.step ok s t)
    {a : AttemptRow} (ha : a ∈ s.db.jobAttempts) :
    ∃ a' ∈ t.db.jobAttempts, a'.jobId = a.jobId ∧ a.Advances a' := by
  refine (hrun.invariant (P := fun t => t.Inv ∧ ∃ a' ∈ t.db.jobAttempts, a'.jobId = a.jobId ∧
    a.Advances a') ?_ ⟨hinv, a, ha, rfl, .refl a⟩).2
  rintro u op v ⟨hinv, b, hb, hjob, hadvances⟩ - he
  have hmem : b ∈ (u.db.view a.jobId).attempts := mem_attemptsOf.mpr ⟨hb, hjob⟩
  obtain ⟨c, hc, hadvances'⟩ := ((System.step_db hinv he).turns a.jobId).advances
    (hinv.db.readable a.jobId) b hmem
  obtain ⟨hc, hjob'⟩ := mem_attemptsOf.mp hc
  exact ⟨hinv.step he, c, hc, hjob', hadvances.trans hadvances'⟩

end Reachable

/-! ### The answer of `update_progress` -/

section Update

variable {claimed : ClaimedJob} {now : ℤ} {db : Db} {a : AttemptRow} {r : JobRow} {n : ℕ}

/-- While the job is being cancelled the attempt row is still writable, and the count of the job
rows gives the cancel away. -/
theorem updateProgressTx_cancelling (hlive : claimed.Live now db a r)
    (hs : r.state = .cancelRequested)
    (hn : betweenProgress n a.progressCompleted a.progressTotal = true) :
    updateProgressTx claimed n now db = .error (.stateConflict "update job progress") := by
  have hpin : ∀ b : AttemptRow, (claimed.fences now b &&
      betweenProgress n b.progressCompleted b.progressTotal) = true → b.id = claimed.attemptId := by
    intro b hb
    rw [Bool.and_eq_true] at hb
    exact fences_pin b hb.1
  have hattempt : updateAttempts (fun a => claimed.fences now a &&
      betweenProgress n a.progressCompleted a.progressTotal)
      (fun a => { a with progressCompleted := n }) (by intro r; rfl) db =
      .ok (1, db.setAttempt { a with progressCompleted := n }) := by
    refine (updateAttempts_one hpin).mpr ⟨a, hlive.attempt, ?_, rfl⟩
    rw [Bool.and_eq_true]
    exact ⟨hlive.fences, hn⟩
  have hcount : db.jobs.count (fun r => r.isAt claimed.jobId.get .running &&
      betweenProgress n r.progressCompleted r.progressTotal) = 0 := by
    refine Table.count_eq_zero.mpr fun r' hr' => ?_
    by_contra hsel
    rw [Bool.not_eq_false, Bool.and_eq_true] at hsel
    obtain ⟨hid, hrunning⟩ := JobRow.isAt_iff.mp hsel.1
    obtain rfl : r = r' :=
      Table.key_inj (Table.mem_of_get? hlive.job) hr' ((Table.key_of_get? hlive.job).trans hid.symm)
    rw [hs] at hrunning
    cases hrunning
  unfold updateProgressTx
  rw [Tx.bind_run, hattempt]
  show (do liftM (ensureOneRow (db.jobs.count _) "update job progress") : Tx Unit) _ = _
  rw [hcount]
  rfl

theorem updateProgressTx_running (hlive : claimed.Live now db a r) (hs : r.state = .running)
    (ha : betweenProgress n a.progressCompleted a.progressTotal = true)
    (hr : betweenProgress n r.progressCompleted r.progressTotal = true) :
    ∃ db', updateProgressTx claimed n now db = .ok ((), db') :=
  ⟨_, updateProgressTx_ok.mpr ⟨a, r, hlive, hs, ha, hr, rfl⟩⟩

/-- With equal progress in both rows, the answer is decided by the state of the job. -/
theorem updateProgress_answer (hlive : claimed.Live now db a r) (hactive : r.state.isActive = true)
    (hsmall : n ≤ i32Max) (ha : betweenProgress n a.progressCompleted a.progressTotal = true)
    (hr : betweenProgress n r.progressCompleted r.progressTotal = true) :
    ((updateProgress claimed n now db).1 = .ok () ↔ r.state = .running) ∧
    (updateProgress claimed n now db =
      (.error (.stateConflict "update job progress"), db) ↔ r.state = .cancelRequested) := by
  have hcommit : updateProgress claimed n now db = commit (updateProgressTx claimed n now) db := by
    unfold updateProgress
    rw [if_neg (not_lt.mpr hsmall)]
  rw [hcommit]
  by_cases hs : r.state = .running
  · obtain ⟨db', htx⟩ := updateProgressTx_running hlive hs ha hr
    rw [commit_ok htx]
    refine ⟨by simp [hs], fun h => ?_, fun h => ?_⟩
    · cases (Prod.mk.inj h).1
    · rw [hs] at h
      cases h
  · have hcancel : r.state = .cancelRequested := by
      cases hstate : r.state <;> simp_all [JobStatus.isActive]
    rw [commit_error (updateProgressTx_cancelling hlive hcancel ha)]
    simp [hcancel]

end Update

/-- The progress of a running attempt is that of its job, successes are full, a waiting job is at
zero, no attempt goes back, and `update_progress` conflicts exactly when a cancel was requested. -/
theorem progress_agrees {s : System} (hs : s.Reachable) :
    (∀ r ∈ s.db.jobs, r.state.isActive = true →
      (∃ a ∈ s.db.attemptsOf r.id, a.state = .running) ∧
      ∀ a ∈ s.db.attemptsOf r.id, a.state = .running →
        a.progressCompleted = r.progressCompleted ∧ a.progressTotal = r.progressTotal) ∧
    (∀ a ∈ s.db.jobAttempts, a.progressCompleted ≤ a.progressTotal ∧
      ∀ t, Run System.step Always s t →
        ∃ a' ∈ t.db.jobAttempts, a'.jobId = a.jobId ∧ a.Advances a') ∧
    (∀ r ∈ s.db.jobs, r.state = .succeeded → r.progressCompleted = r.progressTotal ∧
      (∃ a ∈ s.db.attemptsOf r.id, a.state = .succeeded) ∧
      ∀ a ∈ s.db.attemptsOf r.id, a.state = .succeeded → a.progressCompleted = a.progressTotal) ∧
    (∀ r ∈ s.db.jobs, r.state = .retryWaiting → r.progressCompleted = 0) ∧
    ∀ (claimed : ClaimedJob) (a : AttemptRow) (r : JobRow), claimed.Live s.now s.db a r →
      ∀ n, r.progressCompleted ≤ n → n ≤ r.progressTotal →
        ((updateProgress claimed n s.now s.db).1 = .ok () ↔ r.state = .running) ∧
        (updateProgress claimed n s.now s.db =
          (.error (.stateConflict "update job progress"), s.db) ↔ r.state = .cancelRequested) := by
  have hinv := hs.inv.db
  refine ⟨?_, ?_, ?_, ?_, ?_⟩
  · intro r hr hactive
    have hget : (s.db.view r.id).job = some r := Table.get?_key hr
    exact ⟨((hinv.lifecycle r.id).course r hget).admits.running_iff.mpr hactive,
      hs.paced r.id r hget⟩
  · intro a ha
    have hsound := (hinv.readable a.jobId).attempts a (mem_attemptsOf.mpr ⟨ha, rfl⟩)
    exact ⟨hsound.progress.2, fun t hrun => progress_run hs.inv hrun ha⟩
  · intro r hr hdone
    have hget : (s.db.view r.id).job = some r := Table.get?_key hr
    have htallied := hs.tallied r.id
    have hadmits := ((hinv.lifecycle r.id).course r hget).admits
    rw [hdone] at hadmits
    obtain ⟨earlier, a, hlast, -, ha⟩ := hadmits
    have hlast : s.db.attemptsOf r.id = earlier ++ [a] := hlast
    exact ⟨htallied.succeeded r hget hdone, ⟨a, by simp [hlast], ha⟩, htallied.attempts⟩
  · intro r hr hwaiting
    exact (hs.tallied r.id).waiting r (Table.get?_key hr) hwaiting
  · intro claimed a r hlive n hmin hmax
    have hmem := Table.mem_of_get? hlive.attempt
    have hjob : s.db.jobs.get? a.jobId = some r := by
      rw [hlive.jobId]
      exact hlive.job
    have hpaced := hs.paced a.jobId r hjob a (mem_attemptsOf.mpr ⟨hmem, rfl⟩) hlive.running
    have hactive : r.state.isActive = true := by
      refine ((hinv.lifecycle a.jobId).course r hjob).admits.running_iff.mp ?_
      exact ⟨a, mem_attemptsOf.mpr ⟨hmem, rfl⟩, hlive.running⟩
    have hbound := hs.bounded r (Table.mem_of_get? hjob)
    have hbetween : betweenProgress n r.progressCompleted r.progressTotal = true := by
      simp [betweenProgress, hmin, hmax]
    refine updateProgress_answer hlive hactive ?_ ?_ hbetween
    · have : maxFilesPerJob ≤ i32Max := by decide
      omega
    · rw [hpaced.1, hpaced.2]
      exact hbetween

theorem progress_agrees_claimed : ∃ s : System, s.Reachable ∧
    ∃ r ∈ s.db.jobs, r.state = .running ∧ ∃ a ∈ s.db.attemptsOf r.id, a.state = .running := by
  have hrun : (exec System.step (System.initial 0) sampleClaimOps).any
      (fun s => (s.db.jobs.get? 1).any fun r => r.state == .running) = true := by
    decide +kernel
  obtain ⟨s, hexec, hjob⟩ := (Option.any_eq_true _ _).mp hrun
  obtain ⟨r, hr, hstate⟩ := (Option.any_eq_true _ _).mp hjob
  rw [beq_iff_eq] at hstate
  have hreachable := reachable_of_exec hexec
  have hmem := Table.mem_of_get? hr
  exact ⟨s, hreachable, r, hmem, hstate,
    ((progress_agrees hreachable).1 r hmem (by rw [hstate]; rfl)).1⟩

end TaskHarbor
