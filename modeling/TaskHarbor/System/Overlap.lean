import TaskHarbor.System.Accounting

/-! Occurrences of one schedule do not overlap. Only a materialization makes a job of a schedule,
and it looks for an active one first; nothing brings a terminal job back. -/
namespace TaskHarbor

open Relational Transaction Runs

/-- The jobs of a schedule that are queued, running, waiting for a retry or asked to stop. -/
def Db.activeOf (db : Db) (scheduleId : ℕ) : List JobRow :=
  db.jobs.rows.filter fun r => r.scheduleId == some scheduleId && !r.state.isTerminal

theorem mem_activeOf {db : Db} {id : ℕ} {r : JobRow} :
    r ∈ db.activeOf id ↔ r ∈ db.jobs ∧ r.scheduleId = some id ∧ r.state.isTerminal = false := by
  simp [Db.activeOf, Table.mem_def]

theorem hasOverlap_eq_true {db : Db} {id : ℕ} : hasOverlap db id = true ↔ db.activeOf id ≠ [] := by
  unfold hasOverlap Db.activeOf
  rw [Ne, List.filter_eq_nil_iff, List.any_eq_true]
  push Not
  rfl

theorem hasOverlap_eq_false {db : Db} {id : ℕ} :
    hasOverlap db id = false ↔ db.activeOf id = [] := by
  rw [← Bool.not_eq_true, hasOverlap_eq_true, not_not]

/-- No schedule has two active jobs. -/
def Db.Unoverlapped (db : Db) : Prop :=
  ∀ id, ∀ r ∈ db.activeOf id, ∀ r' ∈ db.activeOf id, r.id = r'.id

section Steps

variable {uploads : NewImageJob → Prop} {now : ℤ} {db db' : Db}

/-- An active job of a schedule was one before, or a tick made it while there was none. -/
theorem active_before (hinv : db.Inv) (hturns : db.Turns now db')
    (hgrows : db.Grows uploads now db')
    {id : ℕ} {r : JobRow} (hr : r ∈ db'.activeOf id) :
    (∃ r₀ ∈ db.activeOf id, r₀.id = r.id) ∨ db.activeOf id = [] ∧ r.id = db.jobs.next := by
  obtain ⟨hmem, hschedule, hactive⟩ := mem_activeOf.mp hr
  have hget : db'.jobs.get? r.id = some r := Table.get?_key hmem
  cases hold : db.jobs.get? r.id with
  | none =>
    right
    obtain ⟨hnext, -, horigin⟩ := hgrows.jobs r.id r hold hget
    refine ⟨?_, hnext⟩
    cases horigin with
    | demo name row none =>
      rw [row] at hschedule
      cases hschedule
    | upload request uploads valid storable row indexes =>
      rw [row] at hschedule
      cases hschedule
    | retry source stored ended row copied =>
      rw [row] at hschedule
      cases hschedule
    | occurrence candidate scheduledFor stored free row copied =>
      rw [row] at hschedule
      obtain rfl : candidate.id = id := Option.some.inj hschedule
      exact hasOverlap_eq_false.mp free
  | some r₀ =>
    left
    have hmem₀ := Table.mem_of_get? hold
    have hkept := (hturns r.id).keeps.job r₀ hold
    obtain ⟨r', hr', htemplate⟩ := hkept
    obtain rfl : r = r' := Option.some.inj (hget.symm.trans hr')
    have hsame : r.scheduleId = r₀.scheduleId := (congrArg JobRow.scheduleId htemplate :)
    refine ⟨r₀, mem_activeOf.mpr ⟨hmem₀, hsame.symm.trans hschedule, ?_⟩, Table.key_of_get? hold⟩
    -- A job that was terminal before would be terminal now.
    by_contra hterminal
    rw [Bool.not_eq_false] at hterminal
    obtain ⟨⟨e, he⟩, -⟩ := (hturns r.id).terminal (hinv.lifecycle r.id) hold hterminal
    obtain rfl := Option.some.inj (hget.symm.trans he)
    rw [show r₀.state.isTerminal = false from hactive] at hterminal
    cases hterminal

theorem Db.Unoverlapped.step (hinv : db.Inv) (hturns : db.Turns now db')
    (hgrows : db.Grows uploads now db') (h : db.Unoverlapped) : db'.Unoverlapped := by
  intro id r hr r' hr'
  rcases active_before hinv hturns hgrows hr with ⟨r₀, hr₀, hid⟩ | ⟨hnil, hid⟩
  · rcases active_before hinv hturns hgrows hr' with ⟨r₁, hr₁, hid'⟩ | ⟨hnil, -⟩
    · rw [← hid, ← hid']
      exact h id r₀ hr₀ r₁ hr₁
    · rw [hnil] at hr₀
      cases hr₀
  · rcases active_before hinv hturns hgrows hr' with ⟨r₁, hr₁, -⟩ | ⟨-, hid'⟩
    · rw [hnil] at hr₁
      cases hr₁
    · rw [hid, hid']

theorem System.Reachable.unoverlapped {s : System} (hs : s.Reachable) : s.db.Unoverlapped := by
  obtain ⟨start, hrun⟩ := hs
  have hall : s.Inv ∧ s.db.Unoverlapped := by
    refine hrun.invariant (P := fun s => s.Inv ∧ s.db.Unoverlapped) ?_ ⟨.initial start, ?_⟩
    · rintro s op t ⟨hinv, h⟩ - he
      exact ⟨hinv.step he,
        h.step hinv.db (System.step_db hinv he).turns (System.step_grows hinv he)⟩
    · intro id r hr
      cases hr
  exact hall.2

theorem Db.Unoverlapped.length_activeOf (h : db.Unoverlapped) (id : ℕ) :
    (db.activeOf id).length ≤ 1 := by
  have hnodup : (db.activeOf id).Nodup := (List.Nodup.of_map Keyed.key db.jobs.nodup).filter _
  have hone := h id
  cases hl : db.activeOf id with
  | nil => simp
  | cons r rest =>
    cases rest with
    | nil => simp
    | cons r' rest =>
      rw [hl] at hone hnodup
      have hid : r.id = r'.id := hone r (by simp) r' (by simp)
      have hr : r ∈ db.jobs := (mem_activeOf.mp (hl ▸ List.mem_cons_self)).1
      have hr' : r' ∈ db.jobs :=
        (mem_activeOf.mp (hl ▸ List.mem_cons_of_mem _ List.mem_cons_self)).1
      obtain rfl := Table.key_inj hr hr' hid
      simp at hnodup

end Steps

/-! ### What a tick records -/

/-- A tick records one occurrence; over an active job it skips, else it makes one job. -/
structure Db.Ticked (db : Db) (tick : ScheduleTick) (db' : Db) : Prop where
  recorded : ∃ o, db'.occurrencesOf tick.scheduleId.get =
    db.occurrencesOf tick.scheduleId.get ++ [o] ∧ o.scheduledFor = tick.scheduledFor ∧
      o.outcome = tick.outcome ∧ o.jobId = tick.jobId.map JobId.get
  skipped : db.activeOf tick.scheduleId.get ≠ [] →
    tick.outcome = .skippedOverlap ∧ tick.jobId = none ∧ db'.jobs = db.jobs
  created : db.activeOf tick.scheduleId.get = [] →
    tick.outcome = .created ∧ ∃ r, db'.jobs.rows = db.jobs.rows ++ [r] ∧
      tick.jobId.map JobId.get = some r.id ∧ r.scheduleId = some tick.scheduleId.get ∧
      r.state = .queued

section Ticks

variable {asOf now scheduledFor next : ℤ} {db db₁ db' : Db} {candidate : ScheduleRow}
  {job : Option JobId} {coalesced : ℕ}

theorem Materializes.occurrencesOf
    (h : Materializes db candidate asOf now scheduledFor next job coalesced db₁ db') :
    db'.occurrencesOf candidate.id = db.occurrencesOf candidate.id ++
      [occurrenceRow candidate.id scheduledFor (job.map JobId.get) coalesced now
        db.scheduleOccurrences.next] := by
  have hoccurrences := (materializeJob_frame h.made).2.2
  unfold Db.occurrencesOf
  rw [h.written, ← hoccurrences]
  refine (Table.filter_insertNew _ _ (by intro n; rfl) _).trans ?_
  simp [occurrenceRow]

theorem Materializes.jobs
    (h : Materializes db candidate asOf now scheduledFor next job coalesced db₁ db') :
    db'.jobs = db₁.jobs := by
  rw [h.written]

theorem Materializes.ticked
    (h : Materializes db candidate asOf now scheduledFor next job coalesced db₁ db')
    {tick : ScheduleTick} (hid : tick.scheduleId.get = candidate.id)
    (hslot : tick.scheduledFor = scheduledFor) (hjob : tick.jobId = job)
    (houtcome : tick.outcome = if job.isSome then .created else .skippedOverlap) :
    db.Ticked tick db' := by
  have hrecorded := h.occurrencesOf
  have hjobs := h.jobs
  constructor
  · rw [hid]
    refine ⟨_, hrecorded, hslot.symm, ?_, ?_⟩
    · rw [houtcome]
      cases job <;> rfl
    · rw [hjob]
      rfl
  · intro hactive
    rw [hid, ← hasOverlap_eq_true] at hactive
    rcases materializeJob_ok.mp h.made with ⟨-, rfl, rfl⟩ | ⟨hfree, -⟩
    · exact ⟨houtcome, hjob, hjobs⟩
    · rw [hactive] at hfree
      cases hfree
  · intro hnone
    rw [hid, ← hasOverlap_eq_false] at hnone
    rcases materializeJob_ok.mp h.made with
      ⟨hactive, -⟩ | ⟨-, id, db₂, jobId, hinsert, hcopy, -, hget, rfl⟩
    · rw [hnone] at hactive
      cases hactive
    · obtain ⟨rows, happended, -⟩ := copyScheduleInputs_ok hcopy
      have hcopied := happended.jobs
      obtain ⟨rfl, -, -, -, rfl⟩ := insertJob_ok.mp hinsert
      refine ⟨houtcome, candidate.jobRow scheduledFor (scheduleInputsOf db candidate.id).length now
        db.jobs.next, ?_, ?_, ?_, rfl⟩
      · rw [hjobs, hcopied]
        rfl
      · rw [hjob, Option.map_some, hget]
        rfl
      · rw [hid]
        rfl

/-- A call answers with a tick it recorded, or it changes nothing. -/
theorem materializeNextScheduleAt_ticked {locked : List ℕ} (hsound : ∀ s ∈ db.schedules, s.Sound) :
    match materializeNextScheduleAt asOf locked now db with
    | (.ok (some tick), db') => db.Ticked tick db'
    | (_, db') => db' = db := by
  unfold materializeNextScheduleAt
  rw [Session.bind_run]
  rcases commit_cases (materializeNextScheduleTx asOf locked now) db with
    ⟨result, db₂, htx, hc⟩ | ⟨e, -, hc⟩
  · rw [hc]
    rcases materializeNextScheduleTx_ok.mp htx with
      ⟨-, rfl, rfl⟩ | ⟨candidate, scheduledFor, next, job, coalesced, db₁, hcand, rfl, hm⟩
    · rfl
    · have hpos := (hsound candidate (scheduleCandidate_spec hcand).1).id
      have hid : decodeScheduleId candidate.id = .ok ⟨candidate.id, hpos.1, hpos.2⟩ :=
        decodeScheduleId_ok.mpr rfl
      simp only [Session.bind_run, Session.liftExcept_run, hid]
      exact hm.ticked rfl rfl rfl rfl
  · rw [hc]

end Ticks

/-- In every reachable state each schedule has at most one active job, and a tick over an active
job skips while any other tick makes exactly one job. -/
theorem no_overlapping_occurrences {s : System} (hs : s.Reachable) :
    (∀ id, (s.db.activeOf id).length ≤ 1) ∧
    ∀ asOf locked now, match materializeNextScheduleAt asOf locked now s.db with
      | (.ok (some tick), db') => s.db.Ticked tick db'
      | (_, db') => db' = s.db :=
  ⟨fun id => hs.unoverlapped.length_activeOf id,
    fun _ _ _ => materializeNextScheduleAt_ticked hs.inv.db.schedules⟩

/-! A second tick while the job of the first one is queued. -/

theorem no_overlapping_occurrences_skipped : ∃ s : System, s.Reachable ∧
    (s.db.activeOf 1).length ≤ 1 ∧ ∃ tick db',
      materializeNextScheduleAt (seconds 250) [] (seconds 250) s.db = (.ok (some tick), db') ∧
      tick.outcome = .skippedOverlap ∧ s.db.Ticked tick db' := by
  have hrun : (exec System.step (System.initial 0)
      (sampleDueOps ++ [.materialize (seconds 150) []])).any (fun s =>
        (materializeNextScheduleAt (seconds 250) [] (seconds 250) s.db).1.toOption.any
          fun found => found.any fun tick => tick.outcome == .skippedOverlap) = true := by
    decide +kernel
  obtain ⟨s, hexec, hanswer⟩ := (Option.any_eq_true _ _).mp hrun
  have hs := reachable_of_exec hexec
  obtain ⟨hone, hticks⟩ := no_overlapping_occurrences hs
  have hticked := hticks (seconds 250) [] (seconds 250)
  rcases hcall : materializeNextScheduleAt (seconds 250) [] (seconds 250) s.db with ⟨result, db'⟩
  rw [hcall] at hanswer hticked
  obtain ⟨found, rfl, hfound⟩ := except_any_eq_true.mp hanswer
  obtain ⟨tick, rfl, hskipped⟩ := (Option.any_eq_true _ _).mp hfound
  exact ⟨s, hs, hone 1, tick, db', hcall, by simpa using hskipped, hticked⟩

end TaskHarbor
