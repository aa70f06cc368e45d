import TaskHarbor.Schedule.Cursor

/-! Calling `materialize_next_schedule_at` again and again at one clock value handles the schedules
that are due at that value, in the order of their cursors, and then answers none. -/
namespace TaskHarbor

open Relational Transaction Grid

variable {asOf now : ℤ} {db db₁ db' : Db}

/-- A call that answers with a tick materialized the candidate. -/
theorem materializeNextScheduleAt_some {locked : List ℕ} {tick : ScheduleTick}
    (h : materializeNextScheduleAt asOf locked now db = (.ok (some tick), db')) :
    ∃ candidate scheduledFor next job coalesced db₁,
      scheduleCandidate db (bindTimestamp asOf) locked = some candidate ∧
      Materializes db candidate asOf now scheduledFor next job coalesced db₁ db' ∧
      tick.scheduleId.get = candidate.id ∧ tick.scheduledFor = scheduledFor ∧
      tick.coalescedSlots = coalesced := by
  unfold materializeNextScheduleAt at h
  rw [Session.bind_run] at h
  rcases commit_cases (materializeNextScheduleTx asOf locked now) db with
    ⟨result, db₂, htx, hc⟩ | ⟨e, -, hc⟩
  · rw [hc] at h
    rcases materializeNextScheduleTx_ok.mp htx with
      ⟨-, rfl, rfl⟩ | ⟨candidate, scheduledFor, next, job, coalesced, db₁, hcand, rfl, hm⟩
    · cases h
    · simp only [Session.bind_run, Session.liftExcept_run] at h
      cases hid : decodeScheduleId candidate.id with
      | error e =>
        rw [hid] at h
        cases h
      | ok scheduleId =>
        rw [hid] at h
        cases h
        exact ⟨candidate, scheduledFor, next, job, coalesced, db₁, hcand, hm,
          decodeScheduleId_ok.mp hid, rfl, rfl⟩
  · rw [hc] at h
    cases h

/-- A call answers none exactly if there is no candidate. -/
theorem materializeNextScheduleAt_none {locked : List ℕ} :
    (materializeNextScheduleAt asOf locked now db).1 = .ok none ↔
      scheduleCandidate db (bindTimestamp asOf) locked = none := by
  unfold materializeNextScheduleAt
  rw [Session.bind_run]
  rcases commit_cases (materializeNextScheduleTx asOf locked now) db with
    ⟨result, db₂, htx, hc⟩ | ⟨e, htx, hc⟩
  · rw [hc]
    rcases materializeNextScheduleTx_ok.mp htx with
      ⟨hnone, rfl, rfl⟩ | ⟨candidate, scheduledFor, next, job, coalesced, db₁, hcand, rfl, hm⟩
    · simp [hnone]
    · simp only [Session.bind_run, Session.liftExcept_run, hcand, reduceCtorEq, iff_false]
      cases decodeScheduleId candidate.id <;> exact fun h => nomatch h
  · rw [hc]
    constructor
    · intro h
      cases h
    · intro hnone
      have hok : materializeNextScheduleTx asOf locked now db = .ok (none, db) :=
        materializeNextScheduleTx_ok.mpr (Or.inl ⟨hnone, rfl, rfl⟩)
      rw [htx] at hok
      cases hok

/-- The cursor of the schedule that a call handles is later than its clock value. -/
theorem Materializes.cursor_later {candidate : ScheduleRow} {scheduledFor next : ℤ}
    {job : Option JobId} {coalesced : ℕ} (hsound : candidate.Sound)
    (h : Materializes db candidate asOf now scheduledFor next job coalesced db₁ db') :
    asOf < next := by
  have hpos := hsound.interval_pos
  obtain ⟨hle, rfl, -, -, rfl, -⟩ := (latestDueSlot_ok hpos).mp h.slot
  exact lt_slot_steps_succ (interval_pos hpos) hle

theorem Materializes.schedules {candidate : ScheduleRow} {scheduledFor next : ℤ}
    {job : Option JobId} {coalesced : ℕ}
    (h : Materializes db candidate asOf now scheduledFor next job coalesced db₁ db') :
    db'.schedules = db.schedules.put (candidate.advanced next now) := by
  rw [h.written, ← (materializeJob_frame h.made).1]

/-! ### The due schedules -/

/-- The enabled schedules that are due at `asOf`. -/
def Db.due (db : Db) (asOf : ℤ) : List ScheduleRow :=
  db.schedules.rows.filter fun s => s.enabled && decide (s.nextRunAt ≤ asOf)

/-- The order `(next_run_at, id)`. -/
def ScheduleRow.Before (a b : ScheduleRow) : Prop :=
  a.nextRunAt < b.nextRunAt ∨ a.nextRunAt = b.nextRunAt ∧ a.id < b.id

theorem scheduleCandidate_due (db : Db) (t : ℤ) :
    scheduleCandidate db t [] = Table.leastBy (fun s => toLex (s.nextRunAt, s.id)) (db.due t) := by
  simp [scheduleCandidate, Db.due]

theorem mem_due {s : ScheduleRow} :
    s ∈ db.due asOf ↔ s ∈ db.schedules ∧ s.enabled = true ∧ s.nextRunAt ≤ asOf := by
  simp [Db.due, Table.mem_def]

theorem due_nodup (db : Db) (asOf : ℤ) : (db.due asOf).Nodup :=
  (List.Nodup.of_map Keyed.key db.schedules.nodup).filter _

theorem candidate_before {t : ℤ} {candidate : ScheduleRow}
    (h : scheduleCandidate db t [] = some candidate) {s : ScheduleRow} (hs : s ∈ db.due t)
    (hne : s ≠ candidate) : candidate.Before s := by
  rw [scheduleCandidate_due] at h
  obtain ⟨hmem, hleast⟩ := Table.leastBy_spec h
  have hle := Prod.Lex.le_iff.mp (hleast s hs)
  rcases hle with hlt | ⟨heq, hid⟩
  · exact Or.inl hlt
  · refine Or.inr ⟨heq, lt_of_le_of_ne hid fun hkey => hne ?_⟩
    exact Table.key_inj (mem_due.mp hs).1 (mem_due.mp hmem).1 hkey.symm

/-- Handling the candidate takes it out of the due schedules and leaves the others. -/
theorem Materializes.due {candidate : ScheduleRow} {scheduledFor next : ℤ} {job : Option JobId}
    {coalesced : ℕ} (hsound : candidate.Sound)
    (hc : scheduleCandidate db asOf [] = some candidate)
    (h : Materializes db candidate asOf now scheduledFor next job coalesced db₁ db') :
    (candidate :: db'.due asOf).Perm (db.due asOf) := by
  obtain ⟨hmem, henabled, hdue, -⟩ := scheduleCandidate_spec hc
  have hget : db.schedules.get? candidate.id = some candidate := Table.get?_key hmem
  have hlater := h.cursor_later hsound
  obtain ⟨l₁, l₂, hold, hnew⟩ := Table.exists_put (r := candidate.advanced next now) hget
  have hout : ((candidate.advanced next now).enabled &&
      decide ((candidate.advanced next now).nextRunAt ≤ asOf)) = false := by
    have hnot : ¬next ≤ asOf := not_le.mpr hlater
    simp [ScheduleRow.advanced, hnot]
  have hin : (candidate.enabled && decide (candidate.nextRunAt ≤ asOf)) = true := by
    simp [henabled, hdue]
  unfold Db.due
  rw [h.schedules, hnew, hold]
  simp only [List.filter_append, List.filter_cons, hin, hout, if_true, Bool.false_eq_true,
    if_false]
  exact List.perm_middle.symm

/-! ### Repeated calls -/

/-- Calls at the clock value `asOf`, each of which answers with a tick. -/
inductive Drains (asOf : ℤ) : Db → List ScheduleTick → Db → Prop
  | nil (db : Db) : Drains asOf db [] db
  | cons {db db₁ db' : Db} {now : ℤ} {tick : ScheduleTick} {ticks : List ScheduleTick} :
      materializeNextScheduleAt asOf [] now db = (.ok (some tick), db₁) →
      Drains asOf db₁ ticks db' → Drains asOf db (tick :: ticks) db'

/-- The ticks are those of the due schedules in their order, up to the ones still due. -/
theorem Drains.handled {ticks : List ScheduleTick} (hmicros : WholeMicros asOf)
    (h : Drains asOf db ticks db') (hsound : ∀ s ∈ db.schedules, s.Sound) :
    ∃ handled : List ScheduleRow,
      ticks.map (fun tick => tick.scheduleId.get) = handled.map ScheduleRow.id ∧
      (handled ++ db'.due asOf).Perm (db.due asOf) ∧ handled.Pairwise ScheduleRow.Before := by
  induction h with
  | nil db => exact ⟨[], rfl, List.Perm.refl _, List.Pairwise.nil⟩
  | @cons db db₁ db' now tick ticks hcall _ ih =>
    obtain ⟨candidate, scheduledFor, next, job, coalesced, db₂, hc, hm, hid, -, -⟩ :=
      materializeNextScheduleAt_some hcall
    rw [bindTimestamp_of_wholeMicros hmicros] at hc
    have hmem := (scheduleCandidate_spec hc).1
    have hdue := hm.due (hsound candidate hmem) hc
    have hsound' : ∀ s ∈ db₁.schedules, s.Sound := by
      intro s hs
      rw [hm.schedules] at hs
      rcases Table.mem_put hs with hs | rfl
      · exact hsound s hs
      · have hcs := hsound candidate hmem
        exact ⟨hcs.checks, hcs.name, hcs.id⟩
    obtain ⟨handled, hids, hperm, hordered⟩ := ih hsound'
    refine ⟨candidate :: handled, ?_, (hperm.cons candidate).trans hdue, ?_⟩
    · rw [List.map_cons, List.map_cons, hid, hids]
    · refine List.Pairwise.cons ?_ hordered
      intro s hs
      have hs₁ : s ∈ db₁.due asOf := hperm.subset (List.mem_append_left _ hs)
      have hlater : s ≠ candidate := by
        rintro rfl
        have hnodup := hdue.nodup_iff.mpr (due_nodup db asOf)
        exact (List.nodup_cons.mp hnodup).1 hs₁
      exact candidate_before hc (hdue.subset (List.mem_cons_of_mem _ hs₁)) hlater

/-- A call answers none exactly if no schedule is due. -/
theorem materializeNextScheduleAt_none_due (hmicros : WholeMicros asOf) :
    (materializeNextScheduleAt asOf [] now db).1 = .ok none ↔ db.due asOf = [] := by
  rw [materializeNextScheduleAt_none, bindTimestamp_of_wholeMicros hmicros, scheduleCandidate_due,
    Table.leastBy_eq_none]

end TaskHarbor
