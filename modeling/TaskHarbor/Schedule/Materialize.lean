import TaskHarbor.Schedule.Slots

/-! What a materialization does: it records one occurrence of the earliest due schedule, with a new
job unless an earlier one is still active, and moves the cursor past the clock. -/
namespace TaskHarbor

open Relational Transaction Grid

variable {asOf now : ℤ} {db db₁ db' : Db}

theorem scheduleCandidate_spec {t : ℤ} {locked : List ℕ} {s : ScheduleRow}
    (h : scheduleCandidate db t locked = some s) :
    s ∈ db.schedules ∧ s.enabled = true ∧ s.nextRunAt ≤ t ∧ s.id ∉ locked := by
  have hmem := (Table.leastBy_spec h).1
  rw [List.mem_filter] at hmem
  obtain ⟨hs, hsel⟩ := hmem
  simp only [Bool.and_eq_true, decide_eq_true_eq, Bool.not_eq_true', List.contains_eq_mem,
    decide_eq_false_iff_not] at hsel
  exact ⟨hs, hsel.1.1, hsel.1.2, hsel.2⟩

/-- The new job of an occurrence, or none over an active one. -/
theorem materializeJob_ok {candidate : ScheduleRow} {scheduledFor : ℤ} {count : ℕ}
    {job : Option JobId} :
    materializeJob candidate scheduledFor count now db = .ok (job, db') ↔
      (hasOverlap db candidate.id = true ∧ job = none ∧ db' = db) ∨
      (hasOverlap db candidate.id = false ∧ ∃ id db₁ jobId,
        insertJob (candidate.jobRow scheduledFor count now) (fun _ => rfl) db = .ok (id, db₁) ∧
        copyScheduleInputs id now (scheduleInputsOf db candidate.id) db₁ = .ok ((), db') ∧
        (scheduleInputsOf db candidate.id).length = count ∧ jobId.get = id ∧
        job = some jobId) := by
  unfold materializeJob
  simp only [Tx.bind_run get, Tx.get_run]
  cases hoverlap : hasOverlap db candidate.id with
  | true =>
    simp only [if_true, Tx.pure_run, Except.ok.injEq, Prod.mk.injEq, true_and,
      Bool.true_eq_false, false_and, or_false]
    constructor
    · rintro ⟨rfl, rfl⟩
      exact ⟨rfl, rfl⟩
    · rintro ⟨rfl, rfl⟩
      exact ⟨rfl, rfl⟩
  | false =>
    simp only [Bool.false_eq_true, if_false, false_and, false_or, true_and]
    rw [Tx.bind_ok]
    constructor
    · rintro ⟨id, db₁, hinsert, h⟩
      obtain ⟨_, db₂, hcopy, h⟩ := Tx.bind_ok.mp h
      split at h
      · cases h
      · rename_i hlen
        simp only [Tx.bind_ok, lift_ok, decodeJobId_ok, Tx.pure_run, Except.ok.injEq,
          Prod.mk.injEq] at h
        obtain ⟨jobId, _, ⟨hid, rfl⟩, rfl, rfl⟩ := h
        exact ⟨id, db₁, jobId, hinsert, hcopy, not_not.mp hlen, hid, rfl⟩
    · rintro ⟨id, db₁, jobId, hinsert, hcopy, hlen, hid, rfl⟩
      refine ⟨id, db₁, hinsert, Tx.bind_ok.mpr ⟨(), db', hcopy, ?_⟩⟩
      rw [if_neg (not_not.mpr hlen)]
      exact Tx.bind_ok.mpr ⟨jobId, db', lift_ok.mpr ⟨decodeJobId_ok.mpr hid, rfl⟩, rfl⟩

/-- The tables of schedules stay while the job of an occurrence is made. -/
theorem materializeJob_frame {candidate : ScheduleRow} {scheduledFor : ℤ} {count : ℕ}
    {job : Option JobId}
    (h : materializeJob candidate scheduledFor count now db = .ok (job, db')) :
    db'.schedules = db.schedules ∧ db'.scheduleInputs = db.scheduleInputs ∧
      db'.scheduleOccurrences = db.scheduleOccurrences := by
  rcases materializeJob_ok.mp h with ⟨-, -, rfl⟩ | ⟨-, id, db₁, jobId, hinsert, hcopy, -⟩
  · exact ⟨rfl, rfl, rfl⟩
  · obtain ⟨rows, happended, -⟩ := copyScheduleInputs_ok hcopy
    obtain ⟨rfl, -, -, -, rfl⟩ := insertJob_ok.mp hinsert
    exact ⟨(congrArg Db.schedules happended.frame :),
      (congrArg Db.scheduleInputs happended.frame :),
      (congrArg Db.scheduleOccurrences happended.frame :)⟩

theorem materializeJob_evolves {candidate : ScheduleRow} {scheduledFor : ℤ} {count : ℕ}
    {job : Option JobId} (hsound : candidate.Sound)
    (h : materializeJob candidate scheduledFor count now db = .ok (job, db')) :
    db.Evolves now db' := by
  rcases materializeJob_ok.mp h with ⟨-, -, rfl⟩ | ⟨-, id, db₁, jobId, hinsert, hcopy, -⟩
  · exact .refl now db'
  · obtain ⟨rows, happended, -⟩ := copyScheduleInputs_ok hcopy
    obtain ⟨name, hname⟩ := hsound.name
    refine evolves_created hinsert (insertJob_new hinsert (asStr_of_decodeJobName hname).symm rfl
      rfl rfl rfl ?_ fun _ hp => nomatch hp) happended
    intro s hs
    cases hs
    exact hsound.id

/-- The cursor after a materialization. -/
def ScheduleRow.advanced (s : ScheduleRow) (next now : ℤ) : ScheduleRow :=
  { s with nextRunAt := next, updatedAt := now }

/-- A materialization of `candidate`, step by step. -/
structure Materializes (db : Db) (candidate : ScheduleRow) (asOf now scheduledFor next : ℤ)
    (job : Option JobId) (coalesced : ℕ) (db₁ db' : Db) : Prop where
  slot : latestDueSlot candidate.nextRunAt candidate.intervalSeconds asOf =
    .ok (scheduledFor, next, coalesced)
  count : 1 ≤ (scheduleInputsOf db candidate.id).length ∧
    (scheduleInputsOf db candidate.id).length ≤ maxFilesPerJob
  made : materializeJob candidate scheduledFor (scheduleInputsOf db candidate.id).length now db =
    .ok (job, db₁)
  counted : coalesced ≤ i64Max
  room : db.scheduleOccurrences.next ≤ i64Max
  free : ∀ o ∈ db.scheduleOccurrences,
    o.scheduleId ≠ candidate.id ∨ o.scheduledFor ≠ scheduledFor
  written : db' = { db₁ with
    scheduleOccurrences := db₁.scheduleOccurrences.insertNew
      (occurrenceRow candidate.id scheduledFor (job.map JobId.get) coalesced now)
    schedules := db₁.schedules.put (candidate.advanced next now) }

theorem occurrenceRow_checks (id : ℕ) (scheduledFor : ℤ) (job : Option ℕ) (coalesced : ℕ)
    (now : ℤ) (n : ℕ) :
    holdsAll (occurrenceRow id scheduledFor job coalesced now n).checks = true := by
  cases job <;> rfl

/-- The part of `materialize_next_schedule_at` after the job is made. -/
theorem recordOccurrence_ok {candidate : ScheduleRow} {scheduledFor next : ℤ}
    {job : Option JobId} {coalesced : ℕ} {result : ℤ × Option JobId × ℕ}
    (hget : db.schedules.get? candidate.id = some candidate) :
    (do let _ ← encodeU64 coalesced "coalesced slots"
        insertOccurrence
          (occurrenceRow candidate.id scheduledFor (job.map JobId.get) coalesced now)
        let advanced ← updateSchedules (fun r => r.id == candidate.id)
          fun r => { r with nextRunAt := next, updatedAt := now }
        ensureOneRow advanced "advance schedule cursor"
        return (scheduledFor, job, coalesced) : Tx (ℤ × Option JobId × ℕ)) db =
          .ok (result, db') ↔
      coalesced ≤ i64Max ∧ db.scheduleOccurrences.next ≤ i64Max ∧
        (∀ o ∈ db.scheduleOccurrences,
          o.scheduleId ≠ candidate.id ∨ o.scheduledFor ≠ scheduledFor) ∧
        result = (scheduledFor, job, coalesced) ∧
        db' = { db with
          scheduleOccurrences := db.scheduleOccurrences.insertNew
            (occurrenceRow candidate.id scheduledFor (job.map JobId.get) coalesced now)
          schedules := db.schedules.put (candidate.advanced next now) } := by
  have hpin : ∀ r : ScheduleRow, (r.id == candidate.id) = true → r.id = candidate.id := by simp
  have hchecks := occurrenceRow_checks candidate.id scheduledFor (job.map JobId.get) coalesced
    now
  simp only [Tx.bind_ok, lift_ok, encodeU64_ok, ensureOneRow_ok, Tx.pure_run, Except.ok.injEq,
    Prod.mk.injEq]
  constructor
  · rintro ⟨_, _, ⟨⟨hsmall, -⟩, rfl⟩, _, _, hinsert, n, _, hn, _, _, ⟨rfl, rfl⟩, rfl, rfl⟩
    obtain ⟨hroom, -, hfree, rfl⟩ := insertOccurrence_ok.mp hinsert
    obtain ⟨s, hs, -, rfl⟩ := (updateSchedules_one hpin).mp hn
    obtain rfl : candidate = s := Option.some.inj (hget.symm.trans hs)
    exact ⟨hsmall, hroom, hfree, rfl, rfl⟩
  · rintro ⟨hsmall, hroom, hfree, rfl, rfl⟩
    refine ⟨coalesced, db, ⟨⟨hsmall, rfl⟩, rfl⟩, (), _,
      insertOccurrence_ok.mpr ⟨hroom, hchecks _, hfree, rfl⟩, 1, _,
      (updateSchedules_one hpin).mpr ⟨candidate, hget, by simp, rfl⟩, (), _, ⟨rfl, rfl⟩, rfl, rfl⟩

theorem materializeCandidate_ok {candidate : ScheduleRow} {result : ℤ × Option JobId × ℕ}
    (hmem : candidate ∈ db.schedules) :
    materializeCandidate candidate asOf now db = .ok (result, db') ↔
      ∃ scheduledFor next job coalesced db₁, result = (scheduledFor, job, coalesced) ∧
        Materializes db candidate asOf now scheduledFor next job coalesced db₁ db' := by
  have hget : db.schedules.get? candidate.id = some candidate := Table.get?_key hmem
  unfold materializeCandidate
  simp only [Tx.bind_ok (x := liftM _), Tx.bind_ok (x := get), lift_ok, Tx.get_run,
    Except.ok.injEq, Prod.mk.injEq]
  constructor
  · rintro ⟨⟨first, next, slots⟩, _, ⟨hslot, rfl⟩, _, _, ⟨rfl, rfl⟩, h⟩
    split at h
    · cases h
    · rename_i hcount
      obtain ⟨made, db₁, hmade, hrecord⟩ := Tx.bind_ok.mp h
      obtain ⟨hschedules, hinputs, hoccurrences⟩ := materializeJob_frame hmade
      rw [← hschedules] at hget
      obtain ⟨hcounted, hroom, hfree, rfl, rfl⟩ := (recordOccurrence_ok hget).mp hrecord
      rw [hoccurrences] at hroom hfree
      exact ⟨first, next, made, slots, db₁, rfl, hslot, by omega, hmade, hcounted, hroom, hfree,
        rfl⟩
  · rintro ⟨scheduledFor, next, job, coalesced, db₁, rfl, h⟩
    obtain ⟨hschedules, hinputs, hoccurrences⟩ := materializeJob_frame h.made
    have hcount := h.count
    refine ⟨(scheduledFor, next, coalesced), db, ⟨h.slot, rfl⟩, db, db, ⟨rfl, rfl⟩, ?_⟩
    rw [if_neg (by omega)]
    rw [← hschedules] at hget
    refine Tx.bind_ok.mpr ⟨job, db₁, h.made, (recordOccurrence_ok hget).mpr ?_⟩
    refine ⟨h.counted, ?_, ?_, rfl, h.written⟩
    · rw [hoccurrences]
      exact h.room
    · rw [hoccurrences]
      exact h.free

theorem materializeNextScheduleTx_ok {locked : List ℕ}
    {result : Option (ScheduleRow × ℤ × Option JobId × ℕ)} :
    materializeNextScheduleTx asOf locked now db = .ok (result, db') ↔
      (scheduleCandidate db (bindTimestamp asOf) locked = none ∧ result = none ∧ db' = db) ∨
      ∃ candidate scheduledFor next job coalesced db₁,
        scheduleCandidate db (bindTimestamp asOf) locked = some candidate ∧
        result = some (candidate, scheduledFor, job, coalesced) ∧
        Materializes db candidate asOf now scheduledFor next job coalesced db₁ db' := by
  unfold materializeNextScheduleTx
  simp only [Tx.bind_run get, Tx.get_run]
  cases hc : scheduleCandidate db (bindTimestamp asOf) locked with
  | none =>
    simp only [Tx.pure_run, Except.ok.injEq, Prod.mk.injEq, true_and, reduceCtorEq, false_and,
      exists_false, or_false]
    constructor
    · rintro ⟨rfl, rfl⟩
      exact ⟨rfl, rfl⟩
    · rintro ⟨rfl, rfl⟩
      exact ⟨rfl, rfl⟩
  | some candidate =>
    have hmem := (scheduleCandidate_spec hc).1
    simp only [Tx.bind_ok, materializeCandidate_ok hmem, Tx.pure_run, Except.ok.injEq,
      Prod.mk.injEq, reduceCtorEq, false_and, false_or, Option.some.injEq]
    constructor
    · rintro ⟨_, _, ⟨scheduledFor, next, job, coalesced, db₁, rfl, h⟩, rfl, rfl⟩
      exact ⟨candidate, scheduledFor, next, job, coalesced, db₁, rfl, rfl, h⟩
    · rintro ⟨_, scheduledFor, next, job, coalesced, db₁, rfl, rfl, h⟩
      exact ⟨_, _, ⟨scheduledFor, next, job, coalesced, db₁, rfl, h⟩, rfl, rfl⟩

/-- What a materialization writes, its transaction writes for the candidate. -/
theorem materializeNextScheduleAt_moves {R : Db → Db → Prop} {locked : List ℕ} (hrefl : R db db)
    (h : ∀ candidate scheduledFor next job coalesced db₁ db',
      scheduleCandidate db (bindTimestamp asOf) locked = some candidate →
      Materializes db candidate asOf now scheduledFor next job coalesced db₁ db' → R db db') :
    Session.Moves R (materializeNextScheduleAt asOf locked now) db := by
  refine Session.moves_bind_read (Session.moves_commit hrefl ?_) ?_
  · intro result db' htx
    rcases materializeNextScheduleTx_ok.mp htx with
      ⟨-, -, rfl⟩ | ⟨candidate, scheduledFor, next, job, coalesced, db₁, hc, -, hm⟩
    · exact hrefl
    · exact h candidate scheduledFor next job coalesced db₁ db' hc hm
  · rintro (_ | ⟨candidate, tick⟩) db'
    · rfl
    · simp only [Session.bind_run, Session.liftExcept_run]
      cases decodeScheduleId candidate.id <;> rfl

section Effect

variable {candidate : ScheduleRow} {scheduledFor next : ℤ} {job : Option JobId} {coalesced : ℕ}

theorem Materializes.turns (hsound : candidate.Sound)
    (h : Materializes db candidate asOf now scheduledFor next job coalesced db₁ db') :
    db.Turns now db' := by
  refine turns_of_view (materializeJob_evolves hsound h.made).turns fun id => ?_
  rw [h.written]
  exact view_congr rfl rfl rfl id

end Effect

end TaskHarbor
