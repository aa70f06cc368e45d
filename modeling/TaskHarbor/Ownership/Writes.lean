import TaskHarbor.Ownership.Restriction
import TaskHarbor.Schedule.Materialize

/-! The writes of one user. Inserts below rows of the user and updates guarded by the user are local
to the rows of the user, and leave the rows of every other user as they are. -/
namespace TaskHarbor

open Relational Transaction

/-! ### Owners after a write -/

section Owners

variable {db : Db} {u : ℕ}

theorem jobOwner_insertNew {mk : ℕ → JobRow} {hk} (id : ℕ) :
    ({ db with jobs := db.jobs.insertNew mk hk } : Db).jobOwner id =
      if id = db.jobs.next then some (mk db.jobs.next).ownerUserId else db.jobOwner id := by
  unfold Db.jobOwner
  rw [Table.get?_insertNew]
  split <;> rfl

theorem scheduleOwner_insertNew {mk : ℕ → ScheduleRow} {hk} (id : ℕ) :
    ({ db with schedules := db.schedules.insertNew mk hk } : Db).scheduleOwner id =
      if id = db.schedules.next then some (mk db.schedules.next).ownerUserId
      else db.scheduleOwner id := by
  unfold Db.scheduleOwner
  rw [Table.get?_insertNew]
  split <;> rfl

/-- An update keeps the owners of the jobs. -/
theorem jobOwner_update {p : JobRow → Bool} {f : JobRow → JobRow} {hf}
    (h : ∀ r, (f r).ownerUserId = r.ownerUserId) (id : ℕ) :
    ({ db with jobs := db.jobs.update p f hf } : Db).jobOwner id = db.jobOwner id := by
  unfold Db.jobOwner
  rw [Table.get?_update, Option.map_map]
  refine Option.map_congr fun r _ => ?_
  simp only [Function.comp_apply]
  split
  · exact h r
  · rfl

theorem scheduleOwner_update {p : ScheduleRow → Bool} {f : ScheduleRow → ScheduleRow} {hf}
    (h : ∀ s, (f s).ownerUserId = s.ownerUserId) (id : ℕ) :
    ({ db with schedules := db.schedules.update p f hf } : Db).scheduleOwner id =
      db.scheduleOwner id := by
  unfold Db.scheduleOwner
  rw [Table.get?_update, Option.map_map]
  refine Option.map_congr fun s _ => ?_
  simp only [Function.comp_apply]
  split
  · exact h s
  · rfl

theorem job_ne_next {id : ℕ} (h : (db.jobOwner id).isSome = true) : id ≠ db.jobs.next := by
  rintro rfl
  rw [Db.jobOwner, Table.get?_next] at h
  cases h

theorem schedule_ne_next {id : ℕ} (h : (db.scheduleOwner id).isSome = true) :
    id ≠ db.schedules.next := by
  rintro rfl
  rw [Db.scheduleOwner, Table.get?_next] at h
  cases h

end Owners

/-! ### The rows of the user after a write -/

section Only

variable {db : Db} {u : ℕ}

theorem only_insertJob {mk : ℕ → JobRow} {hk} (hrooted : db.Rooted)
    (howner : (mk db.jobs.next).ownerUserId = u) :
    ({ db with jobs := db.jobs.insertNew mk hk } : Db).only u =
      { db.only u with jobs := (db.only u).jobs.insertNew mk hk } := by
  have hold : ∀ id, (db.jobOwner id).isSome = true →
      ({ db with jobs := db.jobs.insertNew mk hk } : Db).jobOwner id = db.jobOwner id := by
    intro id hid
    rw [jobOwner_insertNew, if_neg (job_ne_next hid)]
  have hjobs : (db.jobs.insertNew mk hk).restrict (fun r => r.ownerUserId == u) =
      (db.jobs.restrict fun r => r.ownerUserId == u).insertNew mk hk :=
    Table.restrict_insertNew (by simpa using howner)
  have hattempts : (db.jobAttempts.restrict fun a =>
      ({ db with jobs := db.jobs.insertNew mk hk } : Db).jobOwner a.jobId == some u) =
      db.jobAttempts.restrict fun a => db.jobOwner a.jobId == some u :=
    Table.restrict_congr fun a ha => by rw [hold _ (hrooted.attempts a ha)]
  have hartifacts : (db.artifacts.restrict fun a =>
      ({ db with jobs := db.jobs.insertNew mk hk } : Db).jobOwner a.jobId == some u) =
      db.artifacts.restrict fun a => db.jobOwner a.jobId == some u :=
    Table.restrict_congr fun a ha => by rw [hold _ (hrooted.artifacts a ha)]
  unfold Db.only
  simp only [hjobs, hattempts, hartifacts]
  rfl

theorem only_insertArtifact {mk : ℕ → ArtifactRow} {hk}
    (howner : db.jobOwner (mk db.artifacts.next).jobId = some u) :
    ({ db with artifacts := db.artifacts.insertNew mk hk } : Db).only u =
      { db.only u with artifacts := (db.only u).artifacts.insertNew mk hk } := by
  have hartifacts : (db.artifacts.insertNew mk hk).restrict
      (fun a => db.jobOwner a.jobId == some u) =
      (db.artifacts.restrict fun a => db.jobOwner a.jobId == some u).insertNew mk hk :=
    Table.restrict_insertNew (by simpa using howner)
  exact congrArg (fun artifacts => { db.only u with artifacts }) hartifacts

theorem only_updateJobs {p : JobRow → Bool} {f : JobRow → JobRow} {hf}
    (h : ∀ r, (f r).ownerUserId = r.ownerUserId) :
    ({ db with jobs := db.jobs.update p f hf } : Db).only u =
      { db.only u with jobs := (db.only u).jobs.update p f hf } := by
  have hjobs : (db.jobs.update p f hf).restrict (fun r => r.ownerUserId == u) =
      (db.jobs.restrict fun r => r.ownerUserId == u).update p f hf :=
    Table.restrict_update fun r _ => by rw [h]
  unfold Db.only
  simp only [hjobs, jobOwner_update h]
  rfl

theorem only_insertSchedule {mk : ℕ → ScheduleRow} {hk} (hrooted : db.Rooted)
    (howner : (mk db.schedules.next).ownerUserId = u) :
    ({ db with schedules := db.schedules.insertNew mk hk } : Db).only u =
      { db.only u with schedules := (db.only u).schedules.insertNew mk hk } := by
  have hold : ∀ id, (db.scheduleOwner id).isSome = true →
      ({ db with schedules := db.schedules.insertNew mk hk } : Db).scheduleOwner id =
        db.scheduleOwner id := by
    intro id hid
    rw [scheduleOwner_insertNew, if_neg (schedule_ne_next hid)]
  have hschedules : (db.schedules.insertNew mk hk).restrict (fun s => s.ownerUserId == u) =
      (db.schedules.restrict fun s => s.ownerUserId == u).insertNew mk hk :=
    Table.restrict_insertNew (by simpa using howner)
  have hinputs : (db.scheduleInputs.restrict fun i =>
      ({ db with schedules := db.schedules.insertNew mk hk } : Db).scheduleOwner i.scheduleId ==
        some u) = db.scheduleInputs.restrict fun i => db.scheduleOwner i.scheduleId == some u :=
    Table.restrict_congr fun i hi => by rw [hold _ (hrooted.inputs i hi)]
  have hoccurrences : (db.scheduleOccurrences.restrict fun o =>
      ({ db with schedules := db.schedules.insertNew mk hk } : Db).scheduleOwner o.scheduleId ==
        some u) =
      db.scheduleOccurrences.restrict fun o => db.scheduleOwner o.scheduleId == some u :=
    Table.restrict_congr fun o ho => by rw [hold _ (hrooted.occurrences o ho)]
  unfold Db.only
  simp only [hschedules, hinputs, hoccurrences]
  rfl

theorem only_insertScheduleInput {mk : ℕ → ScheduleInputRow} {hk}
    (howner : db.scheduleOwner (mk db.scheduleInputs.next).scheduleId = some u) :
    ({ db with scheduleInputs := db.scheduleInputs.insertNew mk hk } : Db).only u =
      { db.only u with scheduleInputs := (db.only u).scheduleInputs.insertNew mk hk } := by
  have hinputs : (db.scheduleInputs.insertNew mk hk).restrict
      (fun i => db.scheduleOwner i.scheduleId == some u) =
      (db.scheduleInputs.restrict fun i => db.scheduleOwner i.scheduleId == some u).insertNew
        mk hk := Table.restrict_insertNew (by simpa using howner)
  exact congrArg (fun scheduleInputs => { db.only u with scheduleInputs }) hinputs

theorem only_updateSchedules {p : ScheduleRow → Bool} {f : ScheduleRow → ScheduleRow} {hf}
    (h : ∀ s, (f s).ownerUserId = s.ownerUserId) :
    ({ db with schedules := db.schedules.update p f hf } : Db).only u =
      { db.only u with schedules := (db.only u).schedules.update p f hf } := by
  have hschedules : (db.schedules.update p f hf).restrict (fun s => s.ownerUserId == u) =
      (db.schedules.restrict fun s => s.ownerUserId == u).update p f hf :=
    Table.restrict_update fun s _ => by rw [h]
  unfold Db.only
  simp only [hschedules, scheduleOwner_update h]
  rfl

end Only

/-! ### Statements on the rows of the user -/

section Local

variable {db : Db} {u : ℕ}

theorem insertJob_local {mk : ℕ → JobRow} {hk} (hrooted : db.Rooted)
    (howner : (mk db.jobs.next).ownerUserId = u) :
    Tx.Local (Db.only u) (insertJob mk hk) db := by
  have hkeys : ((db.only u).jobs.rows.all fun r =>
      !(r.ownerUserId == (mk db.jobs.next).ownerUserId &&
        r.idempotencyKey == (mk db.jobs.next).idempotencyKey)) =
      db.jobs.rows.all fun r => !(r.ownerUserId == (mk db.jobs.next).ownerUserId &&
        r.idempotencyKey == (mk db.jobs.next).idempotencyKey) := by
    refine Table.all_restrict fun r _ hr => ?_
    rw [Bool.not_eq_false', Bool.and_eq_true] at hr
    rw [← howner]
    exact hr.1
  have hnext : (db.only u).jobs.next = db.jobs.next := rfl
  unfold Tx.Local insertJob
  simp only [hnext, hkeys, ← only_insertJob hrooted howner]
  refine except_bind_map fun _ _ => ?_
  exact except_bind_map fun _ _ => except_bind_map fun _ _ => rfl

theorem insertArtifact_local {mk : ℕ → ArtifactRow} {hk}
    (howner : db.jobOwner (mk db.artifacts.next).jobId = some u) :
    Tx.Local (Db.only u) (insertArtifact mk hk) db := by
  have hslots : ((db.only u).artifacts.rows.all fun r =>
      !(r.jobId == (mk db.artifacts.next).jobId && r.kind == (mk db.artifacts.next).kind &&
        r.itemIndex == (mk db.artifacts.next).itemIndex)) =
      db.artifacts.rows.all fun r => !(r.jobId == (mk db.artifacts.next).jobId &&
        r.kind == (mk db.artifacts.next).kind &&
        r.itemIndex == (mk db.artifacts.next).itemIndex) := by
    refine Table.all_restrict fun r _ hr => ?_
    rw [Bool.not_eq_false', Bool.and_eq_true, Bool.and_eq_true, beq_iff_eq] at hr
    rw [hr.1.1, howner, beq_self_eq_true]
  have hnext : (db.only u).artifacts.next = db.artifacts.next := rfl
  unfold Tx.Local insertArtifact
  simp only [hnext, hslots, ← only_insertArtifact howner]
  refine except_bind_map fun _ _ => ?_
  exact except_bind_map fun _ _ => except_bind_map fun _ _ => rfl

theorem insertSchedule_local {mk : ℕ → ScheduleRow} {hk} (hrooted : db.Rooted)
    (howner : (mk db.schedules.next).ownerUserId = u) :
    Tx.Local (Db.only u) (insertSchedule mk hk) db := by
  have hnext : (db.only u).schedules.next = db.schedules.next := rfl
  unfold Tx.Local insertSchedule
  simp only [hnext, ← only_insertSchedule hrooted howner]
  exact except_bind_map fun _ _ => except_bind_map fun _ _ => rfl

theorem insertScheduleInputRow_local {mk : ℕ → ScheduleInputRow} {hk}
    (howner : db.scheduleOwner (mk db.scheduleInputs.next).scheduleId = some u) :
    Tx.Local (Db.only u) (insertScheduleInputRow mk hk) db := by
  have hslots : ((db.only u).scheduleInputs.rows.all fun r =>
      !(r.scheduleId == (mk db.scheduleInputs.next).scheduleId &&
        r.itemIndex == (mk db.scheduleInputs.next).itemIndex)) =
      db.scheduleInputs.rows.all fun r =>
        !(r.scheduleId == (mk db.scheduleInputs.next).scheduleId &&
          r.itemIndex == (mk db.scheduleInputs.next).itemIndex) := by
    refine Table.all_restrict fun r _ hr => ?_
    rw [Bool.not_eq_false', Bool.and_eq_true, beq_iff_eq] at hr
    rw [hr.1, howner, beq_self_eq_true]
  have hnext : (db.only u).scheduleInputs.next = db.scheduleInputs.next := rfl
  unfold Tx.Local insertScheduleInputRow
  simp only [hnext, hslots, ← only_insertScheduleInput howner]
  refine except_bind_map fun _ _ => ?_
  exact except_bind_map fun _ _ => except_bind_map fun _ _ => rfl

theorem updateJobs_local {p : JobRow → Bool} {f : JobRow → JobRow} {hf}
    (hguard : ∀ r, p r = true → r.ownerUserId = u)
    (h : ∀ r, (f r).ownerUserId = r.ownerUserId) :
    Tx.Local (Db.only u) (updateJobs p f hf) db := by
  have hcount : (db.only u).jobs.count p = db.jobs.count p :=
    Table.count_restrict fun r _ hr => by simpa using hguard r hr
  unfold Tx.Local updateJobs
  rw [hcount, ← only_updateJobs h]
  rfl

theorem updateSchedules_local {p : ScheduleRow → Bool} {f : ScheduleRow → ScheduleRow} {hf}
    (hguard : ∀ s, p s = true → s.ownerUserId = u)
    (h : ∀ s, (f s).ownerUserId = s.ownerUserId) :
    Tx.Local (Db.only u) (updateSchedules p f hf) db := by
  have hcount : (db.only u).schedules.count p = db.schedules.count p :=
    Table.count_restrict fun s _ hs => by simpa using hguard s hs
  unfold Tx.Local updateSchedules
  rw [hcount, ← only_updateSchedules h]
  rfl

end Local

/-! ### The rows of other users -/

/-- The same workers and the same rows; the identity counters may differ. -/
structure Db.SameRows (db db' : Db) : Prop where
  workers : db'.workers = db.workers
  jobs : db'.jobs.rows = db.jobs.rows
  jobAttempts : db'.jobAttempts.rows = db.jobAttempts.rows
  artifacts : db'.artifacts.rows = db.artifacts.rows
  schedules : db'.schedules.rows = db.schedules.rows
  scheduleInputs : db'.scheduleInputs.rows = db.scheduleInputs.rows
  scheduleOccurrences : db'.scheduleOccurrences.rows = db.scheduleOccurrences.rows

/-- No row of the user `w` changed. -/
def Db.Spares (w : ℕ) (db db' : Db) : Prop := (db.only w).SameRows (db'.only w)

section Spares

variable {db db₁ db' : Db} {w : ℕ}

theorem Db.Spares.refl (w : ℕ) (db : Db) : db.Spares w db := ⟨rfl, rfl, rfl, rfl, rfl, rfl, rfl⟩

theorem Db.Spares.trans (h : Db.Spares w db db₁) (h' : Db.Spares w db₁ db') : Db.Spares w db db' :=
  ⟨h'.workers.trans h.workers, h'.jobs.trans h.jobs, h'.jobAttempts.trans h.jobAttempts,
    h'.artifacts.trans h.artifacts, h'.schedules.trans h.schedules,
    h'.scheduleInputs.trans h.scheduleInputs, h'.scheduleOccurrences.trans h.scheduleOccurrences⟩

theorem spares_insertJob {mk : ℕ → JobRow} {hk} (h : (mk db.jobs.next).ownerUserId ≠ w) :
    Db.Spares w db { db with jobs := db.jobs.insertNew mk hk } := by
  have howners : ∀ id, (({ db with jobs := db.jobs.insertNew mk hk } : Db).jobOwner id == some w) =
      (db.jobOwner id == some w) := by
    intro id
    rw [jobOwner_insertNew]
    split
    · rename_i hid
      rw [hid, Db.jobOwner, Table.get?_next]
      simpa using h
    · rfl
  have hjobs : ((db.jobs.insertNew mk hk).restrict fun r => r.ownerUserId == w).rows =
      (db.jobs.restrict fun r => r.ownerUserId == w).rows :=
    Table.restrict_insertNew_of_not (by simpa using h)
  constructor
  · rfl
  · exact hjobs
  · simp only [Db.only, howners]
  · simp only [Db.only, howners]
  · rfl
  · rfl
  · rfl

theorem Appended.spares {id : ℕ} {kind : ArtifactKind} {rows : List ArtifactRow}
    (h : Appended db db' id kind rows) (hforeign : db.jobOwner id ≠ some w) :
    Db.Spares w db db' := by
  have hnone : rows.filter (fun a => db.jobOwner a.jobId == some w) = [] := by
    rw [List.filter_eq_nil_iff]
    intro a ha
    rw [(h.owned a ha).1]
    simpa using hforeign
  have hframe := h.frame
  have hrows := h.appended
  generalize db'.artifacts = artifacts at hframe hrows
  subst hframe
  refine ⟨rfl, rfl, rfl, ?_, rfl, rfl, rfl⟩
  change (artifacts.restrict fun a => db.jobOwner a.jobId == some w).rows = _
  rw [Table.restrict_rows, hrows, List.filter_append, hnone, List.append_nil]
  exact (Table.restrict_rows _ _).symm

theorem spares_createSchedule {mk : ℕ → ScheduleRow} {hk} {inputs : Table ScheduleInputRow}
    {rows : List ScheduleInputRow} (h : (mk db.schedules.next).ownerUserId ≠ w)
    (happended : inputs.rows = db.scheduleInputs.rows ++ rows)
    (hall : ∀ row ∈ rows, row.scheduleId = db.schedules.next) :
    Db.Spares w db
      { db with schedules := db.schedules.insertNew mk hk, scheduleInputs := inputs } := by
  have hnew : ∀ id, ({ db with schedules := db.schedules.insertNew mk hk } : Db).scheduleOwner id =
      if id = db.schedules.next then some (mk db.schedules.next).ownerUserId
      else db.scheduleOwner id := scheduleOwner_insertNew
  have howners : ∀ id, (({ db with
      schedules := db.schedules.insertNew mk hk
      scheduleInputs := inputs } : Db).scheduleOwner id == some w) =
        (db.scheduleOwner id == some w) := by
    intro id
    refine (congrArg (· == some w) (hnew id)).trans ?_
    split
    · rename_i hid
      rw [hid, Db.scheduleOwner, Table.get?_next]
      simpa using h
    · rfl
  have hschedules : ((db.schedules.insertNew mk hk).restrict fun s => s.ownerUserId == w).rows =
      (db.schedules.restrict fun s => s.ownerUserId == w).rows :=
    Table.restrict_insertNew_of_not (by simpa using h)
  have hnone : rows.filter (fun i => db.scheduleOwner i.scheduleId == some w) = [] := by
    rw [List.filter_eq_nil_iff]
    intro i hi
    rw [hall i hi, Db.scheduleOwner, Table.get?_next]
    simp
  constructor
  · rfl
  · rfl
  · rfl
  · rfl
  · exact hschedules
  · simp only [Db.only, howners, Table.restrict_rows, happended, List.filter_append, hnone,
      List.append_nil]
  · simp only [Db.only, howners]

theorem spares_updateJobs {p : JobRow → Bool} {f : JobRow → JobRow} {hf}
    (hguard : ∀ r, p r = true → r.ownerUserId ≠ w)
    (h : ∀ r, (f r).ownerUserId = r.ownerUserId) :
    Db.Spares w db { db with jobs := db.jobs.update p f hf } := by
  have hjobs : (db.jobs.update p f hf).restrict (fun r => r.ownerUserId == w) =
      db.jobs.restrict fun r => r.ownerUserId == w :=
    Table.restrict_update_of_not (fun r _ => by rw [h]) fun r _ hr => by simpa using hguard r hr
  have hsame : ({ db with jobs := db.jobs.update p f hf } : Db).only w = db.only w := by
    unfold Db.only
    simp only [hjobs, jobOwner_update h]
    rfl
  unfold Db.Spares
  rw [hsame]
  exact Db.Spares.refl w db

theorem spares_updateSchedules {p : ScheduleRow → Bool} {f : ScheduleRow → ScheduleRow} {hf}
    (hguard : ∀ s, p s = true → s.ownerUserId ≠ w)
    (h : ∀ s, (f s).ownerUserId = s.ownerUserId) :
    Db.Spares w db { db with schedules := db.schedules.update p f hf } := by
  have hschedules : (db.schedules.update p f hf).restrict (fun s => s.ownerUserId == w) =
      db.schedules.restrict fun s => s.ownerUserId == w :=
    Table.restrict_update_of_not (fun s _ => by rw [h]) fun s _ hs => by simpa using hguard s hs
  have hsame : ({ db with schedules := db.schedules.update p f hf } : Db).only w = db.only w := by
    unfold Db.only
    simp only [hschedules, scheduleOwner_update h]
    rfl
  unfold Db.Spares
  rw [hsame]
  exact Db.Spares.refl w db

end Spares

end TaskHarbor
