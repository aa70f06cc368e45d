import TaskHarbor.System.Cancel
import TaskHarbor.System.Descent

/-! Owner isolation. What a user asks for themself is answered from the rows of that user alone, and
touches no other rows. -/
namespace TaskHarbor

open Relational Transaction Runs

/-- The operations that a user calls. -/
inductive OwnerOp where
  | list
  | get (id : JobId)
  | requestCancel (id : JobId)
  | manualRetry (id : JobId)
  | createImageJob (request : NewImageJob)
  | findIdempotentImageJob (idempotency : IdempotencyRequest)
  | activeJobCount
  | getDownloadableArtifact (artifactId : ℕ)
  | createSchedule (request : NewSchedule)
  | listSchedules
  | getSchedule (id : ScheduleId)
  | updateSchedule (id : ScheduleId) (request : UpdateSchedule) (asOf : ℤ)

def OwnerOp.Answer : OwnerOp → Type
  | .list => List JobRecord
  | .get _ | .requestCancel _ | .manualRetry _ | .findIdempotentImageJob _ => Option JobRecord
  | .createImageJob _ => JobRecord
  | .activeJobCount => ℕ
  | .getDownloadableArtifact _ => Option ArtifactRecord
  | .createSchedule _ => ScheduleRecord
  | .listSchedules => List ScheduleRecord
  | .getSchedule _ | .updateSchedule .. => Option ScheduleRecord

/-- The `..._for_owner` variant of an operation, called for the user `u`. -/
def OwnerOp.run (u : ℕ) (now : ℤ) : (op : OwnerOp) → Session op.Answer
  | .list => query fun db => listWithOwner (some u) fun _ => db
  | .get id => query (TaskHarbor.getWithOwner id (some u))
  | .requestCancel id => TaskHarbor.requestCancel id (some u) now
  | .manualRetry id => TaskHarbor.manualRetry id (some u) now
  | .createImageJob request => TaskHarbor.createImageJob { request with ownerUserId := u } now
  | .findIdempotentImageJob idempotency => query (TaskHarbor.findIdempotentImageJob u idempotency)
  | .activeJobCount => query (activeJobCountForOwner u)
  | .getDownloadableArtifact artifactId =>
      query (getDownloadableArtifactWithOwner artifactId (some u))
  | .createSchedule request => createScheduleRecord { request with ownerUserId := u } now
  | .listSchedules => query (listSchedulesWithOwner (some u))
  | .getSchedule id => query (getScheduleWithOwner id (some u))
  | .updateSchedule id request asOf => updateScheduleRecord id request asOf (some u) now

section Local

variable {db : Db} {u w : ℕ} {now asOf : ℤ}

theorem createScheduleRecord_local {request : NewSchedule} (h : db.Descends)
    (howner : request.ownerUserId = u) :
    Session.Local (Db.only u) (createScheduleRecord request now) db := by
  refine Session.local_bind (createSchedule_local h.rooted howner) fun id db' hcreate => ?_
  have hturns : db.Turns now (createSchedule request now db).2 := createSchedule_turns
  have hplans : db.Plans (fun _ => True) (fun _ _ _ => False) (fun _ => False)
      (createSchedule request now db).2 := createSchedule_plans trivial
  have hinherits := h.quiet hturns hplans
  rw [hcreate] at hinherits
  have hstored : db'.scheduleOwner id.get = some u :=
    scheduleOwner_eq_some.mpr ⟨_, createSchedule_ok hcreate, howner⟩
  refine Session.local_query ?_
  unfold readBackSchedule
  rw [getScheduleWithOwner_none_only hinherits hstored]

theorem updateScheduleRecord_local {id : ScheduleId} {request : UpdateSchedule}
    (hlegible : db.Legible) (h : db.Descends) :
    Session.Local (Db.only u) (updateScheduleRecord id request asOf (some u) now) db := by
  refine Session.local_bind updateScheduleAtWithOwner_local fun updated db' hupdate => ?_
  have hturns : db.Turns now (updateScheduleAtWithOwner id request asOf (some u) now db).2 :=
    updateScheduleAtWithOwner_turns
  have hplans : db.Plans (fun _ => False) (fun _ _ _ => True) (fun _ => False)
      (updateScheduleAtWithOwner id request asOf (some u) now db).2 :=
    updateScheduleAtWithOwner_plans hlegible.inv.schedules fun _ => trivial
  have hinherits := h.quiet hturns hplans
  rw [hupdate] at hinherits
  cases updated with
  | false => exact Session.local_pure none db'
  | true => exact Session.local_query (getScheduleWithOwner_only hinherits id)

/-- The answer to a user, and the rows of the user afterwards, depend on those rows only. -/
theorem OwnerOp.run_local (hlegible : db.Legible) (h : db.Descends) (op : OwnerOp) :
    Session.Local (Db.only u) (op.run u now) db := by
  cases op with
  | list => exact Session.local_query listWithOwner_only
  | get id => exact Session.local_query (getWithOwner_only id)
  | requestCancel id => exact requestCancel_local id
  | manualRetry id => exact manualRetry_local h.rooted
  | createImageJob request => exact createImageJob_local h.rooted rfl
  | findIdempotentImageJob idempotency =>
    exact Session.local_query (findIdempotentImageJob_only idempotency)
  | activeJobCount => exact Session.local_query activeJobCountForOwner_only
  | getDownloadableArtifact artifactId =>
    exact Session.local_query (getDownloadableArtifactWithOwner_only artifactId)
  | createSchedule request => exact createScheduleRecord_local h rfl
  | listSchedules => exact Session.local_query (listSchedulesWithOwner_only h.inherits)
  | getSchedule id => exact Session.local_query (getScheduleWithOwner_only h.inherits id)
  | updateSchedule id request asOf => exact updateScheduleRecord_local hlegible h

/-- An operation of a user changes no row of another. -/
theorem OwnerOp.run_spares (hne : u ≠ w) (op : OwnerOp) :
    Session.Moves (Db.Spares w) (op.run u now) db := by
  cases op with
  | requestCancel id => exact requestCancel_spares id hne
  | manualRetry id => exact manualRetry_spares hne
  | createImageJob request => exact createImageJob_spares hne
  | createSchedule request =>
    unfold Session.Moves OwnerOp.run
    rw [createScheduleRecord_db]
    exact createSchedule_spares hne
  | updateSchedule id request asOf =>
    unfold Session.Moves OwnerOp.run
    rw [updateScheduleRecord_db]
    exact updateScheduleAtWithOwner_spares hne
  | list => exact .refl w db
  | get id => exact .refl w db
  | findIdempotentImageJob idempotency => exact .refl w db
  | activeJobCount => exact .refl w db
  | getDownloadableArtifact artifactId => exact .refl w db
  | listSchedules => exact .refl w db
  | getSchedule id => exact .refl w db

/-! ### Ids of someone else -/

theorem filter_owned_eq_none {id : ℕ} (h : db.jobOwner id ≠ some u) :
    (db.jobs.get? id).filter (ownedBy (some u)) = none := by
  rw [Option.filter_eq_none_iff]
  intro r hr howned
  exact h (jobOwner_eq_some.mpr ⟨r, hr, by simpa [ownedBy] using howned⟩)

theorem getWithOwner_foreign {id : JobId} (h : db.jobOwner id.get ≠ some u) :
    getWithOwner id (some u) db = .ok none := by
  unfold getWithOwner
  rw [filter_owned_eq_none h]

theorem updateJobs_none {p : JobRow → Bool} {f : JobRow → JobRow} {hf}
    (h : ∀ r ∈ db.jobs, p r = false) : updateJobs p f hf db = .ok (0, db) := by
  have hsame : db.jobs.update p f hf = db.jobs :=
    Table.update_eq_self fun r hr hp => by cases (h r hr).symm.trans hp
  unfold updateJobs
  rw [Table.count_eq_zero.mpr h, hsame]

theorem updateSchedules_none {p : ScheduleRow → Bool} {f : ScheduleRow → ScheduleRow} {hf}
    (h : ∀ s ∈ db.schedules, p s = false) : updateSchedules p f hf db = .ok (0, db) := by
  have hsame : db.schedules.update p f hf = db.schedules :=
    Table.update_eq_self fun s hs hp => by cases (h s hs).symm.trans hp
  unfold updateSchedules
  rw [Table.count_eq_zero.mpr h, hsame]

theorem requestCancel_foreign {id : JobId} (h : db.jobOwner id.get ≠ some u) :
    requestCancel id (some u) now db = (.ok none, db) := by
  have hnone : ∀ r ∈ db.jobs, r.cancellable id.get (some u) = false := by
    intro r hr
    by_contra hp
    rw [Bool.not_eq_false] at hp
    have hid := (JobRow.cancellable_iff.mp hp).1
    have hget : db.jobs.get? id.get = some r := Table.get?_eq_some.mpr ⟨hr, hid⟩
    exact h (jobOwner_eq_some.mpr ⟨r, hget, cancellable_owner hp⟩)
  refine (Session.commit_bind_ok (updateJobs_none hnone)).trans ?_
  simp only [query_run, requestCancelReply, if_true, getWithOwner_foreign h]
  rfl

theorem manualRetry_foreign {id : JobId} (h : db.jobOwner id.get ≠ some u) :
    manualRetry id (some u) now db = (.ok none, db) := by
  have htx : manualRetryTx id (some u) now db = .ok (none, db) := by
    unfold manualRetryTx
    rw [Tx.bind_run, Tx.get_run]
    simp only [filter_owned_eq_none h]
    rfl
  exact Session.commit_bind_ok htx

theorem getDownloadableArtifactWithOwner_foreign {artifactId : ℕ} (hle : artifactId ≤ i64Max)
    (h : ∀ a, db.artifacts.get? artifactId = some a → db.jobOwner a.jobId ≠ some u) :
    getDownloadableArtifactWithOwner artifactId (some u) db = .ok none := by
  have hnone : (db.artifacts.get? artifactId).filter (ArtifactRow.downloadable db (some u)) =
      none := by
    rw [Option.filter_eq_none_iff]
    intro a ha hdownloadable
    exact h a ha (downloadable_only hdownloadable)
  unfold getDownloadableArtifactWithOwner encodeU64
  rw [if_pos hle, except_ok_bind, hnone]
  rfl

theorem getScheduleWithOwner_foreign {id : ScheduleId} (h : db.scheduleOwner id.get ≠ some u) :
    getScheduleWithOwner id (some u) db = .ok none := by
  have hnone : (db.schedules.get? id.get).filter (scheduleOwnedBy (some u)) = none := by
    rw [Option.filter_eq_none_iff]
    intro s hs howned
    exact h (scheduleOwner_eq_some.mpr ⟨s, hs, by simpa [scheduleOwnedBy] using howned⟩)
  unfold getScheduleWithOwner
  rw [hnone]

/-- The parameters of an edit, bound before its row is looked for. -/
def UpdateSchedule.bind (request : UpdateSchedule) : Except RepositoryError Unit := do
  let _ ← varcharParam 100 request.name.asStr
  let _ ← encodeU32 request.intervalSeconds "schedule interval"
  let _ ← encodeU32 request.maxWidth "schedule max width"

theorem updateScheduleTx_foreign {id : ScheduleId} {request : UpdateSchedule} {next : ℤ}
    (h : db.scheduleOwner id.get ≠ some u) :
    updateScheduleTx id request next (some u) now db = request.bind.map fun _ => (0, db) := by
  have hnone : ∀ s ∈ db.schedules,
      (s.id == id.get && (some u).all fun u => s.ownerUserId == u) = false := by
    intro s hs
    by_contra hp
    rw [Bool.not_eq_false, Bool.and_eq_true, beq_iff_eq] at hp
    have hget : db.schedules.get? id.get = some s := Table.get?_eq_some.mpr ⟨hs, hp.1⟩
    exact h (scheduleOwner_eq_some.mpr ⟨s, hget, by simpa using hp.2⟩)
  unfold updateScheduleTx UpdateSchedule.bind
  simp only [Tx.bind_run, Tx.liftExcept_run]
  cases varcharParam 100 request.name.asStr with
  | error e => rfl
  | ok name =>
    cases encodeU32 request.intervalSeconds "schedule interval" with
    | error e => rfl
    | ok interval =>
      cases encodeU32 request.maxWidth "schedule max width" with
      | error e => rfl
      | ok width => exact updateSchedules_none hnone

/-- What an edit answers when it finds no row. -/
def UpdateSchedule.refusal (request : UpdateSchedule) (asOf : ℤ) :
    Except RepositoryError (Option ScheduleRecord) := do
  request.validate
  let _ ← nextSlotAfter request.anchorAt request.intervalSeconds asOf
  request.bind
  return none

/-- An edit of a schedule that is not the user's. -/
theorem updateScheduleRecord_foreign {id : ScheduleId} {request : UpdateSchedule}
    (h : db.scheduleOwner id.get ≠ some u) :
    updateScheduleRecord id request asOf (some u) now db = (request.refusal asOf, db) := by
  unfold updateScheduleRecord updateScheduleAtWithOwner UpdateSchedule.refusal
  simp only [Session.bind_run, Session.liftExcept_run]
  cases request.validate with
  | error e => rfl
  | ok _ =>
    cases nextSlotAfter request.anchorAt request.intervalSeconds asOf with
    | error e => rfl
    | ok next =>
      have htx : updateScheduleTx id request next (some u) now db =
          request.bind.map fun _ => (0, db) := updateScheduleTx_foreign h
      cases hbind : request.bind with
      | error e =>
        rw [hbind] at htx
        simp only [except_ok_bind, commit_error htx]
        rfl
      | ok _ =>
        rw [hbind] at htx
        simp only [except_ok_bind, commit_ok htx]
        rfl

end Local

/-- Ids of someone else are answered as if nothing were there. -/
structure Db.Hides (db : Db) (u : ℕ) (now : ℤ) : Prop where
  get : ∀ id : JobId, db.jobOwner id.get ≠ some u →
    (OwnerOp.get id).run u now db = (.ok none, db)
  requestCancel : ∀ id : JobId, db.jobOwner id.get ≠ some u →
    (OwnerOp.requestCancel id).run u now db = (.ok none, db)
  manualRetry : ∀ id : JobId, db.jobOwner id.get ≠ some u →
    (OwnerOp.manualRetry id).run u now db = (.ok none, db)
  download : ∀ artifactId ≤ i64Max,
    (∀ a, db.artifacts.get? artifactId = some a → db.jobOwner a.jobId ≠ some u) →
      (OwnerOp.getDownloadableArtifact artifactId).run u now db = (.ok none, db)
  getSchedule : ∀ id : ScheduleId, db.scheduleOwner id.get ≠ some u →
    (OwnerOp.getSchedule id).run u now db = (.ok none, db)
  updateSchedule : ∀ (id : ScheduleId) request asOf, db.scheduleOwner id.get ≠ some u →
    (OwnerOp.updateSchedule id request asOf).run u now db = (request.refusal asOf, db)

theorem Db.hides (db : Db) (u : ℕ) (now : ℤ) : db.Hides u now where
  get := fun _ h => congrArg (·, db) (getWithOwner_foreign h)
  requestCancel := fun _ h => requestCancel_foreign h
  manualRetry := fun _ h => manualRetry_foreign h
  download := fun _ hle h => congrArg (·, db) (getDownloadableArtifactWithOwner_foreign hle h)
  getSchedule := fun _ h => congrArg (·, db) (getScheduleWithOwner_foreign h)
  updateSchedule := fun _ _ _ h => updateScheduleRecord_foreign h

/-- In every reachable state, whatever a user asks for themself is answered, and changes their rows,
as if the rows of all others were absent; no row of another changes; ids of others are answered
like missing ones; and every row descends from rows of one owner. -/
theorem owner_isolation {s : System} (hs : s.Reachable) :
    (∀ u (op : OwnerOp),
      op.run u s.now (s.db.only u) = ((op.run u s.now s.db).1, (op.run u s.now s.db).2.only u) ∧
      ∀ w, w ≠ u → Db.Spares w s.db (op.run u s.now s.db).2) ∧
    (∀ u, s.db.Hides u s.now) ∧ s.db.Descends :=
  ⟨fun _ op => ⟨op.run_local hs.legible hs.descends, fun _ hne => op.run_spares hne.symm⟩,
    fun u => s.db.hides u s.now, hs.descends⟩

/-- A cancel of another user's job finds nothing. -/
theorem owner_isolation_foreign : ∃ (s : System) (u : ℕ), s.Reachable ∧
    s.db.jobOwner jobOne.get = some 1 ∧ u ≠ 1 ∧
    (OwnerOp.requestCancel jobOne).run u s.now s.db = (.ok none, s.db) ∧
    Db.Spares 1 s.db ((OwnerOp.requestCancel jobOne).run u s.now s.db).2 := by
  have hrun : (exec System.step (System.initial 0) sampleClaimOps).any (fun s =>
      s.db.jobOwner jobOne.get == some 1) = true := by
    decide +kernel
  obtain ⟨s, hexec, howner⟩ := (Option.any_eq_true _ _).mp hrun
  have hs := reachable_of_exec hexec
  rw [beq_iff_eq] at howner
  have hforeign : s.db.jobOwner jobOne.get ≠ some 2 := by
    rw [howner]
    decide
  obtain ⟨hisolated, hhides, -⟩ := owner_isolation hs
  exact ⟨s, 2, hs, howner, by decide, (hhides 2).requestCancel jobOne hforeign,
    (hisolated 2 (.requestCancel jobOne)).2 1 (by decide)⟩

end TaskHarbor
