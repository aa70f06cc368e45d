import TaskHarbor.Lifecycle.Births
import TaskHarbor.Ownership.Writes
import TaskHarbor.Schedule.View

/-! The operations that a user calls. Each is local to the rows of the user and spares the rows of
everyone else. -/
namespace TaskHarbor

open Relational Transaction

section Jobs

variable {db db₁ db' : Db} {u w : ℕ} {t : ℤ}

theorem insertJob_owner {mk : ℕ → JobRow} {hk} {id : ℕ}
    (h : insertJob mk hk db = .ok (id, db₁)) :
    id = db.jobs.next ∧ db₁.jobOwner id = some (mk id).ownerUserId := by
  obtain ⟨rfl, -, -, -, rfl⟩ := insertJob_ok.mp h
  refine ⟨rfl, ?_⟩
  rw [jobOwner_insertNew, if_pos rfl]

theorem insertJob_old {mk : ℕ → JobRow} {hk} {id old : ℕ}
    (h : insertJob mk hk db = .ok (id, db₁)) (hold : (db.jobOwner old).isSome = true) :
    db₁.jobOwner old = db.jobOwner old := by
  obtain ⟨rfl, -, -, -, rfl⟩ := insertJob_ok.mp h
  rw [jobOwner_insertNew, if_neg (job_ne_next hold)]

theorem insertArtifact_owner {mk : ℕ → ArtifactRow} {hk} {x : Unit}
    (h : insertArtifact mk hk db = .ok (x, db')) (id : ℕ) : db'.jobOwner id = db.jobOwner id := by
  obtain ⟨-, -, -, rfl⟩ := insertArtifact_ok.mp h
  rfl

theorem insertInputArtifact_local {jobId itemIndex : ℕ} {input : NewInputArtifact}
    (h : db.jobOwner jobId = some u) :
    Tx.Local (Db.only u) (insertInputArtifact jobId itemIndex input t) db := by
  refine Tx.local_lift_bind fun _ _ => Tx.local_lift_bind fun _ _ => ?_
  refine Tx.local_lift_bind fun _ _ => Tx.local_lift_bind fun _ _ => ?_
  exact Tx.local_lift_bind fun _ _ => Tx.local_lift_bind fun _ _ => insertArtifact_local h

theorem insertInputArtifacts_local {jobId itemIndex : ℕ} {inputs : List NewInputArtifact}
    (h : db.jobOwner jobId = some u) :
    Tx.Local (Db.only u) (insertInputArtifacts jobId t itemIndex inputs) db := by
  induction inputs generalizing db itemIndex with
  | nil => exact Tx.local_pure () db
  | cons input rest ih =>
    refine Tx.local_bind (insertInputArtifact_local h) fun _ db' hinsert => ih ?_
    obtain ⟨_, -, hinsert⟩ := insertInputArtifact_ok hinsert
    rw [insertArtifact_owner hinsert, h]

theorem copyInputs_local {jobId : ℕ} {sources : List ArtifactRow}
    (h : db.jobOwner jobId = some u) :
    Tx.Local (Db.only u) (copyInputs jobId t sources) db := by
  induction sources generalizing db with
  | nil => exact Tx.local_pure () db
  | cons source rest ih =>
    refine Tx.local_bind (insertArtifact_local h) fun _ db' hinsert => ih ?_
    rw [insertArtifact_owner hinsert, h]

/-- A row of the user is created with its inputs. -/
theorem spares_created {mk : ℕ → JobRow} {hk} {id : ℕ} {kind : ArtifactKind}
    {rows : List ArtifactRow} (hne : (mk id).ownerUserId ≠ w)
    (hinsert : insertJob mk hk db = .ok (id, db₁)) (happended : Appended db₁ db' id kind rows) :
    Db.Spares w db db' := by
  obtain ⟨-, howner⟩ := insertJob_owner hinsert
  have hforeign : db₁.jobOwner id ≠ some w := by
    rw [howner]
    exact fun h => hne (Option.some.inj h)
  obtain ⟨rfl, -, -, -, rfl⟩ := insertJob_ok.mp hinsert
  exact (spares_insertJob hne).trans (happended.spares hforeign)

/-! Creation -/

theorem createImageJobTx_local {request : NewImageJob} (hrooted : db.Rooted)
    (howner : request.ownerUserId = u) :
    Tx.Local (Db.only u) (createImageJobTx request t) db := by
  refine Tx.local_get (by rw [existingImageJob_only howner]) ?_
  refine Tx.local_lift_bind fun found _ => ?_
  cases found with
  | some id => exact Tx.local_pure _ db
  | none =>
    refine Tx.local_lift_bind fun name _ => ?_
    refine Tx.local_bind (insertJob_local hrooted howner) fun id db₁ hinsert => ?_
    have hnew : db₁.jobOwner id = some u := by
      rw [(insertJob_owner hinsert).2]
      exact congrArg some howner
    exact Tx.local_bind (insertInputArtifacts_local hnew) fun _ db₂ _ => Tx.local_pure _ db₂

theorem createImageJob_local {request : NewImageJob} (hrooted : db.Rooted)
    (howner : request.ownerUserId = u) :
    Session.Local (Db.only u) (createImageJob request t) db := by
  refine Session.local_lift_bind fun _ _ => ?_
  refine Session.local_bind (Session.local_commit (createImageJobTx_local hrooted howner)) ?_
  intro creation db' hcommit
  cases creation with
  | existing id =>
    refine Session.local_query (readBack_only _ (Or.inl ?_))
    rw [howner]
  | created id =>
    refine Session.local_query (readBack_only _ (Or.inr ⟨rfl, ?_⟩))
    rcases createImageJobTx_ok (commit_eq_ok.mp hcommit) with
      ⟨_, -, h, -⟩ | ⟨-, id', db₁, rows, hinsert, happended, -, h⟩
    · cases h
    · cases h
      rw [Db.jobOwner, happended.jobs]
      exact (insertJob_owner hinsert).2.trans (congrArg some howner)

theorem createImageJob_spares {request : NewImageJob} (hne : request.ownerUserId ≠ w) :
    Session.Moves (Db.Spares w) (createImageJob request t) db := by
  refine Session.moves_lift_bind (.refl w db) fun _ _ => ?_
  refine Session.moves_bind_read (Session.moves_commit (.refl w db) ?_) ?_
  · intro creation db' h
    rcases createImageJobTx_ok h with ⟨_, -, -, rfl⟩ | ⟨-, id, db₁, rows, hinsert, happended, -⟩
    · exact .refl w db'
    · exact spares_created hne hinsert happended
  · rintro (id | id) db' <;> rfl

/-! Retry -/

theorem manualRetryTx_local {id : JobId} (hrooted : db.Rooted) :
    Tx.Local (Db.only u) (manualRetryTx id (some u) t) db := by
  have hsame : ((db.only u).jobs.get? id.get).filter (ownedBy (some u)) =
      (db.jobs.get? id.get).filter (ownedBy (some u)) := by
    rw [only_job, Option.filter_filter]
    simp only [Bool.and_self]
  refine Tx.local_get (by simp only [hsame]) ?_
  cases hsource : (db.jobs.get? id.get).filter (ownedBy (some u)) with
  | none => exact Tx.local_pure none db
  | some source =>
    obtain ⟨hget, howned⟩ := Option.filter_eq_some_iff.mp hsource
    have howner : source.ownerUserId = u := by simpa [ownedBy] using howned
    dsimp only
    split
    · exact Tx.local_throw _ db
    · refine Tx.local_bind (insertJob_local hrooted howner) fun newId db₁ hinsert => ?_
      have hnew : db₁.jobOwner newId = some u := by
        rw [(insertJob_owner hinsert).2]
        exact congrArg some howner
      have hold : db₁.jobOwner source.id = some u := by
        have hid : source.id = id.get := Table.key_of_get? hget
        have hstored : db.jobOwner source.id = some u :=
          jobOwner_eq_some.mpr ⟨source, hid ▸ hget, howner⟩
        rw [insertJob_old hinsert (by rw [hstored]; rfl), hstored]
      have hinputs : ((db₁.only u).artifacts.rows.filter fun a =>
          a.jobId == source.id && a.kind == .input) =
          db₁.artifacts.rows.filter fun a => a.jobId == source.id && a.kind == .input := by
        refine Table.filter_restrict fun a _ ha => ?_
        rw [Bool.and_eq_true, beq_iff_eq] at ha
        rw [ha.1, hold, beq_self_eq_true]
      refine Tx.local_get (by simp only [hinputs]) ?_
      exact Tx.local_bind (copyInputs_local hnew) fun _ db₂ _ => Tx.local_pure _ db₂

theorem manualRetry_local {id : JobId} (hrooted : db.Rooted) :
    Session.Local (Db.only u) (manualRetry id (some u) t) db := by
  refine Session.local_bind (Session.local_commit (manualRetryTx_local hrooted)) ?_
  rintro (_ | newId) db' -
  · exact Session.local_pure none db'
  · exact Session.local_lift_bind fun jobId _ => Session.local_query (getWithOwner_only jobId)

theorem manualRetry_spares {id : JobId} (hne : u ≠ w) :
    Session.Moves (Db.Spares w) (manualRetry id (some u) t) db := by
  refine Session.moves_bind_read (Session.moves_commit (.refl w db) ?_) ?_
  · intro result db' h
    rcases manualRetryTx_ok h with ⟨-, -, rfl⟩ |
      ⟨source, newId, db₁, rows, -, howned, -, -, hinsert, happended, -⟩
    · exact .refl w db'
    · have howner : source.ownerUserId = u := by simpa [ownedBy] using howned
      have hforeign : (source.retryCopy t newId).ownerUserId ≠ w := by
        intro h
        exact hne (howner.symm.trans h)
      exact spares_created hforeign hinsert happended
  · rintro (_ | newId) db'
    · rfl
    · simp only [Session.bind_run, Session.liftExcept_run]
      cases decodeJobId newId <;> rfl

/-! Cancel -/

theorem cancellable_owner {id : ℕ} {r : JobRow} (h : r.cancellable id (some u) = true) :
    r.ownerUserId = u := by
  have howned := (JobRow.cancellable_iff.mp h).2.1
  simpa [ownedBy] using howned

theorem requestCancel_local (id : JobId) :
    Session.Local (Db.only u) (requestCancel id (some u) t) db := by
  refine Session.local_bind (Session.local_commit ?_) fun n db' _ => Session.local_query ?_
  · exact updateJobs_local (fun _ h => cancellable_owner h) fun _ => rfl
  · unfold requestCancelReply
    rw [getWithOwner_only]

theorem requestCancel_spares (id : JobId) (hne : u ≠ w) :
    Session.Moves (Db.Spares w) (requestCancel id (some u) t) db := by
  refine Session.moves_bind_read (Session.moves_commit (.refl w db) ?_) fun _ _ => rfl
  intro n db' h
  cases h
  refine spares_updateJobs (fun r hr => ?_) fun _ => rfl
  rw [cancellable_owner hr]
  exact hne

end Jobs

/-! ### Schedules -/

section Schedules

variable {db db' : Db} {u w : ℕ} {t asOf : ℤ}

theorem insertSchedule_owner {mk : ℕ → ScheduleRow} {hk} {id : ℕ}
    (h : insertSchedule mk hk db = .ok (id, db')) :
    db'.scheduleOwner id = some (mk id).ownerUserId := by
  obtain ⟨rfl, -, -, rfl⟩ := insertSchedule_ok.mp h
  rw [scheduleOwner_insertNew, if_pos rfl]

theorem insertScheduleInput_local {scheduleId itemIndex : ℕ} {input : NewInputArtifact}
    (h : db.scheduleOwner scheduleId = some u) :
    Tx.Local (Db.only u) (insertScheduleInput scheduleId itemIndex input t) db := by
  refine Tx.local_lift_bind fun _ _ => Tx.local_lift_bind fun _ _ => ?_
  refine Tx.local_lift_bind fun _ _ => Tx.local_lift_bind fun _ _ => ?_
  exact Tx.local_lift_bind fun _ _ => Tx.local_lift_bind fun _ _ => insertScheduleInputRow_local h

theorem insertScheduleInputs_local {scheduleId itemIndex : ℕ} {inputs : List NewInputArtifact}
    (h : db.scheduleOwner scheduleId = some u) :
    Tx.Local (Db.only u) (insertScheduleInputs scheduleId t itemIndex inputs) db := by
  induction inputs generalizing db itemIndex with
  | nil => exact Tx.local_pure () db
  | cons input rest ih =>
    refine Tx.local_bind (insertScheduleInput_local h) fun _ db' hinsert => ih ?_
    obtain ⟨row, -, -, -, hframe⟩ := insertScheduleInput_ok hinsert
    rw [hframe]
    exact h

theorem createScheduleTx_local {request : NewSchedule} (hrooted : db.Rooted)
    (howner : request.ownerUserId = u) :
    Tx.Local (Db.only u) (createScheduleTx request t) db := by
  refine Tx.local_lift_bind fun name _ => ?_
  refine Tx.local_lift_bind fun _ _ => Tx.local_lift_bind fun _ _ => ?_
  refine Tx.local_bind (insertSchedule_local hrooted howner) fun id db₁ hinsert => ?_
  have hnew : db₁.scheduleOwner id = some u := by
    rw [insertSchedule_owner hinsert]
    exact congrArg some howner
  exact Tx.local_bind (insertScheduleInputs_local hnew) fun _ db₂ _ => Tx.local_pure _ db₂

theorem createSchedule_local {request : NewSchedule} (hrooted : db.Rooted)
    (howner : request.ownerUserId = u) :
    Session.Local (Db.only u) (createSchedule request t) db := by
  refine Session.local_lift_bind fun _ _ => ?_
  refine Session.local_bind (Session.local_commit (createScheduleTx_local hrooted howner)) ?_
  intro id db' _
  unfold Session.Local
  rw [Session.liftExcept_run, Session.liftExcept_run]

theorem createSchedule_spares {request : NewSchedule} (hne : request.ownerUserId ≠ w) :
    Session.Moves (Db.Spares w) (createSchedule request t) db := by
  refine Session.moves_lift_bind (.refl w db) fun _ _ => ?_
  refine Session.moves_bind_read (Session.moves_commit (.refl w db) ?_) fun _ _ => rfl
  intro id db' h
  obtain ⟨rows, rfl, -, -, hall, happended, hframe⟩ := createScheduleTx_ok h
  rw [hframe]
  exact spares_createSchedule hne happended hall

/-! Edits -/

theorem updateScheduleTx_local {id : ScheduleId} {request : UpdateSchedule} {next : ℤ} :
    Tx.Local (Db.only u) (updateScheduleTx id request next (some u) t) db := by
  refine Tx.local_lift_bind fun name _ => ?_
  refine Tx.local_lift_bind fun _ _ => Tx.local_lift_bind fun _ _ => ?_
  refine updateSchedules_local (fun s hs => ?_) fun _ => rfl
  rw [Bool.and_eq_true] at hs
  simpa using hs.2

theorem updateScheduleAtWithOwner_local {id : ScheduleId} {request : UpdateSchedule} :
    Session.Local (Db.only u) (updateScheduleAtWithOwner id request asOf (some u) t) db := by
  refine Session.local_lift_bind fun _ _ => Session.local_lift_bind fun next _ => ?_
  refine Session.local_bind (Session.local_commit updateScheduleTx_local) fun n db' _ => ?_
  exact Session.local_pure _ db'

theorem updateScheduleTx_spares {id : ScheduleId} {request : UpdateSchedule} {next : ℤ} {n : ℕ}
    (hne : u ≠ w) (h : updateScheduleTx id request next (some u) t db = .ok (n, db')) :
    Db.Spares w db db' := by
  unfold updateScheduleTx at h
  simp only [Tx.bind_ok, lift_ok] at h
  obtain ⟨name, _, ⟨-, rfl⟩, _, _, ⟨-, rfl⟩, _, _, ⟨-, rfl⟩, h⟩ := h
  cases h
  refine spares_updateSchedules (fun s hs => ?_) fun _ => rfl
  rw [Bool.and_eq_true] at hs
  have howner : s.ownerUserId = u := by simpa using hs.2
  rw [howner]
  exact hne

theorem updateScheduleAtWithOwner_spares {id : ScheduleId} {request : UpdateSchedule}
    (hne : u ≠ w) :
    Session.Moves (Db.Spares w) (updateScheduleAtWithOwner id request asOf (some u) t) db := by
  refine Session.moves_lift_bind (.refl w db) fun _ _ => ?_
  refine Session.moves_lift_bind (.refl w db) fun next _ => ?_
  refine Session.moves_bind_read (Session.moves_commit (.refl w db) ?_) fun _ _ => rfl
  exact fun n db' h => updateScheduleTx_spares hne h

end Schedules

end TaskHarbor
