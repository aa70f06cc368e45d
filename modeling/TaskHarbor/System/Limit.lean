import TaskHarbor.System.Uploads

/-! The limit of active jobs. One API process lets one upload at a time look up its key, count the
active jobs of its owner and insert; a retry inserts without a count, and so does the scheduler. -/
namespace TaskHarbor

open Relational Transaction Runs

/-! ### Active jobs -/

def JobRow.isActiveOf (owner : ℕ) (r : JobRow) : Bool :=
  r.ownerUserId == owner && !r.state.isTerminal

/-- The answer of `active_job_count_for_owner`. -/
def Db.activeJobs (db : Db) (owner : ℕ) : ℕ := db.jobs.count (JobRow.isActiveOf owner)

section Count

variable {now asOf : ℤ} {db db' : Db} {owner : ℕ}

theorem activeJobCountForOwner_eq : activeJobCountForOwner owner db = .ok (db.activeJobs owner) :=
  rfl

/-- A step that adds no job row leaves no more active jobs. -/
theorem activeJobs_turns (hinv : db.Inv) (hturns : db.Turns now db')
    (hkeys : db.jobs.SameKeys db'.jobs) (owner : ℕ) :
    db'.activeJobs owner ≤ db.activeJobs owner := by
  refine Table.count_le_of_keys fun r' hr' hactive => ?_
  have hget : db'.jobs.get? r'.id = some r' := Table.get?_key hr'
  obtain ⟨r, hr⟩ : ∃ r, db.jobs.get? r'.id = some r := by
    rw [← Option.isSome_iff_exists, ← hkeys r'.id, hget]
    rfl
  obtain ⟨r'', hr'', htemplate⟩ := (hturns r'.id).keeps.job r hr
  obtain rfl : r' = r'' := Option.some.inj (hget.symm.trans hr'')
  have howner : r'.ownerUserId = r.ownerUserId := (congrArg JobRow.ownerUserId htemplate :)
  simp only [JobRow.isActiveOf, Bool.and_eq_true, beq_iff_eq, Bool.not_eq_true'] at hactive ⊢
  refine ⟨r, Table.mem_of_get? hr, Table.key_of_get? hr, howner ▸ hactive.1, ?_⟩
  by_contra hterminal
  rw [Bool.not_eq_false] at hterminal
  obtain ⟨⟨e, hsame⟩, -⟩ := (hturns r'.id).terminal (hinv.lifecycle r'.id) hr hterminal
  obtain rfl := Option.some.inj (hr''.symm.trans hsame)
  rw [hterminal] at hactive
  cases hactive.2

theorem activeJobs_congr (h : db'.jobs = db.jobs) (owner : ℕ) :
    db'.activeJobs owner = db.activeJobs owner := by
  unfold Db.activeJobs
  rw [h]

/-- A new job counts for its owner. -/
theorem activeJobs_insertNew {mk : ℕ → JobRow} {hk} (h : db'.jobs = db.jobs.insertNew mk hk)
    (hqueued : (mk db.jobs.next).state = .queued) (owner : ℕ) : db'.activeJobs owner =
      db.activeJobs owner + if (mk db.jobs.next).ownerUserId = owner then 1 else 0 := by
  unfold Db.activeJobs
  rw [h, Table.count_insertNew]
  simp [JobRow.isActiveOf, hqueued, JobStatus.isTerminal]

end Count

/-! ### New jobs -/

section Inserts

variable {now asOf : ℤ} {db db' : Db}

theorem Appended.job_table {db₁ : Db} {mk : ℕ → JobRow} {hk} {id : ℕ} {kind : ArtifactKind}
    {rows : List ArtifactRow} (hinsert : insertJob mk hk db = .ok (id, db₁))
    (h : Appended db₁ db' id kind rows) : db'.jobs = db.jobs.insertNew mk hk := by
  rw [h.frame]
  obtain ⟨-, -, -, -, rfl⟩ := insertJob_ok.mp hinsert
  rfl

/-- An upload inserts its row or nothing. -/
theorem createImageJob_inserts {request : NewImageJob} : Session.Moves (fun db db' =>
    db'.jobs = db.jobs ∨ db'.jobs = db.jobs.insertNew (request.row request.name.asStr now))
    (createImageJob request now) db := by
  unfold createImageJob
  refine Session.moves_lift_bind (Or.inl rfl) fun _ _ => ?_
  refine Session.moves_bind_read (Session.moves_commit (Or.inl rfl) ?_) ?_
  · intro c db' h
    rcases createImageJobTx_ok h with
      ⟨id, -, -, rfl⟩ | ⟨-, id, db₁, rows, hinsert, happended, -, -⟩
    · exact Or.inl rfl
    · exact Or.inr (happended.job_table hinsert)
  · rintro (id | id) db' <;> rfl

/-- The job that a manual retry would copy. -/
def retrySource (db : Db) (id : JobId) (owner : Option ℕ) : Option JobRow :=
  ((db.jobs.get? id.get).filter (ownedBy owner)).filter fun r =>
    r.state == .failed || r.state == .cancelled

/-- A manual retry inserts a copy of its source or nothing. -/
theorem manualRetry_inserts {id : JobId} {owner : Option ℕ} : Session.Moves (fun db db' =>
    db'.jobs = db.jobs ∨ ∃ source, retrySource db id owner = some source ∧
      db'.jobs = db.jobs.insertNew (source.retryCopy now)) (manualRetry id owner now) db := by
  unfold manualRetry
  refine Session.moves_bind_read (Session.moves_commit (Or.inl rfl) ?_) ?_
  · intro result db' h
    rcases manualRetryTx_ok h with ⟨-, -, rfl⟩ |
      ⟨source, newId, db₁, rows, hget, howned, hended, -, hinsert, happended, -⟩
    · exact Or.inl rfl
    · refine Or.inr ⟨source, ?_, happended.job_table hinsert⟩
      have hstate : (source.state == .failed || source.state == .cancelled) = true := by
        simpa using hended
      simp [retrySource, hget, howned, hstate]
  · rintro (_ | newId) db'
    · rfl
    · simp only [Session.bind_run, Session.liftExcept_run]
      cases decodeJobId newId <;> rfl

/-- The scheduler inserts an occurrence of its candidate or nothing. -/
theorem materializeNextScheduleAt_inserts {locked : List ℕ} : Session.Moves (fun db db' =>
    db'.jobs = db.jobs ∨ ∃ candidate scheduledFor count,
      scheduleCandidate db (bindTimestamp asOf) locked = some candidate ∧
      hasOverlap db candidate.id = false ∧
      db'.jobs = db.jobs.insertNew (candidate.jobRow scheduledFor count now))
    (materializeNextScheduleAt asOf locked now) db := by
  refine materializeNextScheduleAt_moves (Or.inl rfl) ?_
  intro candidate scheduledFor next job coalesced db₁ db' hc h
  have hjobs : db'.jobs = db₁.jobs := by rw [h.written]
  rw [hjobs]
  rcases materializeJob_ok.mp h.made with ⟨-, -, rfl⟩ | ⟨hfree, id, db₂, jobId, hinsert, hcopy, -⟩
  · exact Or.inl rfl
  · obtain ⟨rows, happended, -⟩ := copyScheduleInputs_ok hcopy
    exact Or.inr ⟨candidate, scheduledFor, _, hc, hfree, happended.job_table hinsert⟩

end Inserts

/-! ### The machine -/

/-- How far the request that holds the upload guard has come. -/
inductive UploadPhase where
  | begun
  /-- Its key is new. -/
  | looked
  /-- Its owner has room for one more job. -/
  | counted
  deriving DecidableEq

structure PendingUpload where
  request : NewImageJob
  phase : UploadPhase

structure Admissions where
  system : System
  /-- The holder of `upload_guard`. -/
  upload : Option PendingUpload
  /-- The owner of every job that a request created, and his active jobs right after it. -/
  created : List (ℕ × ℕ)

def Admissions.initial (now : ℤ) : Admissions := ⟨.initial now, none, []⟩

inductive AdmissionOp where
  | background (op : Op)
  | begin (request : NewImageJob)
  /-- The next call of the upload. -/
  | advance
  /-- The upload failed, or its client went away. -/
  | release
  | retry (id : JobId) (owner : ℕ)

/-- Without the requests that create jobs. -/
def Op.isBackground : Op → Bool
  | .create _ | .createImageJob _ | .manualRetry _ _ => false
  | _ => true

/-- Run the creating call of a request, and record a job that it created when it succeeds. -/
def Admissions.request {α : Type} (a : Admissions) (op : Op) (answer : Except RepositoryError α)
    (owner : ℕ) : Admissions :=
  let system := a.system.apply op
  { a with
    system
    created :=
      if answer.isOk ∧ system.db.jobs.next ≠ a.system.db.jobs.next then
        (owner, system.db.activeJobs owner) :: a.created
      else a.created }

/-- The insert of a counted upload. -/
def Admissions.insert (a : Admissions) (request : NewImageJob) : Admissions :=
  a.request (.createImageJob request) (createImageJob request a.system.now a.system.db).1
    request.ownerUserId

/-- `manual_retry_for_owner`. -/
def Admissions.retry (a : Admissions) (id : JobId) (owner : ℕ) : Admissions :=
  a.request (.manualRetry id (some owner))
    (manualRetry id (some owner) a.system.now a.system.db).1 owner

/-- The calls of `create_image_job` in upload.rs; a refused upload gives the guard back. -/
def Admissions.advance (maxActiveJobs : ℕ) (a : Admissions) (upload : PendingUpload) : Admissions :=
  let owner := upload.request.ownerUserId
  match upload.phase with
  | .begun =>
      match findReplay owner upload.request.idempotency a.system.db with
      | .ok none => { a with upload := some { upload with phase := .looked } }
      | _ => { a with upload := none }
  | .looked =>
      match activeJobCountForOwner owner a.system.db with
      | .ok activeJobs =>
          if maxActiveJobs ≤ activeJobs then { a with upload := none }
          else { a with upload := some { upload with phase := .counted } }
      | .error _ => { a with upload := none }
  | .counted => { a.insert upload.request with upload := none }

def Admissions.step (maxActiveJobs : ℕ) (a : Admissions) : AdmissionOp → Option Admissions
  | .background op =>
      if op.isBackground then (a.system.step op).map fun system => { a with system } else none
  | .begin request =>
      if a.upload.isNone then some { a with upload := some ⟨request, .begun⟩ } else none
  | .advance => a.upload.map (a.advance maxActiveJobs)
  | .release => some { a with upload := none }
  | .retry id owner => some (a.retry id owner)

/-- A counted upload of the owner has yet to insert its job. -/
def Admissions.reserved (a : Admissions) (owner : ℕ) : ℕ :=
  match a.upload with
  | some ⟨request, .counted⟩ => if request.ownerUserId = owner then 1 else 0
  | _ => 0

def Admissions.hasRoom (maxActiveJobs : ℕ) (a : Admissions) (owner : ℕ) : Bool :=
  decide (a.system.db.activeJobs owner + a.reserved owner < maxActiveJobs)

/-- A retry finds room beside a counted upload, and while an upload is counted so does an
occurrence. -/
def AdmissionOp.leavesRoom (maxActiveJobs : ℕ) (a : Admissions) : AdmissionOp → Bool
  | .retry id owner =>
      (retrySource a.system.db id (some owner)).isNone || a.hasRoom maxActiveJobs owner
  | .background (.materialize asOf locked) =>
      (scheduleCandidate a.system.db (bindTimestamp asOf) locked).all fun candidate =>
        hasOverlap a.system.db candidate.id || a.reserved candidate.ownerUserId == 0 ||
          a.hasRoom maxActiveJobs candidate.ownerUserId
  | _ => true

/-! ### Steps -/

structure Admissions.Inv (maxActiveJobs : ℕ) (a : Admissions) : Prop where
  system : a.system.Inv
  room : ∀ owner, 0 < a.reserved owner →
    a.system.db.activeJobs owner + a.reserved owner ≤ maxActiveJobs
  created : ∀ c ∈ a.created, c.2 ≤ maxActiveJobs

section Steps

variable {maxActiveJobs : ℕ} {a b : Admissions} {op : AdmissionOp}

theorem claimNext_keys {now : ℤ} {db : Db} {workerId claimToken : Uuid} {asOf : Option ℤ}
    {locked : List ℕ} : Session.Moves (fun db db' => db.jobs.SameKeys db'.jobs)
      (claimNext workerId asOf now claimToken locked) db := by
  refine Session.moves_commit (.refl _) fun result db' h => ?_
  rcases claimNextWithTime_ok h with ⟨-, rfl, -⟩ | ⟨candidate, worker, claimed, -, hclaims⟩
  · exact .refl _
  · intro id
    rw [hclaims.written]
    show ((db.jobs.put _).get? id).isSome = (db.jobs.get? id).isSome
    rw [Table.get?_put, Option.isSome_map]

theorem System.run_keys {α : Type} {s : System} {x : Session α}
    (h : Session.Moves Db.Stays x s.db) : s.db.jobs.SameKeys (s.run x).db.jobs := Db.Stays.jobs h

theorem System.runClaim_keys {s : System} {x : Session (Option ClaimedJob)}
    (h : Session.Moves (fun db db' => db.jobs.SameKeys db'.jobs) x s.db) :
    s.db.jobs.SameKeys (s.runClaim x).db.jobs := h

/-- Apart from the scheduler nothing in the background adds a job row. -/
theorem System.step_keys {s t : System} {op : Op} (hbackground : op.isBackground = true)
    (hmaterialize : ∀ asOf locked, op ≠ .materialize asOf locked) (h : s.step op = some t) :
    s.db.jobs.SameKeys t.db.jobs := by
  obtain ⟨-, rfl⟩ := System.step_eq_some.mp h
  cases op with
  | create | createImageJob | manualRetry => cases hbackground
  | materialize asOf locked => exact absurd rfl (hmaterialize asOf locked)
  | requestCancel => exact System.run_keys requestCancel_stays
  | registerWorker => exact System.run_keys registerWorker_stays
  | heartbeatWorker => exact System.run_keys heartbeatWorker_stays
  | stopWorker => exact System.run_keys stopWorker_stays
  | claimNext => exact System.runClaim_keys claimNext_keys
  | renewLease => exact System.run_keys renewLease_stays
  | updateProgress => exact System.run_keys updateProgress_stays
  | recordEncodingDuration => exact System.run_keys recordEncodingDuration_stays
  | recordFailure => exact System.run_keys recordFailure_stays
  | finishCancelled => exact System.run_keys finishCancelled_stays
  | complete => exact System.run_keys complete_stays
  | completeImageJob => exact System.run_keys completeImageJob_stays
  | reclaim => exact System.run_keys reclaimNextExpiredAttemptAt_stays
  | createSchedule => exact System.run_keys createSchedule_stays
  | updateSchedule => exact System.run_keys updateScheduleAtWithOwner_stays
  | expireOutputs => exact System.run_keys expireOutputArtifacts_stays
  | tick | readClock => exact .refl _

/-- A step in the background. -/
theorem Admissions.Inv.background (h : a.Inv maxActiveJobs) {op : Op} {system : System}
    (hbackground : op.isBackground = true)
    (hroom : (AdmissionOp.background op).leavesRoom maxActiveJobs a = true)
    (hstep : a.system.step op = some system) : Admissions.Inv maxActiveJobs { a with system } := by
  refine ⟨h.system.step hstep, fun owner hreserved => ?_, h.created⟩
  change 0 < a.reserved owner at hreserved
  have hbefore := h.room owner hreserved
  by_cases hmaterialize : ∃ asOf locked, op = .materialize asOf locked
  · obtain ⟨asOf, locked, rfl⟩ := hmaterialize
    obtain ⟨-, rfl⟩ := System.step_eq_some.mp hstep
    show (materializeNextScheduleAt asOf locked a.system.now a.system.db).2.activeJobs owner +
      a.reserved owner ≤ maxActiveJobs
    have hinserts : Session.Moves _ (materializeNextScheduleAt asOf locked a.system.now)
      a.system.db := materializeNextScheduleAt_inserts
    rcases hinserts with hsame | ⟨candidate, scheduledFor, count, hc, hfree, hjobs⟩
    · rw [activeJobs_congr hsame]
      exact hbefore
    · rw [activeJobs_insertNew hjobs rfl]
      simp only [AdmissionOp.leavesRoom, hc, Option.all_some, hfree, Bool.false_or] at hroom
      split
      · rename_i howner
        have hkey : candidate.ownerUserId = owner := howner
        rw [hkey] at hroom
        simp only [Admissions.hasRoom, Bool.or_eq_true, beq_iff_eq, decide_eq_true_eq] at hroom
        omega
      · exact hbefore
  · have hkeys := System.step_keys hbackground
      (fun asOf locked he => hmaterialize ⟨asOf, locked, he⟩) hstep
    have hle := activeJobs_turns h.system.db (System.step_db h.system hstep).turns hkeys owner
    show system.db.activeJobs owner + a.reserved owner ≤ maxActiveJobs
    omega

theorem mem_request_created {α : Type} {op : Op} {answer : Except RepositoryError α} {owner : ℕ}
    {c : ℕ × ℕ} (hc : c ∈ (a.request op answer owner).created) : c ∈ a.created ∨
      (a.system.apply op).db.jobs.next ≠ a.system.db.jobs.next ∧
        c = (owner, (a.system.apply op).db.activeJobs owner) := by
  unfold Admissions.request at hc
  dsimp only at hc
  split at hc
  · rename_i hcreated
    rcases List.mem_cons.mp hc with rfl | hc
    · exact Or.inr ⟨hcreated.2, rfl⟩
    · exact Or.inl hc
  · exact Or.inl hc

theorem retrySource_owner {db : Db} {id : JobId} {owner : ℕ} {source : JobRow}
    (h : retrySource db id (some owner) = some source) : source.ownerUserId = owner := by
  have howned := (Option.filter_eq_some_iff.mp (Option.filter_eq_some_iff.mp h).1).2
  simpa [ownedBy] using howned

/-- A retry that finds room leaves the owner within the limit. -/
theorem Admissions.Inv.retry (h : a.Inv maxActiveJobs) {id : JobId} {owner : ℕ}
    (hroom : (AdmissionOp.retry id owner).leavesRoom maxActiveJobs a = true) :
    (a.retry id owner).Inv maxActiveJobs := by
  have hstep : a.system.step (.manualRetry id (some owner)) =
      some (a.system.apply (.manualRetry id (some owner))) := System.step_eq_some.mpr ⟨rfl, rfl⟩
  have hinserts : Session.Moves _ (manualRetry id (some owner) a.system.now) a.system.db :=
    manualRetry_inserts
  refine ⟨h.system.step hstep, fun other hreserved => ?_, fun c hc => ?_⟩
  · change 0 < a.reserved other at hreserved
    have hbefore := h.room other hreserved
    show (manualRetry id (some owner) a.system.now a.system.db).2.activeJobs other +
      a.reserved other ≤ maxActiveJobs
    rcases hinserts with hsame | ⟨source, hsource, hjobs⟩
    · rw [activeJobs_congr hsame]
      exact hbefore
    · simp only [AdmissionOp.leavesRoom, hsource, Option.isNone_some, Bool.false_or,
        Admissions.hasRoom, decide_eq_true_eq] at hroom
      rw [activeJobs_insertNew hjobs rfl]
      split
      · rename_i hother
        obtain rfl : owner = other := (retrySource_owner hsource).symm.trans hother
        omega
      · exact hbefore
  · rcases mem_request_created hc with hc | ⟨hnext, rfl⟩
    · exact h.created c hc
    · show (manualRetry id (some owner) a.system.now a.system.db).2.activeJobs owner ≤ maxActiveJobs
      rcases hinserts with hsame | ⟨source, hsource, hjobs⟩
      · exact absurd (congrArg Table.next hsame) hnext
      · simp only [AdmissionOp.leavesRoom, hsource, Option.isNone_some, Bool.false_or,
          Admissions.hasRoom, decide_eq_true_eq] at hroom
        rw [activeJobs_insertNew hjobs rfl]
        split <;> omega

theorem Admissions.reserved_of_none (h : a.upload = none) (owner : ℕ) : a.reserved owner = 0 := by
  unfold Admissions.reserved
  rw [h]

/-- The insert of a counted upload leaves the owner within the limit. -/
theorem Admissions.Inv.insert (h : a.Inv maxActiveJobs) {request : NewImageJob}
    (hupload : a.upload = some ⟨request, .counted⟩) : Admissions.Inv maxActiveJobs
      { a.insert request with upload := none } := by
  have hstep : a.system.step (.createImageJob request) =
      some (a.system.apply (.createImageJob request)) := System.step_eq_some.mpr ⟨rfl, rfl⟩
  have hreserved : a.reserved request.ownerUserId = 1 := by
    unfold Admissions.reserved
    rw [hupload]
    exact if_pos rfl
  have hroom := h.room request.ownerUserId (by omega)
  have hinserts : Session.Moves _ (createImageJob request a.system.now) a.system.db :=
    createImageJob_inserts
  refine ⟨h.system.step hstep, fun owner hpositive => ?_, fun c hc => ?_⟩
  · rw [Admissions.reserved_of_none rfl] at hpositive
    omega
  · rcases mem_request_created hc with hc | ⟨hnext, rfl⟩
    · exact h.created c hc
    · show (createImageJob request a.system.now a.system.db).2.activeJobs request.ownerUserId ≤
        maxActiveJobs
      rcases hinserts with hsame | hjobs
      · exact absurd (congrArg Table.next hsame) hnext
      · rw [activeJobs_insertNew hjobs rfl]
        split <;> omega

theorem Admissions.Inv.release (h : a.Inv maxActiveJobs) :
    Admissions.Inv maxActiveJobs { a with upload := none } := by
  refine ⟨h.system, fun owner hreserved => ?_, h.created⟩
  rw [Admissions.reserved_of_none rfl] at hreserved
  omega

/-- An upload that is not counted reserves nothing. -/
theorem Admissions.Inv.hold (h : a.Inv maxActiveJobs) {upload : PendingUpload}
    (hphase : upload.phase = .counted →
      a.system.db.activeJobs upload.request.ownerUserId < maxActiveJobs) :
    Admissions.Inv maxActiveJobs { a with upload := some upload } := by
  refine ⟨h.system, fun owner hreserved => ?_, h.created⟩
  obtain ⟨request, phase⟩ := upload
  show a.system.db.activeJobs owner + Admissions.reserved { a with upload := some ⟨request, phase⟩ }
    owner ≤ maxActiveJobs
  unfold Admissions.reserved at hreserved ⊢
  cases phase with
  | begun | looked => simp at hreserved
  | counted =>
    have hroom := hphase rfl
    simp only at hreserved hroom ⊢
    split
    · rename_i howner
      rw [← howner]
      omega
    · rename_i howner
      rw [if_neg howner] at hreserved
      omega

theorem Admissions.Inv.advance (h : a.Inv maxActiveJobs) {upload : PendingUpload}
    (hupload : a.upload = some upload) : (a.advance maxActiveJobs upload).Inv maxActiveJobs := by
  obtain ⟨request, phase⟩ := upload
  unfold Admissions.advance
  cases phase with
  | begun =>
    simp only
    split
    · exact h.hold nofun
    · exact h.release
  | looked =>
    simp only [activeJobCountForOwner_eq]
    split
    · exact h.release
    · rename_i hroom
      exact h.hold fun _ => not_le.mp hroom
  | counted => exact h.insert hupload

theorem Admissions.Inv.step (h : a.Inv maxActiveJobs)
    (hroom : op.leavesRoom maxActiveJobs a = true) (hstep : a.step maxActiveJobs op = some b) :
    b.Inv maxActiveJobs := by
  cases op with
  | background op =>
    simp only [Admissions.step] at hstep
    split at hstep
    · rename_i hbackground
      obtain ⟨system, hsystem, rfl⟩ := Option.map_eq_some_iff.mp hstep
      exact h.background hbackground hroom hsystem
    · cases hstep
  | begin request =>
    simp only [Admissions.step] at hstep
    split at hstep
    · obtain rfl := Option.some.inj hstep
      exact h.hold nofun
    · cases hstep
  | advance =>
    obtain ⟨upload, hupload, rfl⟩ := Option.map_eq_some_iff.mp hstep
    exact h.advance hupload
  | release =>
    obtain rfl := Option.some.inj hstep
    exact h.release
  | retry id owner =>
    obtain rfl := Option.some.inj hstep
    exact h.retry hroom

theorem Admissions.Inv.initial (now : ℤ) : (Admissions.initial now).Inv maxActiveJobs where
  system := .initial now
  room := fun owner hreserved => by
    rw [Admissions.reserved_of_none rfl] at hreserved
    omega
  created := nofun

/-- A retry that creates a job without such room uses up the limit, or the room of the upload. -/
theorem retry_without_room {id : JobId} {owner : ℕ}
    (hroom : (AdmissionOp.retry id owner).leavesRoom maxActiveJobs a = false)
    (hstep : a.step maxActiveJobs (.retry id owner) = some b)
    (hcreated : b.system.db.jobs.next ≠ a.system.db.jobs.next) :
    maxActiveJobs < b.system.db.activeJobs owner + b.reserved owner := by
  obtain rfl := Option.some.inj hstep
  have hinserts : Session.Moves _ (manualRetry id (some owner) a.system.now) a.system.db :=
    manualRetry_inserts
  show maxActiveJobs < (manualRetry id (some owner) a.system.now a.system.db).2.activeJobs owner +
    a.reserved owner
  rcases hinserts with hsame | ⟨source, hsource, hjobs⟩
  · exact absurd (congrArg Table.next hsame) hcreated
  · have howner : (source.retryCopy a.system.now a.system.db.jobs.next).ownerUserId = owner := by
      show source.ownerUserId = owner
      exact retrySource_owner hsource
    simp only [AdmissionOp.leavesRoom, hsource, Option.isNone_some, Bool.false_or,
      Admissions.hasRoom, decide_eq_false_iff_not] at hroom
    rw [activeJobs_insertNew hjobs rfl, if_pos howner]
    omega

end Steps

/-- An upload that the handler answered had a known key, or its three calls were those of the
machine. -/
theorem submitImageJob_calls {app : AppState} {ids : FreshIds} {owner : ℕ}
    {idempotency : Option IdempotencyRequest} {request : StagedImageFields} {moments : Moments}
    {st st' : Storage} {job : JobRecord}
    (h : submitImageJob app ids.uploadBatch owner idempotency request moments st = (.ok job, st')) :
    findReplay owner idempotency moments.lookup = .ok (some job) ∨
    findReplay owner idempotency moments.lookup = .ok none ∧
      moments.count.activeJobs owner < app.maxActiveJobs ∧
      (createImageJob (request.imageJob owner idempotency) moments.now moments.create).1 =
        .ok job := by
  obtain ⟨found, st₁, hlookup, h⟩ := Session.bind_ok.mp h
  have hfound :=
    (Prod.mk.inj ((Session.liftExcept_run _ st).symm.trans (orDiscard_ok.mp hlookup))).1
  cases found with
  | some known =>
    obtain ⟨_, st₂, -, hreturn⟩ := Session.bind_ok.mp h
    cases hreturn
    exact Or.inl hfound
  | none =>
    obtain ⟨active, st₂, hcount, h⟩ := Session.bind_ok.mp h
    have hactive :=
      (Prod.mk.inj ((Session.liftExcept_run _ st₁).symm.trans (orDiscard_ok.mp hcount))).1
    obtain rfl : moments.count.activeJobs owner = active := Except.ok.inj hactive
    refine Or.inr ⟨hfound, ?_⟩
    dsimp only at h
    split at h
    · obtain ⟨_, st₃, -, hthrow⟩ := Session.bind_ok.mp h
      cases hthrow
    · rename_i hroom
      rw [Session.liftExcept_run] at h
      refine ⟨not_le.mp hroom, ?_⟩
      cases hcreate : (createImageJob (request.imageJob owner idempotency) moments.now
        moments.create).1 with
      | error e =>
        rw [hcreate] at h
        cases h
      | ok created =>
        rw [hcreate] at h
        cases h
        rfl

/-- The active job limit: in every run in which each retry finds room for its copy, beside an upload
that is already counted, and in which no occurrence takes the place of a counted upload, no request
that creates a job leaves its owner with more active jobs than the limit. A retry that creates a
job without such room breaks the limit, at once or by the insert of the counted upload. -/
theorem active_job_limit (maxActiveJobs : ℕ) {a : Admissions} {start : ℤ}
    (hrun : Run (Admissions.step maxActiveJobs)
      (fun a op => op.leavesRoom maxActiveJobs a = true) (.initial start) a) :
    (∀ c ∈ a.created, c.2 ≤ maxActiveJobs) ∧
    ∀ id owner b, (AdmissionOp.retry id owner).leavesRoom maxActiveJobs a = false →
      a.step maxActiveJobs (.retry id owner) = some b →
      b.system.db.jobs.next ≠ a.system.db.jobs.next →
      maxActiveJobs < b.system.db.activeJobs owner + b.reserved owner := by
  have hinv : a.Inv maxActiveJobs :=
    hrun.invariant (fun _ _ _ h hroom hstep => h.step hroom hstep) (.initial start)
  exact ⟨hinv.created, fun id owner b => retry_without_room⟩

/-! An owner with room for one job uploads one, cancels it and retries it; uploading another one
first takes the place of the retry. -/

def sampleUploadOps : List AdmissionOp := [.begin sampleImageJob, .advance, .advance, .advance]

def sampleCancel : AdmissionOp := .background (.requestCancel jobOne (some 1))

theorem active_job_limit_retried : ∃ a : Admissions,
    Run (Admissions.step 1) (fun a op => op.leavesRoom 1 a = true) (.initial 0) a ∧
    a.created.length = 2 ∧ ∀ c ∈ a.created, c.2 ≤ 1 := by
  have hreplay : (exec (guarded (Admissions.step 1) fun a op => op.leavesRoom 1 a)
      (Admissions.initial 0) (sampleUploadOps ++ [sampleCancel, .retry jobOne 1])).any
        (fun a => decide (a.created.length = 2)) = true := by
    decide +kernel
  obtain ⟨a, hexec, htest⟩ := (Option.any_eq_true _ _).mp hreplay
  have hrun : Run (Admissions.step 1) (fun a op => op.leavesRoom 1 a = true) (.initial 0) a :=
    run_of_guarded (fun _ _ h => h) hexec
  exact ⟨a, hrun, of_decide_eq_true htest, (active_job_limit 1 hrun).1⟩

theorem retry_beyond_limit : ¬∀ (maxActiveJobs : ℕ) (a : Admissions) (start : ℤ),
    Run (Admissions.step maxActiveJobs) Always (.initial start) a →
    ∀ c ∈ a.created, c.2 ≤ maxActiveJobs := by
  intro hclaim
  have hreplay : (exec (Admissions.step 1) (Admissions.initial 0)
      (sampleUploadOps ++ [sampleCancel] ++ sampleUploadOps ++ [.retry jobOne 1])).any
        (fun a => a.created.contains (1, 2)) = true := by
    decide +kernel
  obtain ⟨a, hexec, htest⟩ := (Option.any_eq_true _ _).mp hreplay
  have hrun : Run (Admissions.step 1) Always (.initial 0) a :=
    run_of_exec (fun _ _ _ => trivial) hexec
  have hle := hclaim 1 a 0 hrun (1, 2) (List.contains_iff_mem.mp htest)
  omega

end TaskHarbor
