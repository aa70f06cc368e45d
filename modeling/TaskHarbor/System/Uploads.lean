import TaskHarbor.Api.Accepted
import TaskHarbor.System.Desk
import TaskHarbor.System.Rollback

/-! Rejected uploads and the storage. A request that is turned away removes its batch, at every exit
but one: `create_schedule` leaves it behind when the interval or the anchor is missing. Whether the
file system removes what it is told to, no handler looks at. The upload guard lets one request run
at a time, so no other upload commits between its repository calls. -/
namespace TaskHarbor

open Relational Transaction Runs

/-! ### The repository calls -/

/-- Without an upload: the other operations that run while a request holds the upload guard. -/
def Op.Guarded (_ : System) (op : Op) : Prop := ∀ request, op ≠ .createImageJob request

theorem isRejection_of_fault {e : RepositoryError} (h : e.isFault = true) :
    (ApiError.repository e).isRejection = false := by
  cases e with
  | database condition => rfl
  | invalidData message => rfl
  | stateConflict operation => cases h
  | idempotencyConflict => cases h
  | claimLost => cases h

section Repository

variable {s t : System} {db : Db} {now : ℤ} {request : NewImageJob} {owner : ℕ}
  {i : IdempotencyRequest}

/-- No job comes under a key while no upload runs. -/
theorem unclaimed_run (hs : s.Reachable) (hrun : Run System.step Op.Guarded s t)
    (hnone : ∀ r ∈ s.db.jobs, ¬r.Under owner i) : ∀ r ∈ t.db.jobs, ¬r.Under owner i := by
  refine (hrun.invariant (P := fun s => s.Inv ∧ ∀ r ∈ s.db.jobs, ¬r.Under owner i) ?_
    ⟨hs.inv, hnone⟩).2
  rintro u op v ⟨hinv, hnone⟩ hop hstep
  refine ⟨hinv.step hstep, fun r' hr' hunder => ?_⟩
  rcases keyed_before (System.step_db hinv hstep).turns (System.step_grows hinv hstep) hr' with
    ⟨r, hr, hsame⟩ | ⟨-, -, horigin⟩
  · exact hnone r hr (hunder.of_claims hsame)
  · obtain ⟨request', -, hupload, -⟩ := horigin.keyed hunder.2
    exact hop request' hupload

/-- Jobs stay. -/
theorem job_stays {ok : System → Op → Prop} (hinv : s.Inv) (hrun : Run System.step ok s t) {id : ℕ}
    (h : (s.db.jobs.get? id).isSome = true) : (t.db.jobs.get? id).isSome = true := by
  refine (hrun.invariant (P := fun s => s.Inv ∧ (s.db.jobs.get? id).isSome = true) ?_ ⟨hinv, h⟩).2
  rintro u op v ⟨hinv, h⟩ - hstep
  obtain ⟨r, hr⟩ := Option.isSome_iff_exists.mp h
  obtain ⟨r', hr', -⟩ := ((System.step_db hinv hstep).turns id).keeps.job r hr
  have hget : v.db.jobs.get? id = some r' := hr'
  exact ⟨hinv.step hstep, by rw [hget]; rfl⟩

/-- Without a job under its key, the lookup of `create_image_job` finds none or fails. -/
theorem existingImageJob_unclaimed
    (hnone : ∀ i, request.idempotency = some i → ∀ r ∈ db.jobs, ¬r.Under request.ownerUserId i) :
    existingImageJob request db = .ok none ∨
      ∃ message, existingImageJob request db = .error (.database message) := by
  cases hi : request.idempotency with
  | none =>
    left
    unfold existingImageJob
    rw [hi]
  | some i =>
    cases hstorable : storableText i.key with
    | true => exact Or.inl (existingImageJob_none hi hstorable (hnone i hi))
    | false => exact Or.inr ⟨_, existingImageJob_unstorable hi hstorable⟩

theorem createImageJobTx_faults
    (hlook : existingImageJob request db = .ok none ∨
      ∃ message, existingImageJob request db = .error (.database message)) :
    Faults (createImageJobTx request now) db := by
  refine Tx.failsOnly_bind (Tx.failsOnly_get db) fun seen _ hget => ?_
  cases hget
  refine Tx.failsOnly_bind (Tx.failsOnly_lift ?_ _) fun found db' hfound => ?_
  · intro e he
    rcases hlook with h | ⟨message, h⟩
    · rw [h] at he
      cases he
    · rw [h] at he
      cases he
      rfl
  · cases found with
    | some id => exact Tx.failsOnly_pure _ _
    | none =>
      refine Tx.failsOnly_bind (Tx.failsOnly_lift (varcharParam_faults _ _) _) fun _ _ _ => ?_
      refine Tx.failsOnly_bind (insertJob_faults _ _) fun _ _ _ => ?_
      exact Tx.failsOnly_bind (insertInputArtifacts_faults _ _ _) fun _ _ _ =>
        Tx.failsOnly_pure _ _

/-- Where no job is under its key, `create_image_job` answers with a new job or a fault. -/
theorem createImageJob_unclaimed (now : ℤ) (hinv : db.Inv)
    (hnone : ∀ i, request.idempotency = some i → ∀ r ∈ db.jobs, ¬r.Under request.ownerUserId i) :
    (∀ e, (createImageJob request now db).1 = .error e → e.isFault = true) ∧
      ∀ record, (createImageJob request now db).1 = .ok record →
        db.jobs.get? record.id.get = none := by
  have hlook := existingImageJob_unclaimed hnone
  unfold createImageJob
  rw [Session.bind_run, Session.liftExcept_run]
  cases hvalid : request.validate with
  | error e =>
    constructor
    · intro e' he
      cases he
      exact request.validate_faults e hvalid
    · intro record he
      cases he
  | ok u =>
    dsimp only
    rcases commit_cases (createImageJobTx request now) db with ⟨c, db', htx, hc⟩ | ⟨e, htx, hc⟩
    · rw [Session.bind_run, hc]
      have hinv' := (createImageJobTx_evolves htx).inv hinv
      rcases createImageJobTx_ok htx with ⟨id, hfound, -, -⟩ |
        ⟨-, id, db₁, rows, hinsert, happended, -, rfl⟩
      · rcases hlook with h | ⟨message, h⟩ <;> cases h.symm.trans hfound
      · have hget := insertJob_get? hinsert happended
        have hanyone : ownedBy none (request.row request.name.asStr now id) = true := rfl
        obtain ⟨record, hrecord, hshows⟩ :=
          readBack_ok hinv' (Table.mem_of_get? hget) hanyone "read created image job"
        obtain ⟨rfl, -⟩ := insertJob_ok.mp hinsert
        have hrun : readBack db.jobs.next none "read created image job" db' = .ok record := hrecord
        simp only [query_run, hrun]
        constructor
        · intro e he
          cases he
        · intro record' he
          cases he
          have hid : record.id.get = db.jobs.next := hshows.id
          rw [hid]
          exact Table.get?_next _
    · rw [Session.bind_run, hc]
      constructor
      · intro e' he
        cases he
        exact createImageJobTx_faults hlook _ htx
      · intro record he
        cases he

theorem validateScheduleFields_faults {intervalSeconds maxWidth jpegQuality inputCount : ℕ} :
    ∀ e, validateScheduleFields intervalSeconds maxWidth jpegQuality inputCount = .error e →
      e.isFault = true := by
  intro e he
  unfold validateScheduleFields at he
  rcases except_unless_error he with ⟨-, rfl⟩ | ⟨-, he⟩
  · rfl
  · rcases except_unless_error he with ⟨-, rfl⟩ | ⟨-, he⟩
    · rfl
    · exact ite_throw_faults rfl e he

theorem insertScheduleInputs_faults (scheduleId itemIndex : ℕ) (inputs : List NewInputArtifact) :
    Faults (insertScheduleInputs scheduleId now itemIndex inputs) db := by
  induction inputs generalizing itemIndex db with
  | nil => exact Tx.failsOnly_pure () db
  | cons input rest ih =>
    refine Tx.failsOnly_bind ?_ fun _ _ _ => ih (itemIndex + 1)
    refine Tx.failsOnly_bind (Tx.failsOnly_lift (ite_faults rfl) _) fun _ _ _ => ?_
    refine Tx.failsOnly_bind (Tx.failsOnly_lift (ite_faults rfl) _) fun _ _ _ => ?_
    refine Tx.failsOnly_bind (Tx.failsOnly_lift (ite_faults rfl) _) fun _ _ _ => ?_
    refine Tx.failsOnly_bind (Tx.failsOnly_lift (ite_faults rfl) _) fun _ _ _ => ?_
    refine Tx.failsOnly_bind (Tx.failsOnly_lift (varcharParam_faults _ _) _) fun _ _ _ => ?_
    refine Tx.failsOnly_bind (Tx.failsOnly_lift (ite_faults rfl) _) fun _ _ _ => ?_
    exact bind_faults (identityLeft_faults _) fun _ _ => bind_faults (enforce_faults _)
      fun _ _ => bind_faults (enforce_faults _) fun _ _ _ he => by cases he

theorem createScheduleTx_faults (request : NewSchedule) :
    Faults (createScheduleTx request now) db := by
  refine Tx.failsOnly_bind (Tx.failsOnly_lift (varcharParam_faults _ _) _) fun _ _ _ => ?_
  refine Tx.failsOnly_bind (Tx.failsOnly_lift (ite_faults rfl) _) fun _ _ _ => ?_
  refine Tx.failsOnly_bind (Tx.failsOnly_lift (ite_faults rfl) _) fun _ _ _ => ?_
  refine Tx.failsOnly_bind ?_ fun id _ _ =>
    Tx.failsOnly_bind (insertScheduleInputs_faults _ _ _) fun _ _ _ => Tx.failsOnly_pure _ _
  exact bind_faults (identityLeft_faults _) fun _ _ => bind_faults (enforce_faults _)
    fun _ _ _ he => by cases he

/-- A schedule that could not be created was not refused for the state it met. -/
theorem createScheduleRecord_faults (hlegible : db.Legible) (request : NewSchedule) :
    ∀ e, (createScheduleRecord request now db).1 = .error e → e.isFault = true := by
  intro e he
  unfold createScheduleRecord at he
  rw [Session.bind_run] at he
  rcases hcreate : createSchedule request now db with ⟨e' | id, db'⟩
  · rw [hcreate] at he
    cases he
    unfold createSchedule at hcreate
    rw [Session.bind_run, Session.liftExcept_run] at hcreate
    cases hvalid : request.validate with
    | error e' =>
      rw [hvalid] at hcreate
      cases hcreate
      exact validateScheduleFields_faults e hvalid
    | ok u =>
      rw [hvalid] at hcreate
      dsimp only at hcreate
      rcases commit_cases (createScheduleTx request now) db with ⟨id, db₁, -, hc⟩ | ⟨e', htx, hc⟩
      · rw [Session.bind_run, hc] at hcreate
        have hdecode : decodeScheduleId id = .error e := by
          simpa using congrArg Prod.fst hcreate
        unfold decodeScheduleId at hdecode
        split at hdecode
        · cases hdecode
        · cases hdecode
          rfl
      · rw [Session.bind_run, hc] at hcreate
        cases hcreate
        exact createScheduleTx_faults request e htx
  · obtain ⟨record, hrecord⟩ := createSchedule_readBack hlegible hcreate
    rw [hcreate] at he
    simp only [query_run, hrecord] at he
    cases he

end Repository

/-! ### The exits of a request -/

/-- A client error, an idempotency conflict among them, a resource limit, or a job that was there
when the request began. -/
def TurnedAway (db : Db) : Except ApiError JobRecord → Prop
  | .error e => e.isRejection = true
  | .ok record => (db.jobs.get? record.id.get).isSome = true

def TurnedAwaySchedule : Except ApiError ScheduleRecord → Prop
  | .error e => e.isRejection = true
  | .ok _ => False

/-- No file and no directory of the batch is left, the other files are as they were, and the usage
is what it was. -/
structure NoTrace (app : AppState) (ids : FreshIds) (st st' : Storage) : Prop where
  restored : Restored ids.batchPath st st'
  usage : (usageBytes app.disk st').1 = (usageBytes app.disk st).1

/-- Whenever `x`, started from `st`, gives an answer in `P`, the storage is again as in `st₀`. -/
def Tidy {α : Type} (ids : FreshIds) (st₀ : Storage) (P : Except ApiError α → Prop)
    (x : ApiSession α) (st : Storage) : Prop :=
  P (x st).1 → Restored ids.batchPath st₀ (x st).2

section Exits

variable {app : AppState} {ids : FreshIds} {st₀ st st' : Storage} {α β : Type}
  {P : Except ApiError β → Prop}

variable (hremoves : app.disk.Removes ids.batchPath)

include hremoves

/-- The rest of a request runs only when the first part answers; an error of the first part has
removed the batch. -/
theorem tidy_orDiscard {x : ApiSession α} {f : α → ApiSession β} (hfree : st₀.Free ids.batchPath)
    (hst : SameOutside ids.batchPath st₀ st)
    (hx : Session.Moves (SameOutside ids.batchPath) x st)
    (hf : ∀ a st', x st = (.ok a, st') → Tidy ids st₀ P (f a) st') :
    Tidy ids st₀ P (ids.uploadBatch.orDiscard app.disk x >>= f) st := by
  intro hanswer
  rw [Session.bind_run] at hanswer ⊢
  rcases hr : ids.uploadBatch.orDiscard app.disk x st with ⟨e | a, st'⟩
  · have hremoved : (ids.uploadBatch.orDiscard app.disk x st).2 =
        app.disk.removeTree ids.batchPath (x st).2 :=
      (orDiscard_error (e := e) (by rw [hr])).2
    rw [hr, hremoves.removeTree] at hremoved
    obtain rfl : st' = ((x st).2).removeTree ids.batchPath := hremoved
    exact (hst.trans hx).restored hfree
  · rw [hr] at hanswer
    exact hf a st' (orDiscard_ok.mp hr) hanswer

/-- After the batch was removed nothing else is written. -/
theorem tidy_discard {f : Unit → ApiSession β} (hfree : st₀.Free ids.batchPath)
    (hst : SameOutside ids.batchPath st₀ st) (hf : ∀ st, (f () st).2 = st) :
    Tidy ids st₀ P (ids.uploadBatch.discard app.disk >>= f) st := by
  intro _
  rw [Session.bind_run, discard_batch, hremoves.removeTree]
  dsimp only
  rw [hf]
  exact hst.restored hfree

omit hremoves in
/-- A request that ends before its batch exists writes nothing. -/
theorem tidy_beginRequest {multipart : Option Multipart} (hfree : st.Free ids.batchPath)
    {f : ℕ × Multipart × UploadBatch → ApiSession β}
    (hf : ∀ usage m st', multipart = some m → SameOutside ids.batchPath st st' →
      beginRequest app ids multipart st = (.ok (usage, m, ids.uploadBatch), st') →
      Tidy ids st P (f (usage, m, ids.uploadBatch)) st') :
    Tidy ids st P (beginRequest app ids multipart >>= f) st := by
  intro hanswer
  rw [Session.bind_run] at hanswer ⊢
  rcases hr : beginRequest app ids multipart st with ⟨e | ⟨usage, m, batch⟩, st'⟩
  · have hsame := beginRequest_traceless multipart e (by rw [hr]) trivial
    rw [hr] at hsame
    obtain rfl : st' = st := hsame
    exact hfree.restored
  · rw [hr] at hanswer
    obtain ⟨hm, rfl, hst⟩ := beginRequest_ok hr
    exact hf usage m st' hm (hst ▸ createDirAll_outside st _) hr hanswer

end Exits

/-! ### The two endpoints -/

section Endpoints

variable {app : AppState} {ids : FreshIds} {st : Storage} {owner : ℕ} {limited : Option ℕ}
  {multipart : Option Multipart} {s₀ s₁ s₂ s₃ : System}

theorem findReplay_none {idempotency : Option IdempotencyRequest} {db : Db}
    (h : findReplay owner idempotency db = .ok none) :
    ∀ i, idempotency = some i → ∀ r ∈ db.jobs, ¬r.Under owner i := by
  rintro i rfl
  have hlook : findIdempotentImageJob owner i db = .ok none := by
    unfold findReplay at h
    cases hfind : findIdempotentImageJob owner i db with
    | error e =>
      simp only [hfind] at h
      cases h
    | ok found =>
      simp only [hfind] at h
      cases h
      rfl
  obtain ⟨u, -, hlook⟩ := except_bind_ok.mp hlook
  cases hrow : idempotentRow db owner i.key with
  | none => exact idempotentRow_none hrow
  | some row =>
    simp only [hrow] at hlook
    obtain ⟨id, -, hlook⟩ := except_bind_ok.mp hlook
    obtain ⟨record, -, hlook⟩ := except_bind_ok.mp hlook
    cases hlook

/-- The rest of an upload after its staging. -/
theorem submitImageJob_tidy {st₀ : Storage} {idempotency : Option IdempotencyRequest}
    {request : StagedImageFields} (hremoves : app.disk.Removes ids.batchPath)
    (hfree : st₀.Free ids.batchPath) (hst : SameOutside ids.batchPath st₀ st)
    (h₀ : s₀.Reachable) (h₁ : Run System.step Op.Guarded s₀ s₁)
    (h₂ : Run System.step Op.Guarded s₁ s₂) (h₃ : Run System.step Op.Guarded s₂ s₃) :
    Tidy ids st₀ (TurnedAway s₀.db) (submitImageJob app ids.uploadBatch owner idempotency request
      ⟨s₁.db, s₂.db, s₃.db, s₃.now⟩) st := by
  refine tidy_orDiscard hremoves hfree hst (Session.moves_lift (.refl _ _))
    fun found st₁ hfound => ?_
  obtain ⟨hlook, rfl⟩ := Prod.mk.inj ((Session.liftExcept_run _ st).symm.trans hfound)
  cases found with
  | some job => exact tidy_discard hremoves hfree hst fun _ => rfl
  | none =>
    refine tidy_orDiscard hremoves hfree hst (Session.moves_lift (.refl _ _))
      fun active st₂ hcount => ?_
    obtain ⟨-, rfl⟩ := Prod.mk.inj ((Session.liftExcept_run _ st).symm.trans hcount)
    dsimp only
    split
    · exact tidy_discard hremoves hfree hst fun _ => rfl
    · intro hanswer
      exfalso
      have hs₃ : s₃.Reachable := ((h₀.run h₁).run h₂).run h₃
      have hnone : ∀ i, idempotency = some i → ∀ r ∈ s₃.db.jobs, ¬r.Under owner i := fun i hi =>
        unclaimed_run ((h₀.run h₁).run h₂) h₃
          (unclaimed_run (h₀.run h₁) h₂ (findReplay_none hlook i hi))
      obtain ⟨hfault, hnew⟩ := createImageJob_unclaimed s₃.now hs₃.inv.db
        (show ∀ i, (request.imageJob owner idempotency).idempotency = some i → _ from hnone)
      rw [Session.liftExcept_run] at hanswer
      cases hcreate : (createImageJob (request.imageJob owner idempotency) s₃.now s₃.db).1 with
      | error e =>
        rw [hcreate] at hanswer
        have hrejected : (ApiError.repository e).isRejection = true := hanswer
        rw [isRejection_of_fault (hfault e hcreate)] at hrejected
        cases hrejected
      | ok record =>
        rw [hcreate] at hanswer
        have hthere := job_stays h₀.inv ((h₁.trans h₂).trans h₃) hanswer
        rw [hnew record hcreate] at hthere
        cases hthere

theorem postJobs_tidy (hremoves : app.disk.Removes ids.batchPath) (hfree : st.Free ids.batchPath)
    (header : Option (List UInt8)) (h₀ : s₀.Reachable) (h₁ : Run System.step Op.Guarded s₀ s₁)
    (h₂ : Run System.step Op.Guarded s₁ s₂) (h₃ : Run System.step Op.Guarded s₂ s₃) :
    Tidy ids st (TurnedAway s₀.db) (postJobs app ids owner limited header multipart
      ⟨s₁.db, s₂.db, s₃.db, s₃.now⟩) st := by
  cases limited with
  | some retryAfter => exact fun _ => hfree.restored
  | none =>
    intro hanswer
    unfold postJobs at hanswer ⊢
    simp only at hanswer ⊢
    rw [Session.bind_run, Session.liftExcept_run] at hanswer ⊢
    cases hkey : parseIdempotencyKey header with
    | error e => exact hfree.restored
    | ok key =>
      rw [hkey] at hanswer
      refine tidy_beginRequest hfree (fun usage m st' hm hst hbegin => ?_) hanswer
      refine tidy_orDiscard hremoves hfree hst (stageFields_moves (writesBelow_outside _) _ _ _) ?_
      intro request st₂ hstaged
      have hmoved := (stageFields_moves (writesBelow_outside _) _ _ _).run hstaged
      exact submitImageJob_tidy hremoves hfree (hst.trans hmoved) h₀ h₁ h₂ h₃

/-- The request passes every check of `stage_fields` without naming its interval or its anchor. -/
def StagedWithoutPlan (app : AppState) (ids : FreshIds) (limited : Option ℕ)
    (multipart : Option Multipart) (st : Storage) : Prop :=
  limited = none ∧ ∃ usage m st₁ request st₂,
    beginRequest app ids multipart st = (.ok (usage, m, ids.uploadBatch), st₁) ∧
    stageFields app ids.uploadBatch ids m .schedule usage st₁ = (.ok request, st₂) ∧
    ((∀ f ∈ m.fields, f.key ≠ "interval_seconds") ∨ ∀ f ∈ m.fields, f.key ≠ "anchor_at")

theorem StagedImageFields.schedule_ok {request : StagedImageFields} {schedule : NewSchedule}
    (h : request.schedule owner = .ok schedule) :
    request.intervalSeconds ≠ none ∧ request.anchorAt ≠ none := by
  unfold StagedImageFields.schedule at h
  cases hinterval : request.intervalSeconds with
  | none =>
    rw [hinterval] at h
    cases h
  | some interval =>
    cases hanchor : request.anchorAt with
    | none =>
      rw [hinterval, hanchor] at h
      cases h
    | some anchor => simp

theorem StagedImageFields.schedule_error {request : StagedImageFields} {e : ApiError}
    (h : request.schedule owner = .error e) :
    (request.intervalSeconds = none ∨ request.anchorAt = none) ∧ e.isRejection = true := by
  unfold StagedImageFields.schedule at h
  cases hinterval : request.intervalSeconds with
  | none =>
    rw [hinterval] at h
    cases h
    exact ⟨Or.inl rfl, rfl⟩
  | some interval =>
    cases hanchor : request.anchorAt with
    | none =>
      rw [hinterval, hanchor] at h
      cases h
      exact ⟨Or.inr rfl, rfl⟩
    | some anchor =>
      rw [hinterval, hanchor] at h
      cases h

/-- An accepted request lacks its interval or its anchor when no field names it. -/
theorem stageFields_plan {m : Multipart} {usage : ℕ} {request : StagedImageFields}
    {st₁ st₂ : Storage}
    (h : stageFields app ids.uploadBatch ids m .schedule usage st₁ = (.ok request, st₂)) :
    (request.intervalSeconds = none ↔ ∀ f ∈ m.fields, f.key ≠ "interval_seconds") ∧
      (request.anchorAt = none ↔ ∀ f ∈ m.fields, f.key ≠ "anchor_at") := by
  obtain ⟨s, hreads, hmade, -⟩ := stageFields_ok h
  rw [hmade.intervalSeconds, hmade.anchorAt]
  exact ⟨hreads.intervalSeconds.eq_none_iff, hreads.anchorAt.eq_none_iff⟩

theorem postSchedules_tidy (hremoves : app.disk.Removes ids.batchPath)
    (hfree : st.Free ids.batchPath) (hs : s₀.Reachable)
    (hplan : ¬StagedWithoutPlan app ids limited multipart st) :
    Tidy ids st TurnedAwaySchedule (postSchedules app ids owner limited multipart s₀.db s₀.now)
      st := by
  cases limited with
  | some retryAfter => exact fun _ => hfree.restored
  | none =>
    refine tidy_beginRequest hfree fun usage m st₁ hm hst hbegin => ?_
    refine tidy_orDiscard hremoves hfree hst (stageFields_moves (writesBelow_outside _) _ _ _) ?_
    intro request st₂ hstaged hanswer
    exfalso
    rw [Session.bind_run, Session.liftExcept_run] at hanswer
    cases hschedule : request.schedule owner with
    | error e =>
      obtain ⟨hmissing, -⟩ := StagedImageFields.schedule_error hschedule
      obtain ⟨hinterval, hanchor⟩ := stageFields_plan hstaged
      exact hplan ⟨rfl, usage, m, st₁, request, st₂, hbegin, hstaged,
        hmissing.imp hinterval.mp hanchor.mp⟩
    | ok schedule =>
      rw [hschedule] at hanswer
      dsimp only at hanswer
      rw [Session.liftExcept_run] at hanswer
      cases hcreate : (createScheduleRecord schedule s₀.now s₀.db).1 with
      | ok record =>
        rw [hcreate] at hanswer
        exact hanswer
      | error e =>
        rw [hcreate] at hanswer
        have hrejected : (ApiError.repository e).isRejection = true := hanswer
        rw [isRejection_of_fault (createScheduleRecord_faults hs.legible schedule e hcreate)]
          at hrejected
        cases hrejected

/-- A schedule request without a plan is refused, and its files stay. -/
theorem postSchedules_leaves (hplan : StagedWithoutPlan app ids limited multipart st) (db : Db)
    (now : ℤ) :
    TurnedAwaySchedule (postSchedules app ids owner limited multipart db now st).1 ∧
      ¬Restored ids.batchPath st (postSchedules app ids owner limited multipart db now st).2 := by
  obtain ⟨rfl, usage, m, st₁, request, st₂, hbegin, hstaged, hmissing⟩ := hplan
  obtain ⟨hinterval, hanchor⟩ := stageFields_plan hstaged
  have hnone := hmissing.imp hinterval.mpr hanchor.mpr
  obtain ⟨s, -, hmade, hpaths⟩ := stageFields_ok hstaged
  have hrun : postSchedules app ids owner none multipart db now st =
      (request.schedule owner >>= fun schedule =>
        (createScheduleRecord schedule now db).1.mapError ApiError.repository, st₂) := by
    show Upload.createSchedule app ids owner multipart db now st = _
    unfold Upload.createSchedule
    rw [Session.bind_run, hbegin]
    dsimp only
    rw [Session.bind_run, orDiscard_ok.mpr hstaged]
    dsimp only
    rw [Session.bind_run, Session.liftExcept_run]
    cases request.schedule owner with
    | error e => rfl
    | ok schedule => exact Session.liftExcept_run _ st₂
  rw [hrun]
  constructor
  · cases hschedule : request.schedule owner with
    | error e => exact (StagedImageFields.schedule_error hschedule).2
    | ok schedule =>
      obtain ⟨hi, ha⟩ := StagedImageFields.schedule_ok hschedule
      rcases hnone with h | h
      · exact absurd h hi
      · exact absurd h ha
  · intro hrestored
    have hpos : 0 < request.inputs.length := by
      rw [hmade.inputs]
      exact List.length_pos_iff.mpr hmade.nonempty
    obtain ⟨f, hf, hpath⟩ := List.mem_map.mp (hpaths 0 hpos)
    have hinside : ids.batchPath <+: f.path := hpath ▸ ids.filePath_inside 0
    exact hrestored.free.files f hf hinside

end Endpoints

/-- An upload that is turned away leaves no trace in the storage, except that `POST schedules` keeps
the files of a request that is complete but for its interval or its anchor; as long as the file
system removes what it is told to. -/
theorem rejected_uploads_leave_storage (app : AppState) (ids : FreshIds) (st : Storage)
    (hremoves : app.disk.Removes ids.batchPath) (hfree : st.Free ids.batchPath) (owner : ℕ)
    (limited : Option ℕ) (header : Option (List UInt8)) (multipart : Option Multipart)
    (s₀ s₁ s₂ s₃ : System) (h₀ : s₀.Reachable) (h₁ : Run System.step Op.Guarded s₀ s₁)
    (h₂ : Run System.step Op.Guarded s₁ s₂) (h₃ : Run System.step Op.Guarded s₂ s₃) :
    (TurnedAway s₀.db (postJobs app ids owner limited header multipart
        ⟨s₁.db, s₂.db, s₃.db, s₃.now⟩ st).1 →
      NoTrace app ids st (postJobs app ids owner limited header multipart
        ⟨s₁.db, s₂.db, s₃.db, s₃.now⟩ st).2) ∧
    ((TurnedAwaySchedule (postSchedules app ids owner limited multipart s₁.db s₁.now st).1 →
      NoTrace app ids st (postSchedules app ids owner limited multipart s₁.db s₁.now st).2) ↔
      ¬StagedWithoutPlan app ids limited multipart st) := by
  refine ⟨fun hanswer => ?_, fun hclaim hplan => ?_, fun hplan hanswer => ?_⟩
  · have hrestored := postJobs_tidy hremoves hfree header h₀ h₁ h₂ h₃ hanswer
    exact ⟨hrestored, hrestored.usage app.disk⟩
  · obtain ⟨hanswer, hleft⟩ := postSchedules_leaves hplan s₁.db s₁.now
    exact hleft (hclaim hanswer).restored
  · have hrestored := postSchedules_tidy hremoves hfree (h₀.run h₁) hplan hanswer
    exact ⟨hrestored, hrestored.usage app.disk⟩

/-! A request with a name and one image, to both endpoints. -/

/-- A PNG file with one grey pixel. -/
def samplePng : List UInt8 :=
  [137, 80, 78, 71, 13, 10, 26, 10, 0, 0, 0, 13, 73, 72, 68, 82, 0, 0, 0, 1, 0, 0, 0, 1, 8, 0, 0, 0,
    0, 58, 126, 155, 85, 0, 0, 0, 10, 73, 68, 65, 84, 120, 218, 99, 104, 0, 0, 0, 130, 0, 129, 218,
    69, 8, 59, 0, 0, 0, 0, 73, 69, 78, 68, 174, 66, 96, 130]

/-- An application with the digest of that file and what the decoder says of it. -/
def sampleApp : AppState where
  storageBudgetBytes := 1000
  maxActiveJobs := 5
  disk := ⟨fun _ => none, fun _ => 0⟩
  images :=
    { guessedFormat := fun bytes => if bytes = samplePng then some .png else none
      dimensions := fun _ bytes => if bytes = samplePng then .ok (1, 1) else .error .decode
      isApng := fun bytes => if bytes = samplePng then .ok false else .error .decode
      faults := fun _ => none }
  parseRfc3339 := fun _ => none
  sha256 := fun bytes => if bytes = samplePng then
      #v[225, 36, 0, 126, 3, 113, 162, 114, 241, 30, 127, 188, 36, 20, 175, 245, 161, 9, 95, 58, 70,
        173, 41, 119, 30, 161, 191, 63, 138, 91, 7, 202]
    else Vector.replicate 32 0

def sampleIds : FreshIds := ⟨1, fun n => n + 2⟩

def sampleStorage : Storage := ⟨[], [["inputs"], ["outputs"]]⟩

def sampleFields : List UploadField :=
  [⟨some "name", none, [textBytes "nightly"], true⟩,
   ⟨some "images", some "photo.png", [samplePng.take 33, samplePng.drop 33], true⟩]

/-- The complete form of an upload, and one that names the interval of a schedule. -/
def sampleUpload : Multipart := ⟨sampleFields, true⟩

def sampleMisdirected : Multipart :=
  ⟨sampleFields ++ [⟨some "interval_seconds", none, [textBytes "3600"], true⟩], true⟩

theorem sampleStorage_free : sampleStorage.Free sampleIds.batchPath where
  files := by
    intro f hf
    cases hf
  directories := by
    decide +kernel

def rejects {α : Type} : Except ApiError α → Bool
  | .error e => e.isRejection
  | .ok _ => false

theorem turnedAway_of_rejects {db : Db} {answer : Except ApiError JobRecord}
    (h : rejects answer = true) : TurnedAway db answer := by
  cases answer with
  | error e => exact h
  | ok record => cases h

theorem turnedAwaySchedule_of_rejects {answer : Except ApiError ScheduleRecord}
    (h : rejects answer = true) : TurnedAwaySchedule answer := by
  cases answer with
  | error e => exact h
  | ok record => cases h

theorem rejected_uploads_leave_storage_misdirected :
    NoTrace sampleApp sampleIds sampleStorage (postJobs sampleApp sampleIds 1 none none
      (some sampleMisdirected) ⟨Db.empty, Db.empty, Db.empty, 0⟩ sampleStorage).2 := by
  have h := (rejected_uploads_leave_storage sampleApp sampleIds sampleStorage (fun _ _ => rfl)
    sampleStorage_free 1 none none (some sampleMisdirected) (.initial 0) (.initial 0) (.initial 0)
    (.initial 0) ⟨0, .refl _⟩ (.refl _) (.refl _) (.refl _)).1
  have hrejected : rejects (postJobs sampleApp sampleIds 1 none none (some sampleMisdirected)
      ⟨Db.empty, Db.empty, Db.empty, 0⟩ sampleStorage).1 = true := by decide +kernel
  exact h (turnedAway_of_rejects hrejected)

/-- The complete upload, sent as a schedule without interval and anchor: it is refused, and its file
stays. -/
theorem unplanned_schedule_keeps_files : sampleStorage.Free sampleIds.batchPath ∧
    ¬(TurnedAwaySchedule (postSchedules sampleApp sampleIds 1 none (some sampleUpload) Db.empty 0
        sampleStorage).1 →
      NoTrace sampleApp sampleIds sampleStorage (postSchedules sampleApp sampleIds 1 none
        (some sampleUpload) Db.empty 0 sampleStorage).2) := by
  refine ⟨sampleStorage_free, fun hclaim => ?_⟩
  have hrejected : rejects (postSchedules sampleApp sampleIds 1 none (some sampleUpload) Db.empty 0
      sampleStorage).1 = true := by decide +kernel
  have hfiles : (postSchedules sampleApp sampleIds 1 none (some sampleUpload) Db.empty 0
      sampleStorage).2.files.length = 1 := by decide +kernel
  have hsame := (hclaim (turnedAwaySchedule_of_rejects hrejected)).restored.files
  rw [hsame] at hfiles
  cases hfiles

end TaskHarbor
