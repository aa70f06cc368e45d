import TaskHarbor.Lifecycle.Births
import TaskHarbor.Lifecycle.OutputName

/-! Stored file rows can be bound again: their names were text parameters once, and their ids are
`BIGINT`s. A new row takes its name from a parameter or from a row that is there. -/
namespace TaskHarbor

open Relational Transaction

/-- The id and the name of the row may be parameters of a later statement. -/
structure ArtifactRow.Bindable (a : ArtifactRow) : Prop where
  id : a.id ≤ i64Max
  name : storableText a.displayName = true

structure Db.Bindable (db : Db) : Prop where
  artifacts : ∀ a ∈ db.artifacts, a.Bindable
  scheduleInputs : ∀ i ∈ db.scheduleInputs, storableText i.displayName = true

def Db.KeepsBindable (db db' : Db) : Prop := db.Bindable → db'.Bindable

section Binds

variable {db db' : Db}

theorem Db.KeepsBindable.refl (db : Db) : db.KeepsBindable db := fun h => h

theorem Db.KeepsBindable.trans {db₁ db₂ db₃ : Db} (h : db₁.KeepsBindable db₂)
    (h' : db₂.KeepsBindable db₃) : db₁.KeepsBindable db₃ := fun hdb => h' (h hdb)

/-- No file row is new. -/
theorem Db.KeepsBindable.of_eq (hartifacts : db'.artifacts = db.artifacts)
    (hinputs : db'.scheduleInputs = db.scheduleInputs) : db.KeepsBindable db' := by
  intro h
  constructor
  · rw [hartifacts]
    exact h.artifacts
  · rw [hinputs]
    exact h.scheduleInputs

theorem binds_bind {α β : Type} {x : Tx α} {f : α → Tx β} (hx : Tx.Keeps Db.KeepsBindable x)
    (hf : ∀ a, Tx.Keeps Db.KeepsBindable (f a)) : Tx.Keeps Db.KeepsBindable (x >>= f) :=
  Tx.keeps_bind (fun _ _ _ h h' => h.trans h') hx hf

theorem storeVarchar_storable {n : ℕ} {s stored : String} (hs : storableText s = true)
    (h : storeVarchar n s = some stored) : storableText stored = true := by
  simp only [storableText, Bool.not_eq_true', List.contains_eq_mem, decide_eq_false_iff_not]
    at hs ⊢
  unfold storeVarchar at h
  split at h
  · cases h
    exact hs
  · split at h
    · cases h
      rw [String.toList_ofList]
      exact fun hnul => hs (List.mem_of_mem_take hnul)
    · cases h

theorem varcharParam_storable {n : ℕ} {s stored : String} (h : varcharParam n s = .ok stored) :
    storableText stored = true := by
  obtain ⟨hs, hstored⟩ := varcharParam_ok.mp h
  exact storeVarchar_storable hs hstored

theorem insertArtifact_binds {mk : ℕ → ArtifactRow} {hk}
    (hname : ∀ n, storableText (mk n).displayName = true) :
    Tx.Keeps Db.KeepsBindable (insertArtifact mk hk) := by
  intro db u db' h
  obtain ⟨hleft, -, -, rfl⟩ := insertArtifact_ok.mp h
  intro hdb
  refine ⟨fun a ha => ?_, hdb.scheduleInputs⟩
  have hmem : a ∈ db.artifacts.insertNew mk hk := ha
  rcases Table.mem_insertNew.mp hmem with hold | rfl
  · exact hdb.artifacts a hold
  · refine ⟨?_, hname _⟩
    have hid : (mk db.artifacts.next).id = db.artifacts.next := hk _
    rw [hid]
    exact hleft

theorem insertInputArtifacts_binds (jobId : ℕ) (now : ℤ) (itemIndex : ℕ)
    (inputs : List NewInputArtifact) :
    Tx.Keeps Db.KeepsBindable (insertInputArtifacts jobId now itemIndex inputs) := by
  induction inputs generalizing itemIndex with
  | nil => exact Tx.keeps_pure Db.KeepsBindable.refl ()
  | cons input rest ih =>
    refine binds_bind ?_ fun _ => ih (itemIndex + 1)
    intro db u db' h
    obtain ⟨name, hname, hinsert⟩ := insertInputArtifact_ok h
    exact insertArtifact_binds (fun n => varcharParam_storable hname) db u db' hinsert

theorem insertOutputArtifacts_binds (jobId attemptId : ℕ) (now : ℤ)
    (outputs : List PendingOutputArtifact) :
    Tx.Keeps Db.KeepsBindable (insertOutputArtifacts jobId attemptId now outputs) := by
  induction outputs with
  | nil => exact Tx.keeps_pure Db.KeepsBindable.refl ()
  | cons output rest ih =>
    refine binds_bind ?_ fun _ => ih
    intro db u db' h
    obtain ⟨source, stored, -, -, hstored, hinsert⟩ := insertOutputArtifact_ok.mp h
    exact insertArtifact_binds (fun n => varcharParam_storable hstored) db u db' hinsert

theorem copyInputs_binds {jobId : ℕ} {now : ℤ} {sources : List ArtifactRow}
    (hnames : ∀ s ∈ sources, storableText s.displayName = true) :
    Tx.Keeps Db.KeepsBindable (copyInputs jobId now sources) := by
  induction sources with
  | nil => exact Tx.keeps_pure Db.KeepsBindable.refl ()
  | cons source rest ih =>
    refine binds_bind (insertArtifact_binds fun n => ?_) fun _ => ih fun s hs => ?_
    · exact hnames source List.mem_cons_self
    · exact hnames s (List.mem_cons_of_mem _ hs)

theorem copyScheduleInputs_binds {jobId : ℕ} {now : ℤ} {sources : List ScheduleInputRow}
    (hnames : ∀ s ∈ sources, storableText s.displayName = true) :
    Tx.Keeps Db.KeepsBindable (copyScheduleInputs jobId now sources) := by
  induction sources with
  | nil => exact Tx.keeps_pure Db.KeepsBindable.refl ()
  | cons source rest ih =>
    refine binds_bind (insertArtifact_binds fun n => ?_) fun _ => ih fun s hs => ?_
    · exact hnames source List.mem_cons_self
    · exact hnames s (List.mem_cons_of_mem _ hs)

theorem insertJob_binds {mk : ℕ → JobRow} {hk} {n : ℕ} (h : insertJob mk hk db = .ok (n, db')) :
    db.KeepsBindable db' := by
  obtain ⟨-, -, -, -, rfl⟩ := insertJob_ok.mp h
  exact .of_eq rfl rfl

end Binds

/-! ### The calls -/

section Calls

variable {now asOf : ℤ} {db : Db} {claimed : ClaimedJob}

theorem create_binds {name : JobName} : Session.Moves Db.KeepsBindable (create name now) db := by
  refine Session.moves_bind_read (Session.moves_commit (.refl db) ?_) fun _ _ => rfl
  intro n db' h
  simp only [Tx.bind_ok, lift_ok] at h
  obtain ⟨stored, _, ⟨-, rfl⟩, hinsert⟩ := h
  exact insertJob_binds hinsert

theorem createImageJob_binds {request : NewImageJob} :
    Session.Moves Db.KeepsBindable (createImageJob request now) db := by
  refine Session.moves_lift_bind (.refl db) fun _ _ => ?_
  refine Session.moves_bind_read (Session.moves_commit (.refl db) ?_) ?_
  · intro c db' h
    unfold createImageJobTx at h
    simp only [Tx.bind_ok, lift_ok, Tx.get_run, Except.ok.injEq, Prod.mk.injEq] at h
    obtain ⟨_, _, ⟨rfl, rfl⟩, existing, _, ⟨-, rfl⟩, h⟩ := h
    cases existing with
    | some id =>
      cases h
      exact .refl db
    | none =>
      simp only [Tx.bind_ok, lift_ok, Tx.pure_run, Except.ok.injEq, Prod.mk.injEq] at h
      obtain ⟨stored, _, ⟨-, rfl⟩, id, db₁, hinsert, _, db₂, hinputs, -, rfl⟩ := h
      exact (insertJob_binds hinsert).trans (insertInputArtifacts_binds _ _ _ _ _ _ _ hinputs)
  · rintro (n | n) db' <;> rfl

theorem manualRetry_binds {id : JobId} {owner : Option ℕ} :
    Session.Moves Db.KeepsBindable (manualRetry id owner now) db := by
  refine Session.moves_bind_read (Session.moves_commit (.refl db) ?_) ?_
  · intro result db' h
    unfold manualRetryTx at h
    simp only [Tx.bind_ok, Tx.get_run, Except.ok.injEq, Prod.mk.injEq] at h
    obtain ⟨_, _, ⟨rfl, rfl⟩, h⟩ := h
    cases hsource : (db.jobs.get? id.get).filter (ownedBy owner) with
    | none =>
      simp only [hsource] at h
      cases h
      exact .refl db
    | some source =>
      simp only [hsource] at h
      split at h
      · cases h
      · simp only [Tx.bind_ok, Tx.get_run, Tx.pure_run, Except.ok.injEq, Prod.mk.injEq] at h
        obtain ⟨newId, db₁, hinsert, _, _, ⟨rfl, rfl⟩, _, _, hcopy, -, rfl⟩ := h
        intro hdb
        have hmid := insertJob_binds hinsert hdb
        exact copyInputs_binds (fun s hs => (hmid.artifacts s (List.mem_filter.mp hs).1).name)
          _ _ _ hcopy hmid
  · rintro (_ | newId) db'
    · rfl
    · simp only [Session.bind_run, Session.liftExcept_run]
      cases decodeJobId newId <;> rfl

theorem requestCancel_binds {id : JobId} {owner : Option ℕ} :
    Session.Moves Db.KeepsBindable (requestCancel id owner now) db := by
  refine Session.moves_bind_read (Session.moves_commit (.refl db) ?_) fun _ _ => rfl
  intro n db' h
  cases h
  exact .of_eq rfl rfl

theorem claimNext_binds {workerId claimToken : Uuid} {locked : List ℕ} :
    Session.Moves Db.KeepsBindable (claimNext workerId none now claimToken locked) db := by
  refine Session.moves_commit (.refl db) fun result db' h => ?_
  rcases claimNextWithTime_ok h with ⟨-, rfl, -⟩ | ⟨candidate, worker, claimed, -, hclaims⟩
  · exact .refl db'
  · rw [hclaims.written]
    exact .of_eq rfl rfl

theorem renewLease_binds : Session.Moves Db.KeepsBindable (renewLease claimed none now) db := by
  refine Session.moves_commit (.refl db) fun e db' h => ?_
  obtain ⟨a, r, w, -, -, -, -, rfl⟩ := renewLeaseTx_ok.mp h
  exact .of_eq rfl rfl

theorem updateProgress_binds {completed : ℕ} :
    Session.Moves Db.KeepsBindable (updateProgress claimed completed now) db := by
  unfold updateProgress
  by_cases hlong : i32Max < completed
  · rw [if_pos hlong]
    exact .refl db
  · rw [if_neg hlong]
    refine Session.moves_commit (.refl db) fun u db' h => ?_
    obtain ⟨a, r, -, -, -, -, rfl⟩ := updateProgressTx_ok.mp h
    exact .of_eq rfl rfl

theorem recordEncodingDuration_binds {duration : ℕ} :
    Session.Moves Db.KeepsBindable (recordEncodingDuration claimed duration now) db := by
  unfold recordEncodingDuration
  by_cases hlong : i64Max < duration
  · rw [if_pos hlong]
    exact .refl db
  · rw [if_neg hlong]
    refine Session.moves_commit (.refl db) fun u db' h => ?_
    obtain ⟨a, -, -, rfl⟩ := recordEncodingDurationTx_ok h
    exact .of_eq rfl rfl

theorem recordFailure_binds {duration : ℕ} {kind : FailureKind} {message : String} :
    Session.Moves Db.KeepsBindable (recordFailure claimed duration kind message now) db := by
  refine Session.moves_lift_bind (.refl db) fun ms _ => ?_
  refine Session.moves_commit (.refl db) fun d db' h => ?_
  obtain ⟨a, r, -, -, hend⟩ := recordFailureTx_ok.mp h
  rcases hend with ⟨-, -, rfl⟩ | ⟨-, -, rfl⟩
  · exact .of_eq rfl rfl
  · exact .of_eq rfl rfl

theorem finishCancelled_binds {duration : ℕ} :
    Session.Moves Db.KeepsBindable (finishCancelled claimed duration now) db := by
  refine Session.moves_lift_bind (.refl db) fun ms _ => ?_
  refine Session.moves_commit (.refl db) fun u db' h => ?_
  obtain ⟨a, r, -, -, rfl⟩ := finishCancelledTx_ok.mp h
  exact .of_eq rfl rfl

theorem complete_binds {duration : ℕ} :
    Session.Moves Db.KeepsBindable (complete claimed duration now) db := by
  have hrefl : db.KeepsBindable db := .refl db
  unfold complete
  cases claimed.work with
  | imageResize => exact hrefl
  | demoDelay =>
    by_cases hlong : i64Max < duration
    · rw [if_pos hlong]
      exact hrefl
    · rw [if_neg hlong]
      refine Session.moves_commit hrefl fun u db' h => ?_
      obtain ⟨a, r, -, -, -, rfl⟩ := completeTx_ok.mp h
      exact .of_eq rfl rfl

theorem completeImageJob_binds {duration : ℕ} {outputs : List PendingOutputArtifact} :
    Session.Moves Db.KeepsBindable (completeImageJob claimed duration outputs now) db := by
  have hrefl : db.KeepsBindable db := .refl db
  unfold completeImageJob
  cases claimed.work with
  | demoDelay => exact hrefl
  | imageResize w q inputs =>
    by_cases hlen : outputs.length ≠ inputs.length
    · simp only [if_pos hlen]
      exact hrefl
    · simp only [if_neg hlen]
      refine Session.moves_lift_bind hrefl fun ms _ => Session.moves_commit hrefl fun u db' h => ?_
      obtain ⟨a, r, db₁, -, -, -, hinsert, rfl⟩ := completeImageJobTx_ok.mp h
      exact Db.KeepsBindable.trans (insertOutputArtifacts_binds _ _ _ _ _ _ _ hinsert)
        (.of_eq rfl rfl)

theorem reclaimNextExpiredAttemptAt_binds {locked : List ℕ} :
    Session.Moves Db.KeepsBindable (reclaimNextExpiredAttemptAt asOf locked) db := by
  refine Session.moves_bind_read (Session.moves_commit (.refl db) ?_) ?_
  · intro result db' h
    rcases reclaimTx_ok h with ⟨-, rfl, -⟩ | ⟨a, r, r', w, d, ms, -, -, -, -, -, -, -, rfl⟩
    · exact .refl db'
    · exact .of_eq rfl rfl
  · rintro (_ | ⟨a, w, d⟩) db'
    · rfl
    · simp only [Session.bind_run, Session.liftExcept_run]
      cases decodeJobId a.jobId <;> rfl

theorem updateWorkers_binds (p : WorkerRow → Bool) (f : WorkerRow → WorkerRow) (hf) :
    Tx.Keeps Db.KeepsBindable (updateWorkers p f hf) := by
  intro db n db' h
  cases h
  exact .of_eq rfl rfl

theorem insertWorker_binds (row : WorkerRow) : Tx.Keeps Db.KeepsBindable (insertWorker row) := by
  intro db u db' h
  unfold insertWorker at h
  obtain ⟨_, -, h⟩ := except_bind_ok.mp h
  split at h
  · cases h
    exact .of_eq rfl rfl
  · cases h

theorem binds_lift {α : Type} (x : Except RepositoryError α) :
    Tx.Keeps Db.KeepsBindable (liftM x : Tx α) := Tx.keeps_lift Db.KeepsBindable.refl x

theorem commit_binds {α : Type} {x : Tx α} (h : Tx.Keeps Db.KeepsBindable x) (db : Db) :
    Session.Moves Db.KeepsBindable (commit x) db :=
  Session.moves_commit (Db.KeepsBindable.refl db) fun a db' hx => h db a db' hx

theorem registerWorker_binds {registration : WorkerRegistration} :
    Session.Moves Db.KeepsBindable (registerWorker registration asOf) db := by
  refine Session.moves_lift_bind (.refl db) fun _ _ => ?_
  refine Session.moves_lift_bind (.refl db) fun _ _ => ?_
  refine Session.moves_lift_bind (.refl db) fun _ _ => commit_binds ?_ db
  exact binds_bind (binds_lift _) fun _ => insertWorker_binds _

theorem heartbeatWorker_binds {workerId : Uuid} {ttl : ℕ} :
    Session.Moves Db.KeepsBindable (heartbeatWorker workerId ttl asOf) db := by
  refine Session.moves_lift_bind (.refl db) fun _ _ => ?_
  refine Session.moves_lift_bind (.refl db) fun _ _ => commit_binds ?_ db
  exact binds_bind (updateWorkers_binds _ _ _) fun _ => binds_lift _

theorem stopWorker_binds {workerId : Uuid} {t : ℤ} :
    Session.Moves Db.KeepsBindable (stopWorker workerId t) db := by
  refine commit_binds (binds_bind (Tx.keeps_get Db.KeepsBindable.refl) fun db₀ => ?_) db
  refine Tx.keeps_ite (Tx.keeps_throw _) ?_
  exact binds_bind (updateWorkers_binds _ _ _) fun _ => binds_lift _

theorem createSchedule_binds {request : NewSchedule} :
    Session.Moves Db.KeepsBindable (createSchedule request now) db := by
  refine Session.moves_lift_bind (.refl db) fun _ _ => ?_
  refine Session.moves_bind_read (Session.moves_commit (.refl db) ?_) fun _ _ => rfl
  intro n db' h
  obtain ⟨rows, -, -, hstored, -, happended, hframe⟩ := createScheduleTx_ok h
  intro hdb
  constructor
  · rw [hframe]
    exact hdb.artifacts
  · intro i hi
    have hmem : i ∈ db'.scheduleInputs.rows := hi
    rw [happended] at hmem
    rcases List.mem_append.mp hmem with hold | hnew
    · exact hdb.scheduleInputs i hold
    · obtain ⟨input, -, ⟨name, k, hname, rfl⟩, -⟩ := forall₂_mem_right hstored hnew
      exact varcharParam_storable hname

theorem updateScheduleAtWithOwner_binds {id : ScheduleId} {request : UpdateSchedule}
    {owner : Option ℕ} :
    Session.Moves Db.KeepsBindable (updateScheduleAtWithOwner id request asOf owner now) db := by
  refine Session.moves_lift_bind (.refl db) fun _ _ => ?_
  refine Session.moves_lift_bind (.refl db) fun _ _ => ?_
  refine Session.moves_bind_read (Session.moves_commit (.refl db) ?_) fun _ _ => rfl
  intro n db' h
  rcases updateScheduleTx_ok h with rfl | ⟨s, -, -, rfl⟩
  · exact .refl db'
  · exact .of_eq rfl rfl

theorem mem_scheduleInputsOf {id : ℕ} {i : ScheduleInputRow} (h : i ∈ scheduleInputsOf db id) :
    i ∈ db.scheduleInputs :=
  (List.mem_filter.mp ((Table.sortBy_perm _ _).subset h)).1

theorem materializeNextScheduleAt_binds {locked : List ℕ} :
    Session.Moves Db.KeepsBindable (materializeNextScheduleAt asOf locked now) db := by
  refine materializeNextScheduleAt_moves (.refl db) ?_
  intro candidate scheduledFor next job coalesced db₁ db' hc hm
  have hmade : db.KeepsBindable db₁ := by
    rcases materializeJob_ok.mp hm.made with ⟨-, -, rfl⟩ | ⟨-, n, db₂, jobId, hinsert, hcopy, -⟩
    · exact .refl db₁
    · intro hdb
      refine copyScheduleInputs_binds (fun s hs => ?_) _ _ _ hcopy (insertJob_binds hinsert hdb)
      exact hdb.scheduleInputs s (mem_scheduleInputsOf hs)
  rw [hm.written]
  exact hmade.trans (.of_eq rfl rfl)

theorem expireOutputArtifacts_binds {retentionSeconds : ℕ} {t : ℤ} :
    Session.Moves Db.KeepsBindable (expireOutputArtifacts retentionSeconds t) db := by
  unfold expireOutputArtifacts
  by_cases hlong : i64Max < retentionSeconds
  · rw [if_pos hlong]
    exact .refl db
  · rw [if_neg hlong]
    refine commit_binds (fun db keys db' h => ?_) db
    rw [expireOutputArtifactsTx_ok] at h
    cases h
    intro hdb
    exact ⟨fun a ha => hdb.artifacts a (Table.mem_delete.mp ha).1, hdb.scheduleInputs⟩

end Calls

end TaskHarbor
