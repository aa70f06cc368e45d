import TaskHarbor.Worker.Attempt

/-! The files behind the published rows. A publication finds its files in their places, and no call
of a task that meets its precondition takes the file of a published row away. -/
namespace TaskHarbor

open Interleaving Relational Transaction Runs

/-- The file of the row is there, with the size that the row shows. -/
def Storage.Holds (st : Storage) (row : ArtifactRow) : Prop :=
  ∃ path bytes, resolveKey row.storageKey = .ok path ∧ st.read? path = some bytes ∧
    bytes.length = row.byteSize

/-- The published rows of the claim have output keys of its attempt. -/
structure OwnKeys (claimed : ClaimedJob) (w : World) : Prop where
  held : claimed.HeldIn w.system
  keys : ∀ row ∈ w.system.db.publishedBy claimed.attemptId,
    ∃ id, row.storageKey = outputKey claimed.jobId.get claimed.attemptId id

/-- And their files are there. -/
structure OnDisk (claimed : ClaimedJob) (w : World) : Prop extends OwnKeys claimed w where
  files : ∀ row ∈ w.system.db.publishedBy claimed.attemptId, w.storage.Holds row

/-- A change of the storage that keeps the files of the attempt while it runs and while its rows
show them, and adds none. -/
structure Spares (claimed : ClaimedJob) (w : World) (st : Storage) : Prop where
  running : ¬claimed.Lost w.system.db w.system.now → ∀ path,
    attemptPath claimed.jobId.get claimed.attemptId <+: path →
      st.read? path = w.storage.read? path
  published : ∀ row ∈ w.system.db.publishedBy claimed.attemptId, ∀ path,
    resolveKey row.storageKey = .ok path → st.read? path = w.storage.read? path
  adds : ∀ path, attemptPath claimed.jobId.get claimed.attemptId <+: path →
    w.storage.read? path = none → st.read? path = none

/-! ### Calls that publish nothing -/

def Db.SameFiles (db db' : Db) : Prop := db'.artifacts = db.artifacts

section Quiet

variable {claimed : ClaimedJob} {now : ℤ} {db : Db} {duration : ℕ}

theorem finishCancelled_files :
    Session.Moves Db.SameFiles (finishCancelled claimed duration now) db := by
  refine Session.moves_lift_bind rfl fun ms _ => Session.moves_commit rfl fun u db' h => ?_
  obtain ⟨a, r, -, -, rfl⟩ := finishCancelledTx_ok.mp h
  rfl

theorem recordFailure_files {kind : FailureKind} {message : String} :
    Session.Moves Db.SameFiles (recordFailure claimed duration kind message now) db := by
  refine Session.moves_lift_bind rfl fun ms _ => Session.moves_commit rfl fun d db' h => ?_
  obtain ⟨a, r, -, -, ⟨-, -, rfl⟩ | ⟨-, -, rfl⟩⟩ := recordFailureTx_ok.mp h
  · rfl
  · rfl

theorem complete_files : Session.Moves Db.SameFiles (complete claimed duration now) db := by
  unfold complete
  cases claimed.work with
  | imageResize => exact rfl
  | demoDelay =>
    by_cases hlong : i64Max < duration
    · rw [if_pos hlong]
      exact rfl
    · rw [if_neg hlong]
      refine Session.moves_commit rfl fun u db' h => ?_
      obtain ⟨a, r, -, -, -, rfl⟩ := completeTx_ok.mp h
      rfl

theorem updateProgress_files {completed : ℕ} :
    Session.Moves Db.SameFiles (updateProgress claimed completed now) db := by
  unfold updateProgress
  by_cases hlong : i32Max < completed
  · rw [if_pos hlong]
    exact rfl
  · rw [if_neg hlong]
    refine Session.moves_commit rfl fun u db' h => ?_
    obtain ⟨a, r, -, -, -, -, rfl⟩ := updateProgressTx_ok.mp h
    rfl

theorem recordEncodingDuration_files :
    Session.Moves Db.SameFiles (recordEncodingDuration claimed duration now) db := by
  unfold recordEncodingDuration
  by_cases hlong : i64Max < duration
  · rw [if_pos hlong]
    exact rfl
  · rw [if_neg hlong]
    refine Session.moves_commit rfl fun u db' h => ?_
    obtain ⟨a, -, -, rfl⟩ := recordEncodingDurationTx_ok h
    rfl

end Quiet

/-! ### What keeps the files -/

section Keeps

variable {claimed : ClaimedJob} {w w' : World} {op : Op} {images : ImageService}
  {codec : JpegCodec} {faulty : Bool}

/-- The others publish nothing for this attempt. -/
theorem Op.Beside.publishedBy {s : System} (hbeside : op.Beside claimed)
    (hheld : claimed.HeldIn w.system) (hstep : w.system.step op = some s) :
    s.db.publishedBy claimed.attemptId ⊆ w.system.db.publishedBy claimed.attemptId := by
  rcases hbeside with hforeign | rfl
  · exact hforeign.publishedBy hheld.reachable hstep
  · obtain ⟨-, rfl⟩ := System.step_eq_some.mp hstep
    have hfiles : (TaskHarbor.renewLease claimed none w.system.now w.system.db).2.artifacts =
        w.system.db.artifacts := by
      rcases @renewLease_writes claimed w.system.db w.system.now with hsame | ⟨a, e, -, hwrites⟩
      · rw [hsame]
      · rw [hwrites]
        rfl
    intro row hrow
    have hrow' : row ∈ (TaskHarbor.renewLease claimed none w.system.now
        w.system.db).2.publishedBy claimed.attemptId := hrow
    unfold Db.publishedBy at hrow' ⊢
    rw [hfiles] at hrow'
    exact hrow'

theorem OwnKeys.fewer (h : OwnKeys claimed w) (hheld : claimed.HeldIn w'.system)
    (hrows : w'.system.db.publishedBy claimed.attemptId ⊆
      w.system.db.publishedBy claimed.attemptId) : OwnKeys claimed w' :=
  ⟨hheld, fun row hrow => h.keys row (hrows hrow)⟩

/-- Rows that were there keep their files while the storage does not change. -/
theorem OnDisk.fewer (h : OnDisk claimed w) (hheld : claimed.HeldIn w'.system)
    (hrows : w'.system.db.publishedBy claimed.attemptId ⊆
      w.system.db.publishedBy claimed.attemptId)
    (hstorage : w'.storage = w.storage) : OnDisk claimed w' := by
  refine ⟨h.toOwnKeys.fewer hheld hrows, fun row hrow => ?_⟩
  rw [hstorage]
  exact h.files row (hrows hrow)

/-- Nothing is published. -/
theorem OnDisk.of_unpublished (hheld : claimed.HeldIn w.system)
    (h : w.system.db.publishedBy claimed.attemptId = []) : OnDisk claimed w := by
  refine ⟨⟨hheld, fun row hrow => ?_⟩, fun row hrow => ?_⟩
  · rw [h] at hrow
    cases hrow
  · rw [h] at hrow
    cases hrow

/-- The upkeep of the storage spares the task. -/
theorem Upkeep.spares {st : Storage} (h : Upkeep claimed w.system w.storage st)
    (hkeys : OwnKeys claimed w) : Spares claimed w st where
  running := h.running hkeys.held
  adds := h.adds
  published := by
    intro row hrow path hpath
    obtain ⟨id, hkey⟩ := hkeys.keys row hrow
    rw [hkey, outputKey_resolves, Except.ok.injEq] at hpath
    subst hpath
    exact h.published hkeys.held hrow hkey

theorem stable_ownKeys : Stable claimed (OwnKeys claimed) := by
  intro w w' hother h
  cases hother with
  | storage st upkeep => exact ⟨h.held, h.keys⟩
  | system op s beside step => exact h.fewer (h.held.step step) (beside.publishedBy h.held step)

theorem stable_onDisk : Stable claimed (OnDisk claimed) := by
  intro w w' hother h
  cases hother with
  | system op s beside step =>
    exact h.fewer (h.held.step step) (beside.publishedBy h.held step) rfl
  | storage st upkeep =>
    refine ⟨⟨h.held, h.keys⟩, fun row hrow => ?_⟩
    obtain ⟨path, bytes, hpath, hfile, hsize⟩ := h.files row hrow
    refine ⟨path, bytes, hpath, ?_, hsize⟩
    rw [(upkeep.spares h.toOwnKeys).published row hrow path hpath]
    exact hfile

/-- A call that publishes nothing. -/
theorem OnDisk.commits {α : Type} {x : Session α} {r : Except RepositoryError α}
    (h : OnDisk claimed w) (hquiet : Session.Moves Db.SameFiles x w.system.db)
    (happly : w.system.apply op = w.system.run x) (hr : Commits op x w r w') :
    OnDisk claimed w' := by
  obtain ⟨hstorage, hsystem⟩ := hr.cases
  refine h.fewer (hr.held h.held) (fun row hrow => ?_) hstorage
  rcases hsystem with hsame | hstep
  · rw [hsame] at hrow
    exact hrow
  · obtain ⟨-, hafter⟩ := System.step_eq_some.mp hstep
    rw [hafter, happly] at hrow
    have hartifacts : (w.system.run x).db.artifacts = w.system.db.artifacts := hquiet
    unfold Db.publishedBy at hrow ⊢
    rw [hartifacts] at hrow
    exact hrow

/-- A publication shows files that are in their places. -/
theorem completeImageJob_onDisk (h : OnDisk claimed w) {duration : ℕ}
    {outputs : List PendingOutputArtifact} (hduration : Measured duration)
    (hfills : Fills claimed outputs) (hshelved : Shelved claimed outputs w)
    {r : Except RepositoryError Unit}
    (hr : Commits (.completeImageJob claimed duration outputs)
      (completeImageJob claimed duration outputs w.system.now) w r w') : OnDisk claimed w' := by
  obtain ⟨hstorage, hsystem⟩ := hr.cases
  have hheld := hr.held h.held
  have hkept : w'.system.db = w.system.db → OnDisk claimed w' := fun hdb =>
    h.fewer hheld (by rw [hdb]; exact fun _ hrow => hrow) hstorage
  rcases hsystem with hsame | hstep
  · exact hkept (congrArg System.db hsame)
  obtain ⟨-, hafter⟩ := System.step_eq_some.mp hstep
  have hdb : w'.system.db =
      (completeImageJob claimed duration outputs w.system.now w.system.db).2 := by
    rw [hafter]
    rfl
  obtain ⟨maxWidth, quality, inputs, hwork, hpairs⟩ := hfills.inputs
  rcases completeImageJob_answers h.held hwork hduration hfills.storable hpairs with
    ⟨-, hr⟩ | ⟨a, row, hworking, ⟨-, hr⟩ | ⟨message, hr⟩ | ⟨db', hr, -, hshows⟩⟩
  · rw [hr] at hdb
    exact hkept hdb
  · rw [hr] at hdb
    exact hkept hdb
  · rw [hr] at hdb
    exact hkept hdb
  · rw [hr] at hdb
    obtain rfl : w'.system.db = db' := hdb
    have hplaced : ∀ row ∈ w'.system.db.publishedBy claimed.attemptId, ∃ o ∈ outputs,
        row.storageKey = o.storageKey ∧ row.byteSize = o.byteSize ∧
          Placed claimed w.storage o := by
      intro row hrow
      obtain ⟨o, ho, hkey, hsize⟩ := forall₂_mem_right hshows hrow
      exact ⟨o, ho, hkey, hsize, hshelved.2.resolve_left hworking.not_lost o ho⟩
    refine ⟨⟨hheld, fun row hrow => ?_⟩, fun row hrow => ?_⟩
    · obtain ⟨o, -, hkey, -, hplaced⟩ := hplaced row hrow
      exact ⟨_, hkey.trans hplaced.key⟩
    · obtain ⟨o, -, hkey, hsize, hplaced, bytes, hfile, hlength⟩ := hplaced row hrow
      have hpath : resolveKey row.storageKey =
          .ok (outputPath claimed.jobId.get claimed.attemptId o.sourceArtifactId) := by
        rw [hkey, hplaced]
        exact outputKey_resolves
      refine ⟨_, bytes, hpath, ?_, hlength.trans hsize.symm⟩
      rw [hstorage]
      exact hfile

/-- No call that meets its precondition takes a published file away. -/
theorem Safe.onDisk {q : TaskRequest} {r : q.Reply} (hsafe : Safe claimed q w)
    (h : OnDisk claimed w) (hr : Handles images codec faulty w q r w') : OnDisk claimed w' := by
  cases q with
  | cancellationRequested c =>
    obtain ⟨rfl, -⟩ := hr
    exact h
  | finishCancelled c duration => exact h.commits finishCancelled_files rfl hr
  | complete c duration => exact h.commits complete_files rfl hr
  | completeImageJob c duration outputs =>
    obtain ⟨rfl, hmeasured, hfills, hshelved⟩ := hsafe
    exact completeImageJob_onDisk h hmeasured hfills hshelved hr
  | recordEncodingDuration c duration => exact h.commits recordEncodingDuration_files rfl hr
  | recordFailure c duration kind message => exact h.commits recordFailure_files rfl hr
  | updateProgress c completed => exact h.commits updateProgress_files rfl hr
  | elapsed stopwatch =>
    obtain ⟨rfl, -⟩ := hr
    exact h
  | sleep delay =>
    obtain rfl : w' = w := hr
    exact h
  | usageBytes =>
    obtain rfl : w' = w := hr
    exact h
  | resizeToJpeg inputKey key maxWidth quality =>
    obtain ⟨disk, st, -, rfl⟩ := hr
    exact .of_unpublished h.held hsafe.2
  | removeTree key =>
    obtain ⟨st, -, rfl⟩ := hr
    exact .of_unpublished h.held hsafe.2

end Keeps

/-- At every moment of every interleaving of `process_claimed` each row that its attempt has
published has its file, with the size that the row shows. -/
theorem published_outputs_on_disk {images : ImageService} {codec : JpegCodec} {faulty : Bool}
    {claimed : ClaimedJob} {s t : System} {st : Storage} {w : World}
    {p : TaskProgram (Except RepositoryError Unit)} (hcodec : codec.Marked) (hs : s.Reachable)
    (hclaim : s.HandsOut claimed t)
    (hrun : Relation.ReflTransGen (Step (Others claimed) (Handles images codec faulty))
      ((processClaimed claimed).run, ⟨t, st⟩) (p, w)) :
    ∀ row ∈ w.system.db.publishedBy claimed.attemptId, w.storage.Holds row := by
  have hholding := hclaim.holding hs st
  have hdisk := (processClaimed_performs hcodec hholding).meets.invariant (Others.refl claimed)
    Others.trans (fun _ _ h hw => stable_onDisk.others hw h)
    (fun _ _ _ _ h hsafe hr => hsafe.onDisk h hr)
    (OnDisk.of_unpublished hholding.held hholding.unpublished) hrun
  exact hdisk.files

theorem published_outputs_on_disk_both : ∃ (claimed : ClaimedJob) (w : World),
    (w.system.db.publishedBy claimed.attemptId).length = 2 ∧
      ∀ row ∈ w.system.db.publishedBy claimed.attemptId, w.storage.Holds row := by
  obtain ⟨s, t, claimed, w, hexec, hclaim, hanswer, hcount, -⟩ := sample_published
  have hrun := sample_steps claimed false (processClaimed claimed).run ⟨t, squareStorage⟩
  rw [processClaimed_alone hanswer] at hrun
  exact ⟨claimed, w, hcount,
    published_outputs_on_disk squareCodec_marked (reachable_of_exec hexec) hclaim hrun⟩

end TaskHarbor
