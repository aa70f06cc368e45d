import TaskHarbor.Lifecycle.Texts
import TaskHarbor.System.Answers

/-! Publications over whole runs. The inputs of a claim can always be bound again, only a succeeded
attempt shows outputs, and a publication of matching outputs is refused for a full table only. -/
namespace TaskHarbor

open Relational Transaction Runs

/-! ### Bindable rows -/

section Bindable

variable {s t : System} {op : Op}

theorem System.run_binds {α : Type} {x : Session α} (h : Session.Moves Db.KeepsBindable x s.db) :
    s.db.KeepsBindable (s.run x).db := h

theorem System.runClaim_binds {x : Session (Option ClaimedJob)}
    (h : Session.Moves Db.KeepsBindable x s.db) : s.db.KeepsBindable (s.runClaim x).db := h

theorem System.step_binds (h : s.step op = some t) : s.db.KeepsBindable t.db := by
  obtain ⟨-, rfl⟩ := System.step_eq_some.mp h
  have hrefl : s.db.KeepsBindable s.db := .refl s.db
  cases op with
  | create name => exact System.run_binds create_binds
  | createImageJob request => exact System.run_binds createImageJob_binds
  | manualRetry id owner => exact System.run_binds manualRetry_binds
  | requestCancel id owner => exact System.run_binds requestCancel_binds
  | registerWorker registration asOf => exact System.run_binds registerWorker_binds
  | heartbeatWorker workerId ttl asOf => exact System.run_binds heartbeatWorker_binds
  | stopWorker workerId => exact System.run_binds stopWorker_binds
  | claimNext workerId claimToken locked => exact System.runClaim_binds claimNext_binds
  | renewLease claimed => exact System.run_binds renewLease_binds
  | updateProgress claimed completed => exact System.run_binds updateProgress_binds
  | recordEncodingDuration claimed duration => exact System.run_binds recordEncodingDuration_binds
  | recordFailure claimed duration kind message => exact System.run_binds recordFailure_binds
  | finishCancelled claimed duration => exact System.run_binds finishCancelled_binds
  | complete claimed duration => exact System.run_binds complete_binds
  | completeImageJob claimed duration outputs => exact System.run_binds completeImageJob_binds
  | reclaim asOf locked => exact System.run_binds reclaimNextExpiredAttemptAt_binds
  | createSchedule request => exact System.run_binds createSchedule_binds
  | updateSchedule id request asOf owner => exact System.run_binds updateScheduleAtWithOwner_binds
  | materialize asOf locked => exact System.run_binds materializeNextScheduleAt_binds
  | expireOutputs retentionSeconds => exact System.run_binds expireOutputArtifacts_binds
  | tick now => exact hrefl
  | readClock => exact hrefl

theorem System.Reachable.bindable (hs : s.Reachable) : s.db.Bindable := by
  obtain ⟨start, hrun⟩ := hs
  refine hrun.invariant (P := fun s => s.db.Bindable)
    (fun _ _ _ h _ hstep => System.step_binds hstep h) ⟨?_, ?_⟩
  · intro a ha
    cases ha
  · intro i hi
    cases hi

end Bindable

/-! ### The inputs of a claim -/

/-- What a publication needs of an input. -/
structure ArtifactRecord.Fits (input : ArtifactRecord) : Prop where
  id : input.id ≤ i64Max
  index : input.itemIndex ≤ 9
  name : storableText input.displayName = true

theorem ArtifactRecord.tryFrom_fields {row : ArtifactRow} {record : ArtifactRecord}
    (h : ArtifactRecord.tryFrom row = .ok record) :
    record.id = row.id ∧ record.itemIndex = row.itemIndex ∧
      record.displayName = row.displayName := by
  unfold ArtifactRecord.tryFrom at h
  split at h
  · cases h
  · obtain ⟨jobId, -, hrecord⟩ := except_bind_ok.mp h
    cases hrecord
    exact ⟨rfl, rfl, rfl⟩

/-- Loading keeps the ids and the indexes. -/
theorem loaded_ids {rows : List ArtifactRow} {records : List ArtifactRecord}
    (h : List.Forall₂ (fun row record => ArtifactRecord.tryFrom row = .ok record) rows records) :
    records.map (fun i => (i.id, i.itemIndex)) = rows.map fun i => (i.id, i.itemIndex) := by
  induction h with
  | nil => rfl
  | cons hrecord _ ih =>
    obtain ⟨hid, hindex, -⟩ := ArtifactRecord.tryFrom_fields hrecord
    rw [List.map_cons, List.map_cons, ih, hid, hindex]

section Inputs

variable {claimed : ClaimedJob} {s : System} {w q : ℕ} {inputs : List ArtifactRecord}

/-- The inputs of a claim are the input rows of its job, in the order of their indexes. -/
theorem ClaimedJob.Issued.inputRows {db : Db} (h : claimed.Issued db)
    (hwork : claimed.work = .imageResize w q inputs) :
    List.Forall₂ (fun row record => ArtifactRecord.tryFrom row = .ok record)
      ((db.artifactsOf claimed.jobId.get .input).insertionSort artifactOrder) inputs := by
  obtain ⟨r, hr, -, hclaimed⟩ := h.job
  have hid : r.id = claimed.jobId.get := Table.key_of_get? hr
  rw [hwork, claimedWork] at hclaimed
  cases htype : r.jobType with
  | demoDelay =>
    rw [htype] at hclaimed
    cases hclaimed
  | imageResize =>
    simp only [htype, except_bind_ok] at hclaimed
    obtain ⟨⟨w', q'⟩, -, loaded, hload, hrest⟩ := hclaimed
    split at hrest
    · cases hrest
    · cases hrest
      rw [← hid]
      exact except_mapM_ok.mp hload

theorem ClaimedJob.HeldIn.fits (h : claimed.HeldIn s)
    (hwork : claimed.work = .imageResize w q inputs) : ∀ input ∈ inputs, input.Fits := by
  intro input hinput
  obtain ⟨row, hrow, hrecord⟩ := forall₂_mem_right (h.issued.inputRows hwork) hinput
  have hmem : row ∈ s.db.artifactsOf claimed.jobId.get .input :=
    (List.mem_insertionSort artifactOrder).mp hrow
  obtain ⟨hid, hindex, hname⟩ := ArtifactRecord.tryFrom_fields hrecord
  have hbindable := h.reachable.bindable.artifacts row (mem_artifactsOf.mp hmem).1
  have hchecks := (h.reachable.inv.db.readable claimed.jobId.get).inputs row hmem
  refine ⟨?_, ?_, ?_⟩
  · rw [hid]
    exact hbindable.id
  · rw [hindex]
    exact (ArtifactRow.checks_iff.mp hchecks).1
  · rw [hname]
    exact hbindable.name

/-- Outputs that follow the inputs one for one match the input rows. -/
theorem ClaimedJob.HeldIn.matches (h : claimed.HeldIn s)
    (hwork : claimed.work = .imageResize w q inputs) {outputs : List PendingOutputArtifact}
    (houtputs : outputs.map (fun o => (o.sourceArtifactId, o.itemIndex)) =
      inputs.map fun i => (i.id, i.itemIndex)) :
    Matches outputs (s.db.artifactsOf claimed.jobId.get .input) := by
  unfold Matches
  rw [houtputs, loaded_ids (h.issued.inputRows hwork)]
  exact (List.perm_insertionSort artifactOrder _).map _

end Inputs

/-! ### Published rows -/

/-- The output rows of an attempt. -/
def Db.publishedBy (db : Db) (attemptId : ℕ) : List ArtifactRow :=
  db.artifacts.rows.filter fun a => a.attemptId == some attemptId

section Published

variable {s : System} {id : ℕ} {a : ArtifactRow}

theorem mem_publishedBy {db : Db} :
    a ∈ db.publishedBy id ↔ a ∈ db.artifacts ∧ a.attemptId = some id := by
  unfold Db.publishedBy
  rw [List.mem_filter, beq_iff_eq]
  exact Iff.rfl

/-- A row with an attempt is an output of its job. -/
theorem System.Reachable.published_output (hs : s.Reachable) (ha : a ∈ s.db.publishedBy id) :
    a ∈ (s.db.view a.jobId).outputs := by
  obtain ⟨hmem, hattempt⟩ := mem_publishedBy.mp ha
  cases hkind : a.kind with
  | output => exact mem_artifactsOf.mpr ⟨hmem, rfl, hkind⟩
  | input =>
    have hchecks := (hs.inv.db.readable a.jobId).inputs a (mem_artifactsOf.mpr ⟨hmem, rfl, hkind⟩)
    have hnone := (ArtifactRow.checks_iff.mp hchecks).2.2.2.2.2.1
    rw [hkind, hattempt] at hnone
    cases hnone.1

/-- Only a succeeded attempt shows outputs. -/
theorem System.Reachable.publishedBy (hs : s.Reachable)
    (h : ∀ b, s.db.jobAttempts.get? id = some b → b.state ≠ .succeeded) :
    s.db.publishedBy id = [] := by
  rw [List.eq_nil_iff_forall_not_mem]
  intro o ho
  obtain ⟨hmem, hattempt⟩ := mem_publishedBy.mp ho
  have hinv := hs.inv.db
  have hshown := hs.published_output ho
  have hlifecycle := hinv.lifecycle o.jobId
  cases hjob : (s.db.view o.jobId).job with
  | none =>
    rw [(hlifecycle.absent hjob).2.2] at hshown
    cases hshown
  | some r =>
    have hmanifested := (hinv.manifest o.jobId).manifested hlifecycle hjob
    obtain ⟨b, hb, hsucceeded, -, hall⟩ := hmanifested.oneAttempt (List.ne_nil_of_mem hshown)
    have hsame := hall o hshown
    rw [hattempt, Option.some.injEq] at hsame
    subst hsame
    exact h b (Table.get?_key (mem_attemptsOf.mp hb).1) hsucceeded

/-- A step shows a new row of an attempt only where the attempt ran and now has succeeded. -/
theorem System.Reachable.publishes {t : System} {op : Op} (hs : s.Reachable)
    (hstep : s.step op = some t) (ha : a ∈ t.db.publishedBy id) : a ∈ s.db.publishedBy id ∨
      ∃ b b', s.db.jobAttempts.get? id = some b ∧ t.db.jobAttempts.get? id = some b' ∧
        b.state = .running ∧ b'.state = .succeeded := by
  have ht : t.Reachable := hs.run (Run.single op trivial hstep : Run System.step Always s t)
  have hattempt := (mem_publishedBy.mp ha).2
  rcases ((System.step_db hs.inv hstep).turns a.jobId).outputs_new (ht.published_output ha) with
    hold | ⟨b, hb, b', hb', hrunning, hsucceeded, hid, hshown⟩
  · exact Or.inl (mem_publishedBy.mpr ⟨(mem_artifactsOf.mp hold).1, hattempt⟩)
  · rw [hattempt, Option.some.injEq] at hshown
    subst hshown
    have hget' := Table.get?_key (mem_attemptsOf.mp hb').1
    refine Or.inr ⟨b, b', Table.get?_key (mem_attemptsOf.mp hb).1, ?_, hrunning, hsucceeded⟩
    rw [← hid]
    exact hget'

/-- A foreign step shows no new row of the attempt. -/
theorem Op.Foreign.publishedBy {t : System} {op : Op} (h : op.Foreign id) (hs : s.Reachable)
    (hstep : s.step op = some t) : t.db.publishedBy id ⊆ s.db.publishedBy id := by
  intro a ha
  rcases hs.publishes hstep ha with hold | ⟨b, b', hb, hb', hrunning, hsucceeded⟩
  · exact hold
  rcases System.step_overlooks hstep h with hleaves | ⟨asOf, -, hoverlooks⟩
  · obtain rfl : b = b' := Option.some.inj ((hleaves b hb).symm.trans hb')
    rw [hrunning] at hsucceeded
    cases hsucceeded
  · rcases hoverlooks b hb with hsame | ⟨-, c, hc, hgiven⟩
    · obtain rfl : b = b' := Option.some.inj (hsame.symm.trans hb')
      rw [hrunning] at hsucceeded
      cases hsucceeded
    · obtain rfl : c = b' := Option.some.inj (hc.symm.trans hb')
      exact absurd hsucceeded hgiven.closed.2

end Published

/-! ### The answer of a publication -/

section Publish

variable {claimed : ClaimedJob} {s : System} {db : Db} {now : ℤ}

/-- The database itself refuses. -/
def RepositoryError.FromDatabase (e : RepositoryError) : Prop := ∃ message, e = .database message

theorem insertArtifact_failsOnly (mk : ℕ → ArtifactRow) (hk) (db : Db) :
    Tx.FailsOnly RepositoryError.FromDatabase (insertArtifact mk hk) db := by
  intro e h
  unfold insertArtifact at h
  cases hleft : identityLeft db.artifacts.next with
  | error e' =>
    rw [hleft] at h
    cases h
    exact identityLeft_error hleft
  | ok u =>
    rw [hleft, except_ok_bind] at h
    cases hchecks : enforce (mk db.artifacts.next).checks with
    | error e' =>
      simp only [hchecks] at h
      cases h
      obtain ⟨c, -, -, rfl⟩ := enforce_error hchecks
      exact ⟨_, rfl⟩
    | ok u =>
      simp only [hchecks, except_ok_bind] at h
      generalize hslot : enforce _ = slot at h
      cases slot with
      | error e' =>
        cases h
        obtain ⟨c, -, -, rfl⟩ := enforce_error hslot
        exact ⟨_, rfl⟩
      | ok u => cases h

theorem insertOutputArtifacts_failsOnly {jobId attemptId : ℕ}
    {outputs : List PendingOutputArtifact} (hstorable : ∀ o ∈ outputs, o.Storable)
    (hsource : ∀ o ∈ outputs, ∃ source, o.Sources db jobId source) :
    Tx.FailsOnly RepositoryError.FromDatabase
      (insertOutputArtifacts jobId attemptId now outputs) db := by
  induction outputs generalizing db with
  | nil => exact Tx.failsOnly_pure () db
  | cons output rest ih =>
    obtain ⟨source, hs⟩ := hsource output List.mem_cons_self
    have hst := hstorable output List.mem_cons_self
    obtain ⟨stored, hstored, -⟩ := hst.name
    have hencode : output.encode = .ok output.displayName :=
      PendingOutputArtifact.encode_ok.mpr ⟨hst.index.trans (by decide), hst.size.2, hst.width.2,
        hst.height.2, hst.source, hst.key, by rw [hst.media]; decide,
        (varcharParam_ok.mp hstored).1, rfl⟩
    refine Tx.failsOnly_bind ?_ fun u db₁ hfirst => ih
      (fun o ho => hstorable o (List.mem_cons_of_mem _ ho)) fun o ho => ?_
    · refine Tx.failsOnly_bind_ok (lift_ok.mpr ⟨hencode, rfl⟩) ?_
      refine Tx.failsOnly_bind_ok (Tx.get_run db) ?_
      simp only [PendingOutputArtifact.source_eq_some.mpr hs]
      exact Tx.failsOnly_bind_ok (lift_ok.mpr ⟨hstored, rfl⟩) (insertArtifact_failsOnly _ _ db)
    · obtain ⟨source', stored', -, -, -, hinsert⟩ := insertOutputArtifact_ok.mp hfirst
      have hone : Appended db db₁ jobId .output _ :=
        (Appended.refl db₁ jobId .output).cons hinsert ⟨rfl, rfl⟩
      obtain ⟨s', hs'⟩ := hsource o (List.mem_cons_of_mem _ ho)
      exact ⟨s', hone.get? hs'.row, hs'.job, hs'.kind, hs'.index⟩

/-- The rows that a publication leaves of an attempt that showed none. -/
def Shows (rows : List ArtifactRow) (outputs : List PendingOutputArtifact) : Prop :=
  List.Forall₂ (fun (o : PendingOutputArtifact) a =>
    a.storageKey = o.storageKey ∧ a.byteSize = o.byteSize) outputs rows

/-- A publication of storable outputs that follow the inputs is refused on a lost claim, on a job
that is being cancelled, or by a full table; otherwise its rows show the outputs. -/
theorem completeImageJob_answers (h : claimed.HeldIn s) {w q : ℕ} {inputs : List ArtifactRecord}
    (hwork : claimed.work = .imageResize w q inputs) {outputs : List PendingOutputArtifact}
    {duration : ℕ} (hd : duration ≤ i64Max) (hstorable : ∀ o ∈ outputs, o.Storable)
    (houtputs : outputs.map (fun o => (o.sourceArtifactId, o.itemIndex)) =
      inputs.map fun i => (i.id, i.itemIndex)) :
    (claimed.Lost s.db s.now ∧
      completeImageJob claimed duration outputs s.now s.db = (.error .claimLost, s.db)) ∨
    ∃ a r, claimed.Working s a r ∧
      (r.state = .cancelRequested ∧
          completeImageJob claimed duration outputs s.now s.db = (.error .claimLost, s.db) ∨
        (∃ message, completeImageJob claimed duration outputs s.now s.db =
          (.error (.database message), s.db)) ∨
        ∃ db', completeImageJob claimed duration outputs s.now s.db = (.ok (), db') ∧
          claimed.ClosedAs .succeeded db' ∧ Shows (db'.publishedBy claimed.attemptId) outputs) := by
  have hlen : outputs.length = inputs.length := by
    have := congrArg List.length houtputs
    simpa only [List.length_map] using this
  rcases h.working_or_lost with hlost | ⟨a, r, hworking⟩
  · exact Or.inl ⟨hlost, completeImageJob_lost hlost hwork hd hlen⟩
  refine Or.inr ⟨a, r, hworking, ?_⟩
  have henc : encodeDuration duration = .ok duration := encodeDuration_ok.mpr ⟨hd, rfl⟩
  have hcall : completeImageJob claimed duration outputs s.now s.db =
      commit (completeImageJobTx claimed inputs.length duration outputs s.now) s.db := by
    unfold completeImageJob
    rw [hwork]
    simp only [if_neg (not_not.mpr hlen)]
    rw [Session.bind_run, Session.liftExcept_run, henc]
  rw [hcall]
  rcases hworking.active with hstate | hstate
  · right
    have hmatches := h.matches hwork houtputs
    have hsource : ∀ o ∈ outputs, ∃ source, o.Sources s.db claimed.jobId.get source := by
      intro o ho
      obtain ⟨i, hi, heq⟩ := List.mem_map.mp
        (hmatches.subset (List.mem_map_of_mem (f := fun o : PendingOutputArtifact =>
          (o.sourceArtifactId, o.itemIndex)) ho))
      simp only [Prod.mk.injEq] at heq
      obtain ⟨hmem, hjob, hkind⟩ := mem_artifactsOf.mp hi
      exact ⟨i, Table.get?_eq_some.mpr ⟨hmem, heq.1⟩, hjob, hkind, heq.2⟩
    have hlock : lockActiveClaim claimed s.now s.db = .ok ((), s.db) :=
      lockActiveClaim_ok.mpr ⟨rfl, a, r, hworking.live, hstate⟩
    have hfails : Tx.FailsOnly RepositoryError.FromDatabase
        (insertOutputArtifacts claimed.jobId.get claimed.attemptId s.now outputs) s.db :=
      insertOutputArtifacts_failsOnly hstorable hsource
    cases hinsert :
      insertOutputArtifacts claimed.jobId.get claimed.attemptId s.now outputs s.db with
    | error e =>
      obtain ⟨message, rfl⟩ := hfails e hinsert
      have htx : completeImageJobTx claimed inputs.length duration outputs s.now s.db =
          .error (.database message) := by
        unfold completeImageJobTx
        rw [Tx.bind_run, hlock]
        simp only
        rw [Tx.bind_run, hinsert]
      exact Or.inl ⟨message, commit_error htx⟩
    | ok result =>
      obtain ⟨⟨⟩, db₁⟩ := result
      have htx :
          completeImageJobTx claimed inputs.length duration outputs s.now s.db = .ok ((), _) :=
        completeImageJobTx_ok.mpr ⟨a, r, db₁, hworking.live, hstate,
          h.issued.imageResize hwork hworking.live.job, hinsert, rfl⟩
      obtain ⟨-, rows, happended, hrows⟩ := insertOutputArtifacts_ok hinsert
      refine Or.inr ⟨_, commit_ok htx, ?_, ?_⟩
      · have hlive : claimed.Live s.now db₁ a r := by
          refine ⟨?_, hworking.live.fences, ?_⟩
          · rw [happended.jobAttempts]
            exact hworking.live.attempt
          · rw [happended.jobs]
            exact hworking.live.job
        exact closedAs_setAttempt hlive rfl
      · have hbefore : s.db.publishedBy claimed.attemptId = [] := by
          refine h.reachable.publishedBy fun b hb => ?_
          obtain rfl : a = b := Option.some.inj (hworking.live.attempt.symm.trans hb)
          rw [hworking.live.running]
          decide
        have hnew : rows.filter (fun a => a.attemptId == some claimed.attemptId) = rows := by
          refine List.filter_eq_self.mpr fun row hrow => ?_
          obtain ⟨o, -, -, source, stored, id, -, rfl⟩ := forall₂_mem_right hrows hrow
          exact beq_self_eq_true (some claimed.attemptId)
        have hafter : db₁.publishedBy claimed.attemptId = rows := by
          unfold Db.publishedBy at hbefore ⊢
          rw [happended.appended, List.filter_append, hbefore, hnew, List.nil_append]
        show Shows (db₁.publishedBy claimed.attemptId) outputs
        rw [hafter]
        refine hrows.imp ?_
        rintro o row ⟨-, source, stored, id, -, rfl⟩
        exact ⟨rfl, rfl⟩
  · left
    refine ⟨hstate, ?_⟩
    have htx : completeImageJobTx claimed inputs.length duration outputs s.now s.db =
        .error .claimLost := by
      have hlock : lockActiveClaim claimed s.now s.db = .error .claimLost := by
        unfold lockActiveClaim
        rw [Tx.bind_run, Tx.get_run]
        simp only [hworking.live.job, hstate, Option.any_some]
        rw [if_neg (by simp)]
        rfl
      unfold completeImageJobTx
      rw [Tx.bind_run, hlock]
    exact commit_error htx

end Publish

end TaskHarbor
