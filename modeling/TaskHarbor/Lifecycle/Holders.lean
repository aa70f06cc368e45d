import TaskHarbor.Lifecycle.Operations

/-! The sessions of claim holders, workers and maintenance: each lets every job's rows change by one
transition, whatever it answers. -/
namespace TaskHarbor

open Relational Transaction

/-! ### Claim holders -/

section Holder

variable {now : ℤ} {db : Db} {claimed : ClaimedJob}

theorem finishCancelled_moves {duration : ℕ} :
    Session.Moves (Db.Evolves now) (finishCancelled claimed duration now) db := by
  refine Session.moves_lift_bind (.refl now db) fun ms _ => ?_
  refine Session.moves_commit (.refl now db) fun u db' h => ?_
  exact finishCancelledTx_evolves h

theorem recordFailure_moves {duration : ℕ} {kind : FailureKind} {message : String}
    (hissued : claimed.Issued db) :
    Session.Moves (Db.Evolves now) (recordFailure claimed duration kind message now) db := by
  refine Session.moves_lift_bind (.refl now db) fun ms _ => ?_
  refine Session.moves_commit (.refl now db) fun d db' h => ?_
  exact recordFailureTx_evolves hissued h

theorem complete_moves {duration : ℕ} :
    Session.Moves (Db.Evolves now) (complete claimed duration now) db := by
  unfold complete
  cases claimed.work with
  | imageResize => exact .refl now db
  | demoDelay =>
    by_cases hlong : i64Max < duration
    · rw [if_pos hlong]
      exact .refl now db
    · rw [if_neg hlong]
      refine Session.moves_commit (.refl now db) fun u db' h => ?_
      exact completeTx_evolves h

theorem updateProgress_moves {completed : ℕ} :
    Session.Moves (Db.Evolves now) (updateProgress claimed completed now) db := by
  unfold updateProgress
  by_cases hlong : i32Max < completed
  · rw [if_pos hlong]
    exact .refl now db
  · rw [if_neg hlong]
    refine Session.moves_commit (.refl now db) fun u db' h => ?_
    exact updateProgressTx_evolves h

theorem recordEncodingDuration_moves {duration : ℕ} (hissued : claimed.Issued db) :
    Session.Moves (Db.Evolves now) (recordEncodingDuration claimed duration now) db := by
  unfold recordEncodingDuration
  by_cases hlong : i64Max < duration
  · rw [if_pos hlong]
    exact .refl now db
  · rw [if_neg hlong]
    refine Session.moves_commit (.refl now db) fun u db' h => ?_
    exact recordEncodingDurationTx_evolves hissued h

theorem renewLease_moves :
    Session.Moves (Db.Evolves now) (renewLease claimed none now) db :=
  Session.moves_commit (.refl now db) fun _ _ h => renewLeaseTx_evolves h

/-- Checking the output count against the claim checks it against the stored inputs. -/
theorem completeImageJob_moves {duration : ℕ} {outputs : List PendingOutputArtifact}
    (hissued : claimed.Issued db) :
    Session.Moves (Db.Evolves now) (completeImageJob claimed duration outputs now) db := by
  unfold completeImageJob
  cases hwork : claimed.work with
  | demoDelay => exact .refl now db
  | imageResize w q inputs =>
    by_cases hlen : outputs.length ≠ inputs.length
    · simp only [if_pos hlen]
      exact .refl now db
    · simp only [if_neg hlen]
      have hcount : outputs.length = (db.artifactsOf claimed.jobId.get .input).length :=
        (not_not.mp hlen).trans (hissued.inputs_length hwork)
      refine Session.moves_lift_bind (.refl now db) fun ms _ => ?_
      refine Session.moves_commit (.refl now db) fun u db' h => ?_
      exact completeImageJobTx_evolves hcount h

end Holder

/-! ### Workers -/

section Workers

variable {now : ℤ} {db : Db}

theorem evolves_workers (workers : Table WorkerRow) : db.Evolves now { db with workers } :=
  ⟨turns_congr rfl rfl rfl, rfl, rfl, rfl⟩

theorem insertWorker_evolves {row : WorkerRow} {u : Unit} {db' : Db}
    (h : insertWorker row db = .ok (u, db')) : db.Evolves now db' := by
  unfold insertWorker at h
  obtain ⟨_, -, h⟩ := except_bind_ok.mp h
  split at h
  · rename_i workers _
    cases h
    exact evolves_workers workers
  · cases h

theorem registerWorker_moves {registration : WorkerRegistration} {asOf : ℤ} :
    Session.Moves (Db.Evolves now) (registerWorker registration asOf) db := by
  refine Session.moves_lift_bind (.refl now db) fun _ _ => ?_
  refine Session.moves_lift_bind (.refl now db) fun _ _ => ?_
  refine Session.moves_lift_bind (.refl now db) fun _ _ => ?_
  refine Session.moves_commit (.refl now db) fun u db' h => ?_
  simp only [Tx.bind_ok, lift_ok] at h
  obtain ⟨_, _, ⟨-, rfl⟩, h⟩ := h
  exact insertWorker_evolves h

theorem heartbeatWorker_moves {workerId : Uuid} {ttl : ℕ} {asOf : ℤ} :
    Session.Moves (Db.Evolves now) (heartbeatWorker workerId ttl asOf) db := by
  refine Session.moves_lift_bind (.refl now db) fun _ _ => ?_
  refine Session.moves_lift_bind (.refl now db) fun _ _ => ?_
  refine Session.moves_commit (.refl now db) fun u db' h => ?_
  simp only [updateWorkers, Tx.bind_ok, lift_ok, Except.ok.injEq, Prod.mk.injEq] at h
  obtain ⟨n, _, ⟨-, rfl⟩, -, rfl⟩ := h
  exact evolves_workers _

theorem stopWorker_moves {workerId : Uuid} :
    Session.Moves (Db.Evolves now) (stopWorker workerId now) db := by
  refine Session.moves_commit (.refl now db) fun u db' h => ?_
  obtain ⟨db₀, _, hget, h⟩ := Tx.bind_ok.mp h
  cases hget
  split at h
  · cases h
  · simp only [updateWorkers, Tx.bind_ok, lift_ok, Except.ok.injEq, Prod.mk.injEq] at h
    obtain ⟨n, _, ⟨-, rfl⟩, -, rfl⟩ := h
    exact evolves_workers _

end Workers

/-! ### Expiry -/

section Expiry

variable {now : ℤ} {db : Db}

theorem JobRow.expired_key (now : ℤ) (r : JobRow) :
    Keyed.key { r with outputsExpiredAt := some now } = Keyed.key r := rfl

/-- The database after an expiry of outputs. -/
def Db.outputsExpired (db : Db) (retentionSeconds : ℕ) (now : ℤ) : Db :=
  { db with
    artifacts := db.artifacts.delete (expiredOutput db retentionSeconds now)
    jobs := db.jobs.update
      (fun r => r.retentionOver retentionSeconds now && r.outputsExpiredAt.isNone)
      (fun r => { r with outputsExpiredAt := some now }) (JobRow.expired_key now) }

theorem expireOutputArtifactsTx_ok {retentionSeconds : ℕ} :
    expireOutputArtifactsTx retentionSeconds now db =
      .ok ((db.artifacts.rows.filter (expiredOutput db retentionSeconds now)).map
        ArtifactRow.storageKey, db.outputsExpired retentionSeconds now) := rfl

theorem artifactsOf_outputsExpired (db : Db) (now : ℤ) (retentionSeconds id : ℕ)
    (kind : ArtifactKind) :
    (db.outputsExpired retentionSeconds now).artifactsOf id kind =
      if kind = .output ∧ (db.jobs.get? id).any fun r => r.retentionOver retentionSeconds now
      then []
      else db.artifactsOf id kind := by
  have hfilter : (db.outputsExpired retentionSeconds now).artifactsOf id kind =
      (db.artifactsOf id kind).filter fun a => !expiredOutput db retentionSeconds now a :=
    Table.filter_delete _ _ _
  have hexpired : ∀ a ∈ db.artifactsOf id kind, expiredOutput db retentionSeconds now a =
      (kind == .output && (db.jobs.get? id).any fun r => r.retentionOver retentionSeconds now) := by
    intro a ha
    obtain ⟨-, rfl, rfl⟩ := mem_artifactsOf.mp ha
    rfl
  rw [hfilter]
  split
  · rename_i hover
    rw [List.filter_eq_nil_iff]
    intro a ha
    simp [hexpired a ha, hover]
  · rename_i hkeep
    rw [List.filter_eq_self]
    intro a ha
    rw [hexpired a ha]
    simpa [imp_iff_not_or] using hkeep

theorem get?_outputsExpired (db : Db) (now : ℤ) (retentionSeconds id : ℕ) :
    (db.outputsExpired retentionSeconds now).jobs.get? id = (db.jobs.get? id).map fun r =>
      if r.retentionOver retentionSeconds now && r.outputsExpiredAt.isNone then
        { r with outputsExpiredAt := some now }
      else r :=
  Table.get?_update _ _ _ (by intro r; rfl) _

/-- An expiry removes all outputs of a job together or none. -/
theorem outputsExpired_evolves {retentionSeconds : ℕ} :
    db.Evolves now (db.outputsExpired retentionSeconds now) := by
  refine ⟨fun id => ?_, rfl, rfl, rfl⟩
  have hinputs := artifactsOf_outputsExpired db now retentionSeconds id .input
  have houtputs := artifactsOf_outputsExpired db now retentionSeconds id .output
  have hjob := get?_outputsExpired db now retentionSeconds id
  rw [if_neg fun h => nomatch h.1] at hinputs
  cases hr : db.jobs.get? id with
  | none =>
    rw [hr, if_neg (by simp)] at houtputs
    rw [hr] at hjob
    refine .stay ?_
    unfold Db.view
    rw [hinputs, houtputs, hr, hjob]
    rfl
  | some r =>
    rw [hr, Option.any_some] at houtputs
    rw [hr, Option.map_some] at hjob
    by_cases hover : r.retentionOver retentionSeconds now = true
    · rw [if_pos ⟨rfl, hover⟩] at houtputs
      have hterminal : r.state.isTerminal = true := by
        unfold JobRow.retentionOver at hover
        exact (Bool.and_eq_true _ _ ▸ hover).1
      refine .outputsExpired r now hterminal hr ?_ rfl hinputs houtputs
      refine hjob.trans ?_
      cases hset : r.outputsExpiredAt with
      | none => simp [hover]
      | some t =>
        rw [Option.isNone_some, Bool.and_false, Option.getD_some, ← hset]
        rfl
    · rw [if_neg fun h => hover h.2] at houtputs
      refine .stay ?_
      unfold Db.view
      rw [hinputs, houtputs, hr, hjob]
      simp only [hover]
      rfl

theorem expireOutputArtifacts_moves {retentionSeconds : ℕ} :
    Session.Moves (Db.Evolves now) (expireOutputArtifacts retentionSeconds now) db := by
  unfold expireOutputArtifacts
  by_cases hlong : i64Max < retentionSeconds
  · rw [if_pos hlong]
    exact .refl now db
  · rw [if_neg hlong]
    refine Session.moves_commit (.refl now db) fun keys db' h => ?_
    rw [expireOutputArtifactsTx_ok] at h
    cases h
    exact outputsExpired_evolves

end Expiry

end TaskHarbor
