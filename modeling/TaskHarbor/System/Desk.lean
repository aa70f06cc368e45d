import TaskHarbor.System.Keys

/-! Calls of `create_image_job` with an idempotency key, statement by statement: lock, look, insert
and commit, read back. Between two statements of a call any other operation may run and any other
call may move. The lock key is any function of key and owner, so two keys may share a lock. -/
namespace TaskHarbor

open Relational Transaction Runs

/-- How far a call has come. -/
inductive Phase where
  | begun
  /-- `pg_advisory_xact_lock` returned; the lock is held until the transaction ends. -/
  | locked
  /-- The lookup under the lock answered. -/
  | looked (found : Except RepositoryError (Option ℕ))
  /-- The transaction committed. -/
  | settled (creation : Creation)
  | answered (result : Except RepositoryError JobRecord)

structure Call where
  request : NewImageJob
  /-- The `CURRENT_TIMESTAMP` of its transaction. -/
  startedAt : ℤ
  phase : Phase

def Call.holds (call : Call) : Bool :=
  match call.phase with
  | .locked | .looked _ => true
  | _ => false

/-- The argument of `pg_advisory_xact_lock`. -/
def Call.lockKey (hash : String → ℕ → ℕ) (call : Call) : Option ℕ :=
  call.request.idempotency.map fun i => hash i.key call.request.ownerUserId

structure Desk where
  system : System
  calls : List Call

def Desk.initial (now : ℤ) : Desk := ⟨.initial now, []⟩

inductive Event where
  | other (op : Op)
  | begin (request : NewImageJob)
  /-- The next statement of call `n`. -/
  | advance (n : ℕ)

/-- An upload with an idempotency key; these run as calls. -/
def Op.isKeyed : Op → Bool
  | .createImageJob request => request.idempotency.isSome
  | _ => false

/-- The statements of `create_image_job` after a lookup that found nothing. -/
def insertImageJob (request : NewImageJob) (now : ℤ) : Tx ℕ := do
  let name ← varcharParam 100 request.name.asStr
  let id ← insertJob (request.row name now) (request.row_id name now)
  insertInputArtifacts id now 0 request.inputs
  return id

/-- The end of a call's transaction, from what its lookup found. -/
def Call.settle (call : Call) (found : Except RepositoryError (Option ℕ)) (db : Db) : Phase × Db :=
  match found with
  | .error e => (.answered (.error e), db)
  | .ok (some id) => (.settled (.existing id), db)
  | .ok none =>
      match commit (insertImageJob call.request call.startedAt) db with
      | (.ok id, db') => (.settled (.created id), db')
      | (.error e, db') => (.answered (.error e), db')

/-- The read-back of a settled call. -/
def Call.readBack (call : Call) (creation : Creation) (db : Db) :
    Except RepositoryError JobRecord :=
  match creation with
  | .existing id =>
      TaskHarbor.readBack id (some call.request.ownerUserId) "read idempotent image job" db
  | .created id => TaskHarbor.readBack id none "read created image job" db

/-- A call that `NewImageJob::validate` refuses ends before its transaction. -/
def NewImageJob.firstPhase (request : NewImageJob) : Phase :=
  match request.validate with
  | .ok () => .begun
  | .error e => .answered (.error e)

def Desk.move (d : Desk) (n : ℕ) (call : Call) (phase : Phase) (db : Db) : Desk :=
  ⟨{ d.system with db }, d.calls.set n { call with phase }⟩

/-- The next statement of a call; it waits while another call holds its lock. -/
def Desk.advance (hash : String → ℕ → ℕ) (d : Desk) (n : ℕ) (call : Call) : Option Desk :=
  match call.phase with
  | .begun =>
      if d.calls.any fun c => c.holds && c.lockKey hash == call.lockKey hash then none
      else some (d.move n call .locked d.system.db)
  | .locked =>
      some (d.move n call (.looked (existingImageJob call.request d.system.db)) d.system.db)
  | .looked found =>
      let (phase, db) := call.settle found d.system.db
      some (d.move n call phase db)
  | .settled creation =>
      some (d.move n call (.answered (call.readBack creation d.system.db)) d.system.db)
  | .answered _ => none

def Desk.step (hash : String → ℕ → ℕ) (d : Desk) : Event → Option Desk
  | .other op =>
      if op.isKeyed then none else (d.system.step op).map fun system => { d with system }
  | .begin request =>
      if request.idempotency.isSome then
        some { d with calls := d.calls ++ [⟨request, d.system.now, request.firstPhase⟩] }
      else none
  | .advance n => d.calls[n]?.bind (d.advance hash n)

/-! ### What one statement of a call does -/

/-- One statement of `call`, with its next phase and the database after it. -/
inductive Call.Moves (hash : String → ℕ → ℕ) (d : Desk) (call : Call) : Phase → Db → Prop
  | locked (begun : call.phase = .begun)
      (free : ∀ c ∈ d.calls, c.holds = true → c.lockKey hash ≠ call.lockKey hash) :
      call.Moves hash d .locked d.system.db
  | looked (locked : call.phase = .locked) :
      call.Moves hash d (.looked (existingImageJob call.request d.system.db)) d.system.db
  | refused (e : RepositoryError) (looked : call.phase = .looked (.error e)) :
      call.Moves hash d (.answered (.error e)) d.system.db
  | found (id : ℕ) (looked : call.phase = .looked (.ok (some id))) :
      call.Moves hash d (.settled (.existing id)) d.system.db
  | created (id : ℕ) (db : Db) (looked : call.phase = .looked (.ok none))
      (inserted : insertImageJob call.request call.startedAt d.system.db = .ok (id, db)) :
      call.Moves hash d (.settled (.created id)) db
  | failed (e : RepositoryError) (looked : call.phase = .looked (.ok none))
      (rolledBack : insertImageJob call.request call.startedAt d.system.db = .error e) :
      call.Moves hash d (.answered (.error e)) d.system.db
  | answered (creation : Creation) (settled : call.phase = .settled creation) :
      call.Moves hash d (.answered (call.readBack creation d.system.db)) d.system.db

section Steps

variable {hash : String → ℕ → ℕ} {d d' : Desk} {event : Event} {n : ℕ} {call : Call}

theorem Desk.advance_moves (h : d.advance hash n call = some d') :
    ∃ phase db, call.Moves hash d phase db ∧ d' = d.move n call phase db := by
  unfold Desk.advance at h
  cases hphase : call.phase with
  | begun =>
    simp only [hphase] at h
    split at h
    · cases h
    · rename_i hfree
      rw [Bool.not_eq_true, List.any_eq_false] at hfree
      refine ⟨_, _, .locked hphase fun c hc hholds hsame => hfree c hc ?_, (Option.some.inj h).symm⟩
      simp [hholds, hsame]
  | locked =>
    simp only [hphase] at h
    exact ⟨_, _, .looked hphase, (Option.some.inj h).symm⟩
  | looked found =>
    simp only [hphase] at h
    rcases found with e | _ | id
    · exact ⟨_, _, .refused e hphase, (Option.some.inj h).symm⟩
    · unfold Call.settle at h
      rcases commit_cases (insertImageJob call.request call.startedAt) d.system.db with
        ⟨id, db, hinsert, hc⟩ | ⟨e, hinsert, hc⟩
      · simp only [hc] at h
        exact ⟨_, _, .created id db hphase hinsert, (Option.some.inj h).symm⟩
      · simp only [hc] at h
        exact ⟨_, _, .failed e hphase hinsert, (Option.some.inj h).symm⟩
    · exact ⟨_, _, .found id hphase, (Option.some.inj h).symm⟩
  | settled creation =>
    simp only [hphase] at h
    exact ⟨_, _, .answered creation hphase, (Option.some.inj h).symm⟩
  | answered result =>
    simp only [hphase] at h
    cases h

theorem Desk.step_cases (h : d.step hash event = some d') :
    (∃ op system, op.isKeyed = false ∧ d.system.step op = some system ∧
      d' = { d with system }) ∨
    (∃ request, request.idempotency.isSome = true ∧
      d' = { d with calls := d.calls ++ [⟨request, d.system.now, request.firstPhase⟩] }) ∨
    ∃ n call phase db, d.calls[n]? = some call ∧ call.Moves hash d phase db ∧
      d' = d.move n call phase db := by
  cases event with
  | other op =>
    simp only [Desk.step] at h
    split at h
    · cases h
    · rename_i hkeyed
      obtain ⟨system, hstep, rfl⟩ := Option.map_eq_some_iff.mp h
      exact Or.inl ⟨op, system, by simpa using hkeyed, hstep, rfl⟩
  | begin request =>
    simp only [Desk.step] at h
    split at h
    · rename_i hkeyed
      exact Or.inr (Or.inl ⟨request, hkeyed, (Option.some.inj h).symm⟩)
    · cases h
  | advance n =>
    obtain ⟨call, hcall, h⟩ := Option.bind_eq_some_iff.mp h
    obtain ⟨phase, db, hmoves, rfl⟩ := Desk.advance_moves h
    exact Or.inr (Or.inr ⟨n, call, phase, db, hcall, hmoves, rfl⟩)

/-- A lookup that found nothing and the insert after it make one `create_image_job`. -/
theorem createImageJobTx_of_insert {request : NewImageJob} {now : ℤ} {db db' : Db} {id : ℕ}
    (hnone : existingImageJob request db = .ok none)
    (h : insertImageJob request now db = .ok (id, db')) :
    createImageJobTx request now db = .ok (.created id, db') := by
  obtain ⟨stored, db₁, hstored, h⟩ := Tx.bind_ok.mp h
  obtain ⟨newId, db₂, hinsert, h⟩ := Tx.bind_ok.mp h
  obtain ⟨_, db₃, hinputs, h⟩ := Tx.bind_ok.mp h
  cases h
  refine Tx.bind_ok.mpr ⟨db, db, rfl, Tx.bind_ok.mpr ⟨none, db, lift_ok.mpr ⟨hnone, rfl⟩, ?_⟩⟩
  refine Tx.bind_ok.mpr ⟨stored, db₁, hstored, Tx.bind_ok.mpr ⟨id, db₂, hinsert, ?_⟩⟩
  exact Tx.bind_ok.mpr ⟨(), db', hinputs, rfl⟩

end Steps

/-! ### Errors of an insert -/

/-- An error that no caller could have avoided: the database or the data failed. -/
def RepositoryError.isFault : RepositoryError → Bool
  | .database _ | .invalidData _ => true
  | _ => false

/-- Only with such errors. -/
abbrev Faults {α : Type} (x : Tx α) (db : Db) : Prop :=
  Tx.FailsOnly (fun e => e.isFault = true) x db

section Inserts

variable {db : Db} {now : ℤ}

theorem enforce_faults (checks : List Check) :
    ∀ e, enforce checks = .error e → e.isFault = true := by
  intro e he
  obtain ⟨c, -, -, rfl⟩ := enforce_error he
  rfl

theorem identityLeft_faults (n : ℕ) : ∀ e, identityLeft n = .error e → e.isFault = true := by
  intro e he
  obtain ⟨message, rfl⟩ := identityLeft_error he
  rfl

theorem ite_faults {α : Type} {c : Prop} [Decidable c] {a : α} {e : RepositoryError}
    (he : e.isFault = true) :
    ∀ e', (if c then Except.ok a else .error e) = .error e' → e'.isFault = true := by
  intro e' h
  split at h
  · cases h
  · cases h
    exact he

theorem ite_throw_faults {c : Prop} [Decidable c] {e : RepositoryError} (he : e.isFault = true) :
    ∀ e', (if c then throw e else pure () : Except RepositoryError Unit) = .error e' →
      e'.isFault = true := by
  intro e' h
  split at h
  · cases h
    exact he
  · cases h

theorem varcharParam_faults (n : ℕ) (text : String) :
    ∀ e, varcharParam n text = .error e → e.isFault = true := by
  intro e he
  unfold varcharParam at he
  split at he
  · split at he
    · cases he
    · cases he
      rfl
  · cases he
    rfl

/-- Two computations in a row. -/
theorem bind_faults {α β : Type} {x : Except RepositoryError α} {f : α → Except RepositoryError β}
    (hx : ∀ e, x = .error e → e.isFault = true)
    (hf : ∀ a, x = .ok a → ∀ e, f a = .error e → e.isFault = true) :
    ∀ e, (x >>= f) = .error e → e.isFault = true := by
  intro e he
  cases hcase : x with
  | error e' =>
    rw [hcase] at he
    cases he
    exact hx e hcase
  | ok a =>
    rw [hcase] at he
    exact hf a hcase e he

theorem insertJob_faults (mk : ℕ → JobRow) (hk) : Faults (insertJob mk hk) db :=
  bind_faults (identityLeft_faults _) fun _ _ => bind_faults (enforce_faults _) fun _ _ =>
    bind_faults (enforce_faults _) fun _ _ _ he => by cases he

theorem insertArtifact_faults (mk : ℕ → ArtifactRow) (hk) : Faults (insertArtifact mk hk) db :=
  bind_faults (identityLeft_faults _) fun _ _ => bind_faults (enforce_faults _) fun _ _ =>
    bind_faults (enforce_faults _) fun _ _ _ he => by cases he

theorem insertInputArtifacts_faults (jobId itemIndex : ℕ) (inputs : List NewInputArtifact) :
    Faults (insertInputArtifacts jobId now itemIndex inputs) db := by
  induction inputs generalizing itemIndex db with
  | nil => exact Tx.failsOnly_pure () db
  | cons input rest ih =>
    refine Tx.failsOnly_bind ?_ fun _ _ _ => ih (itemIndex + 1)
    refine Tx.failsOnly_bind (Tx.failsOnly_lift (ite_faults rfl) _) fun _ _ _ => ?_
    refine Tx.failsOnly_bind (Tx.failsOnly_lift (ite_faults rfl) _) fun _ _ _ => ?_
    refine Tx.failsOnly_bind (Tx.failsOnly_lift (ite_faults rfl) _) fun _ _ _ => ?_
    refine Tx.failsOnly_bind (Tx.failsOnly_lift (ite_faults rfl) _) fun _ _ _ => ?_
    refine Tx.failsOnly_bind (Tx.failsOnly_lift (varcharParam_faults _ _) _) fun _ _ _ => ?_
    refine Tx.failsOnly_bind (Tx.failsOnly_lift (ite_faults rfl) _) fun _ _ _ => ?_
    exact insertArtifact_faults _ _

/-- The insert fails with the database or the data only; it reports no conflict. -/
theorem insertImageJob_faults (request : NewImageJob) : Faults (insertImageJob request now) db := by
  refine Tx.failsOnly_bind (Tx.failsOnly_lift (varcharParam_faults _ _) _) fun _ _ _ => ?_
  refine Tx.failsOnly_bind (insertJob_faults _ _) fun _ _ _ => ?_
  exact Tx.failsOnly_bind (insertInputArtifacts_faults _ _ _) fun _ _ _ => Tx.failsOnly_pure _ _

theorem NewImageJob.validate_faults (request : NewImageJob) :
    ∀ e, request.validate = .error e → e.isFault = true := by
  intro e he
  unfold NewImageJob.validate at he
  rcases except_unless_error he with ⟨-, rfl⟩ | ⟨-, he⟩
  · rfl
  · rcases except_unless_error he with ⟨-, rfl⟩ | ⟨-, he⟩
    · rfl
    · dsimp only at he
      split at he
      · cases he
      · unfold IdempotencyRequest.validate at he
        split at he
        · cases he
          rfl
        · cases he

end Inserts

end TaskHarbor
