import TaskHarbor.Library.Runs
import TaskHarbor.Schedule.View

/-! The whole system as one machine. Every repository call is a step on the shared database, in any
order and by any number of workers and clients; a call that works in two statements is two steps.
The clock of the database never goes back, and a clock value may be used any time after its read. -/
namespace TaskHarbor

open Relational Transaction Runs

structure System where
  db : Db
  now : ℤ
  /-- Every claim that `claim_next` returned. -/
  claims : List ClaimedJob
  /-- Every `CURRENT_TIMESTAMP` that a caller read. -/
  reads : List ℤ

def System.initial (now : ℤ) : System := ⟨Db.empty, now, [], []⟩

inductive Op where
  | create (name : JobName)
  | createImageJob (request : NewImageJob)
  | manualRetry (id : JobId) (owner : Option ℕ)
  | requestCancel (id : JobId) (owner : Option ℕ)
  | registerWorker (registration : WorkerRegistration) (asOf : ℤ)
  | heartbeatWorker (workerId : Uuid) (ttl : ℕ) (asOf : ℤ)
  | stopWorker (workerId : Uuid)
  | claimNext (workerId claimToken : Uuid) (locked : List ℕ)
  | renewLease (claimed : ClaimedJob)
  | updateProgress (claimed : ClaimedJob) (completed : ℕ)
  | recordEncodingDuration (claimed : ClaimedJob) (duration : ℕ)
  | recordFailure (claimed : ClaimedJob) (duration : ℕ) (kind : FailureKind) (message : String)
  | finishCancelled (claimed : ClaimedJob) (duration : ℕ)
  | complete (claimed : ClaimedJob) (duration : ℕ)
  | completeImageJob (claimed : ClaimedJob) (duration : ℕ) (outputs : List PendingOutputArtifact)
  | reclaim (asOf : ℤ) (locked : List ℕ)
  | createSchedule (request : NewSchedule)
  | updateSchedule (id : ScheduleId) (request : UpdateSchedule) (asOf : ℤ) (owner : Option ℕ)
  | materialize (asOf : ℤ) (locked : List ℕ)
  | expireOutputs (retentionSeconds : ℕ)
  | tick (now : ℤ)
  | readClock

/-- The claim that an operation of a claim holder carries. -/
def Op.claim : Op → Option ClaimedJob
  | .renewLease claimed | .updateProgress claimed _ | .recordEncodingDuration claimed _
  | .recordFailure claimed _ _ _ | .finishCancelled claimed _ | .complete claimed _
  | .completeImageJob claimed _ _ => some claimed
  | _ => none

/-- The clock value that an operation got from an earlier read. -/
def Op.clock : Op → Option ℤ
  | .registerWorker _ asOf | .heartbeatWorker _ _ asOf | .reclaim asOf _
  | .updateSchedule _ _ asOf _ | .materialize asOf _ => some asOf
  | _ => none

/-- Claim holders hold claims that were returned, clock values were read, time does not go back. -/
def Op.enabled (s : System) (op : Op) : Bool :=
  op.claim.all (fun claimed => s.claims.contains claimed) &&
    op.clock.all (fun asOf => s.reads.contains asOf) &&
    match op with
    | .tick now => decide (s.now ≤ now)
    | _ => true

/-- Run a session on the database. -/
def System.run {α : Type} (s : System) (x : Session α) : System := { s with db := (x s.db).2 }

/-- The claim in the answer of `claim_next`. -/
def returnedClaim : Except RepositoryError (Option ClaimedJob) → List ClaimedJob
  | .ok (some claimed) => [claimed]
  | _ => []

/-- Run `claim_next`, and keep the claim it returns. -/
def System.runClaim (s : System) (x : Session (Option ClaimedJob)) : System :=
  { s.run x with claims := returnedClaim (x s.db).1 ++ s.claims }

def System.apply (s : System) : Op → System
  | .create name => s.run (create name s.now)
  | .createImageJob request => s.run (createImageJob request s.now)
  | .manualRetry id owner => s.run (manualRetry id owner s.now)
  | .requestCancel id owner => s.run (requestCancel id owner s.now)
  | .registerWorker registration asOf => s.run (registerWorker registration asOf)
  | .heartbeatWorker workerId ttl asOf => s.run (heartbeatWorker workerId ttl asOf)
  | .stopWorker workerId => s.run (stopWorker workerId s.now)
  | .claimNext workerId claimToken locked =>
      s.runClaim (claimNext workerId none s.now claimToken locked)
  | .renewLease claimed => s.run (renewLease claimed none s.now)
  | .updateProgress claimed completed => s.run (updateProgress claimed completed s.now)
  | .recordEncodingDuration claimed duration =>
      s.run (recordEncodingDuration claimed duration s.now)
  | .recordFailure claimed duration kind message =>
      s.run (recordFailure claimed duration kind message s.now)
  | .finishCancelled claimed duration => s.run (finishCancelled claimed duration s.now)
  | .complete claimed duration => s.run (complete claimed duration s.now)
  | .completeImageJob claimed duration outputs =>
      s.run (completeImageJob claimed duration outputs s.now)
  | .reclaim asOf locked => s.run (reclaimNextExpiredAttemptAt asOf locked)
  | .createSchedule request => s.run (createSchedule request s.now)
  | .updateSchedule id request asOf owner =>
      s.run (updateScheduleAtWithOwner id request asOf owner s.now)
  | .materialize asOf locked => s.run (materializeNextScheduleAt asOf locked s.now)
  | .expireOutputs retentionSeconds => s.run (expireOutputArtifacts retentionSeconds s.now)
  | .tick now => { s with now }
  | .readClock => { s with reads := s.now :: s.reads }

def System.step (s : System) (op : Op) : Option System :=
  if op.enabled s then some (s.apply op) else none

/-- The states that the system can reach from an empty migrated database. -/
def System.Reachable (s : System) : Prop := ∃ now, Run System.step Always (.initial now) s

theorem System.step_eq_some {s t : System} {op : Op} :
    s.step op = some t ↔ op.enabled s = true ∧ t = s.apply op := by
  unfold System.step
  split
  · rename_i h
    simp [h, eq_comm]
  · rename_i h
    simp [h]

/-! ### What a step does to the database -/

/-- Every job and every schedule makes one step. -/
structure Db.Steps (makes : NewSchedule → Prop) (edits : ℕ → UpdateSchedule → ℤ → Prop)
    (runs : ℤ → Prop) (now : ℤ) (db db' : Db) : Prop where
  turns : db.Turns now db'
  plans : db.Plans makes edits runs db'

section Steps

variable {makes : NewSchedule → Prop} {edits : ℕ → UpdateSchedule → ℤ → Prop} {runs : ℤ → Prop}
  {now asOf : ℤ} {db db' : Db}

theorem Db.Evolves.steps (h : db.Evolves now db') : db.Steps makes edits runs now db' :=
  ⟨h.turns, h.plans⟩

theorem createSchedule_turns {request : NewSchedule} :
    Session.Moves (Db.Turns now) (createSchedule request now) db := by
  have hrefl : db.Turns now db := turns_congr rfl rfl rfl
  refine Session.moves_lift_bind hrefl fun _ _ => ?_
  refine Session.moves_bind_read (Session.moves_commit hrefl ?_) fun _ _ => rfl
  intro id db' h
  obtain ⟨rows, -, -, -, -, -, hframe⟩ := createScheduleTx_ok h
  exact turns_congr (by rw [hframe]) (by rw [hframe]) (by rw [hframe])

theorem updateScheduleAtWithOwner_turns {id : ScheduleId} {request : UpdateSchedule}
    {owner : Option ℕ} :
    Session.Moves (Db.Turns now) (updateScheduleAtWithOwner id request asOf owner now) db := by
  have hrefl : db.Turns now db := turns_congr rfl rfl rfl
  refine Session.moves_lift_bind hrefl fun _ _ => ?_
  refine Session.moves_lift_bind hrefl fun _ _ => ?_
  refine Session.moves_bind_read (Session.moves_commit hrefl ?_) fun _ _ => rfl
  intro n db' h
  rcases updateScheduleTx_ok h with rfl | ⟨s, -, -, rfl⟩
  · exact hrefl
  · exact turns_congr rfl rfl rfl

theorem materializeNextScheduleAt_turns {locked : List ℕ} (hsound : ∀ s ∈ db.schedules, s.Sound) :
    Session.Moves (Db.Turns now) (materializeNextScheduleAt asOf locked now) db := by
  refine materializeNextScheduleAt_moves (turns_congr rfl rfl rfl) ?_
  intro candidate scheduledFor next job coalesced db₁ db' hc h
  exact h.turns (hsound candidate (scheduleCandidate_spec hc).1)

end Steps

/-! ### The invariant of the database -/

theorem ScheduleMove.sound {makes : NewSchedule → Prop} {edits : UpdateSchedule → ℤ → Prop}
    {runs : ℤ → Prop} {v v' : ScheduleView} (h : ScheduleMove makes edits runs v v')
    (hv : ∀ s, v.row = some s → s.Sound) : ∀ s, v'.row = some s → s.Sound := by
  intro t ht
  cases h with
  | stay h => exact hv t (by rw [← h, ht])
  | created request now s rows makes valid row row' made sound stored inputs occurrences =>
    obtain rfl : s = t := Option.some.inj (row'.symm.trans ht)
    exact sound
  | edited request asOf now next s name edits valid cursor row row' sound inputs occurrences =>
    obtain rfl := Option.some.inj (row'.symm.trans ht)
    exact sound
  | materialized asOf now scheduledFor next s o runs row due slot slotOf free row' inputs
      occurrences =>
    obtain rfl := Option.some.inj (row'.symm.trans ht)
    have hs := hv s row
    exact ⟨hs.checks, hs.name, hs.id⟩

section Invariant

variable {makes : NewSchedule → Prop} {edits : ℕ → UpdateSchedule → ℤ → Prop} {runs : ℤ → Prop}
  {now : ℤ} {db db' : Db}

theorem Db.Inv.steps (hinv : db.Inv) (h : db.Steps makes edits runs now db') : db'.Inv where
  lifecycle := fun id => (h.turns id).lifecycle (hinv.lifecycle id)
  manifest := fun id => (h.turns id).manifest (hinv.lifecycle id) (hinv.manifest id)
  readable := fun id => (h.turns id).readable (hinv.readable id)
  schedules := by
    intro s hs
    refine (h.plans s.id).sound ?_ s (Table.get?_key hs)
    intro t ht
    exact hinv.schedules t (Table.mem_of_get? ht)

theorem Db.Inv.empty : Db.empty.Inv where
  lifecycle := fun id => by
    refine ⟨fun _ => ⟨rfl, rfl, rfl⟩, rfl, ?_⟩
    intro r hr
    cases hr
  manifest := fun id => by
    refine ⟨List.nodup_nil, ?_, ?_, ?_⟩ <;> intro r hr <;> cases hr
  readable := fun id => by
    refine ⟨?_, ?_, ?_, ?_⟩ <;> intro r hr <;> cases hr
  schedules := fun s hs => absurd hs (Table.not_mem_empty s)

end Invariant

end TaskHarbor
