import TaskHarbor.Lifecycle.View

/-! What a repository transaction may do to the rows of one job. Each case is one kind of step with
its guards; the invariants of the lifecycle are proved from these cases and from nothing else. -/
namespace TaskHarbor

open Relational

/-! ### Rows that read back -/

/-- The row meets its constraints and `JobRow::try_into_record` accepts it. -/
structure JobRow.Sound (r : JobRow) : Prop where
  checks : holdsAll r.checks = true
  name : ∃ name, decodeJobName r.name = .ok name
  id : 0 < r.id ∧ r.id ≤ i64Max
  schedule : ∀ s, r.scheduleId = some s → 0 < s ∧ s ≤ i64Max
  parent : ∀ p, r.retryOfJobId = some p → 0 < p ∧ p ≤ i64Max

structure AttemptRow.Sound (a : AttemptRow) : Prop where
  progress : 0 < a.progressTotal ∧ a.progressCompleted ≤ a.progressTotal
  owner : ∃ w, a.workerId = some w
  lease : ∃ e, a.leaseExpiresAt = some e

/-- The highest attempt number. -/
def maxNumber (attempts : List AttemptRow) : ℕ :=
  (attempts.map AttemptRow.attemptNumber).foldr max 0

theorem nextAttemptNumber_eq (db : Db) (id : ℕ) :
    nextAttemptNumber db id = maxNumber (db.attemptsOf id) + 1 := rfl

/-- A row that `claim_next` inserts for job `r`. -/
structure AttemptRow.Opened (a : AttemptRow) (r : JobRow) (attempts : List AttemptRow) :
    Prop where
  number : a.attemptNumber = maxNumber attempts + 1
  room : a.attemptNumber ≤ r.maxAttempts
  state : a.state = .running
  progressCompleted : a.progressCompleted = 0
  progressTotal : a.progressTotal = r.progressTotal
  sound : a.Sound

/-- A row that one of the three creations inserts. -/
structure JobRow.New (r : JobRow) : Prop where
  state : r.state = .queued
  finishedAt : r.finishedAt = none
  cancelRequestedAt : r.cancelRequestedAt = none
  outputsExpiredAt : r.outputsExpiredAt = none
  sound : r.Sound

/-- Artifact rows of one kind inserted together. -/
structure Batch (rows : List ArtifactRow) : Prop where
  checks : ∀ a ∈ rows, holdsAll a.checks = true
  indexes : (rows.map ArtifactRow.itemIndex).Nodup

/-- The output `o` of attempt `attemptId` shows one of `inputs`. -/
def ArtifactRow.Shows (o : ArtifactRow) (inputs : List ArtifactRow) (attemptId : ℕ) : Prop :=
  o.attemptId = some attemptId ∧
    ∃ i ∈ inputs, o.sourceArtifactId = some i.id ∧ o.itemIndex = i.itemIndex

/-- A retry is due the backoff of attempt `n` after its end `t`; of the two instants both are bound
as parameters, or neither is. -/
def Backoff (n : ℕ) (t availableAt : ℤ) : Prop :=
  ∃ u, (t = u ∧ availableAt = u + seconds (retryBackoffSeconds n)) ∨
    (t = bindTimestamp u ∧ availableAt = bindTimestamp (u + seconds (retryBackoffSeconds n)))

/-! ### Transitions -/

inductive Transition (now : ℤ) (v v' : JobView) : Prop
  | stay (h : v' = v)
  | created (r : JobRow) (inputs : List ArtifactRow) (job : v.job = none) (job' : v'.job = some r)
      (new : r.New) (batch : Batch inputs) (attempts : v'.attempts = v.attempts)
      (appended : v'.inputs = v.inputs ++ inputs) (outputs : v'.outputs = v.outputs)
  | claimed (r : JobRow) (a : AttemptRow) (t : ℤ) (job : v.job = some r)
      (pending : r.state.isPending = true) (opened : a.Opened r v.attempts)
      (job' : v'.job = some (r.started t)) (attempts : v'.attempts = v.attempts ++ [a])
      (inputs : v'.inputs = v.inputs) (outputs : v'.outputs = v.outputs)
  | renewed (r : JobRow) (a : AttemptRow) (e : ℤ) (running : a.state = .running)
      (live : a.leaseAfter now = true)
      (rewrites : v.Rewrites v' r r a { a with leaseExpiresAt := some e })
      (outputs : v'.outputs = v.outputs)
  | measured (r : JobRow) (a : AttemptRow) (ms : ℕ) (running : a.state = .running)
      (rewrites : v.Rewrites v' r r a { a with encodingDurationMs := ms })
      (outputs : v'.outputs = v.outputs)
  | progressed (r : JobRow) (a : AttemptRow) (n : ℕ) (running : a.state = .running)
      (state : r.state = .running)
      (between : betweenProgress n a.progressCompleted a.progressTotal = true)
      (between' : betweenProgress n r.progressCompleted r.progressTotal = true)
      (rewrites : v.Rewrites v' r { r with progressCompleted := n } a
        { a with progressCompleted := n })
      (outputs : v'.outputs = v.outputs)
  | cancelFinished (r : JobRow) (a : AttemptRow) (message : String) (t : ℤ) (ms : ℕ)
      (running : a.state = .running) (state : r.state = .cancelRequested)
      (rewrites : v.Rewrites v' r (r.cancelled t) a (a.closed .cancelled .cancelled message t ms))
      (outputs : v'.outputs = v.outputs)
  | retried (r : JobRow) (a : AttemptRow) (message : String) (t availableAt : ℤ) (ms : ℕ)
      (running : a.state = .running) (state : r.state = .running)
      (room : a.attemptNumber < r.maxAttempts)
      (rewrites : v.Rewrites v' r (r.retried availableAt message) a
        (a.closed .failed .transient message t ms))
      (outputs : v'.outputs = v.outputs) (backoff : Backoff a.attemptNumber t availableAt)
  | failed (r : JobRow) (a : AttemptRow) (kind : FailureKind) (message : String) (t : ℤ) (ms : ℕ)
      (running : a.state = .running) (state : r.state = .running)
      (rewrites : v.Rewrites v' r (r.failed t message) a
        (a.closed .failed kind.errorKind message t ms))
      (outputs : v'.outputs = v.outputs)
  | completed (r : JobRow) (a : AttemptRow) (t : ℤ) (ms : ℕ)
      (running : a.state = .running) (state : r.state = .running) (demo : r.jobType = .demoDelay)
      (rewrites : v.Rewrites v' r (r.completed t ms resultMessage) a (a.completed t ms))
      (outputs : v'.outputs = v.outputs)
  | published (r : JobRow) (a : AttemptRow) (message : String) (t : ℤ) (ms : ℕ)
      (rows : List ArtifactRow) (running : a.state = .running) (state : r.state = .running)
      (image : r.jobType = .imageResize)
      (rewrites : v.Rewrites v' r (r.completed t ms message) a (a.completed t ms))
      (batch : Batch rows) (shows : ∀ o ∈ rows, o.Shows v.inputs a.id)
      (count : rows.length = v.inputs.length) (outputs : v'.outputs = v.outputs ++ rows)
  | cancelRequested (r : JobRow) (t : ℤ) (cancellable : r.state.isCancellable = true)
      (restates : v.Restates v' r (r.cancelRequested t))
  | outputsExpired (r : JobRow) (t : ℤ) (terminal : r.state.isTerminal = true)
      (job : v.job = some r)
      (job' : v'.job = some { r with outputsExpiredAt := some (r.outputsExpiredAt.getD t) })
      (attempts : v'.attempts = v.attempts) (inputs : v'.inputs = v.inputs)
      (outputs : v'.outputs = [])

/-- Every job's rows change by one transition. -/
def Db.Turns (now : ℤ) (db db' : Db) : Prop :=
  ∀ id, Transition now (db.view id) (db'.view id)

/-- What a transaction that is not about schedules may do. -/
structure Db.Evolves (now : ℤ) (db db' : Db) : Prop where
  turns : db.Turns now db'
  schedules : db'.schedules = db.schedules
  scheduleInputs : db'.scheduleInputs = db.scheduleInputs
  scheduleOccurrences : db'.scheduleOccurrences = db.scheduleOccurrences

theorem Db.Evolves.refl (now : ℤ) (db : Db) : db.Evolves now db :=
  ⟨fun _ => .stay rfl, rfl, rfl, rfl⟩

end TaskHarbor
