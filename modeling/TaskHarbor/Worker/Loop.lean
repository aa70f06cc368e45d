import TaskHarbor.System.Workers
import TaskHarbor.Worker.Recovery

/-! `run_with_config` and its `worker_loop`: one worker process among the others. Its `JoinSet` is
the list of the attempts that its tasks are about; what it waits for is a phase. -/
namespace TaskHarbor

open Interleaving Relational Transaction Runs

/-! ### The configuration -/

structure WorkerConfig where
  id : Uuid
  name : String
  concurrencyLimit : ℕ
  leaseDuration : ℕ
  leaseRenewalInterval : ℕ
  heartbeatInterval : ℕ
  heartbeatTtl : ℕ
  shutdownGrace : ℕ
  maintenanceInterval : ℕ
  outputRetention : ℕ
  orphanGrace : ℕ
  storageBudgetBytes : ℕ

/-- `WorkerConfig::validate`. -/
def WorkerConfig.validate (config : WorkerConfig) : Except RepositoryError Unit := do
  if config.leaseRenewalInterval = 0 ∨ config.leaseDuration ≤ config.leaseRenewalInterval then
    throw (.invalidData "lease renewal interval must be positive and shorter than the lease")
  if config.heartbeatInterval = 0 ∨ config.heartbeatTtl ≤ config.heartbeatInterval then
    throw (.invalidData "heartbeat interval must be positive and shorter than its TTL")
  if config.shutdownGrace = 0 then
    throw (.invalidData "shutdown grace period must be greater than zero")
  if config.maintenanceInterval = 0 ∨ config.outputRetention = 0 ∨ config.orphanGrace = 0 ∨
      config.storageBudgetBytes = 0 then
    throw (.invalidData "maintenance intervals and storage budget must be greater than zero")

/-- `WorkerConfig::registration`. -/
def WorkerConfig.registration (config : WorkerConfig) : WorkerRegistration where
  id := config.id
  name := config.name
  concurrencyLimit := config.concurrencyLimit
  leaseDuration := config.leaseDuration
  heartbeatTtl := config.heartbeatTtl

/-! ### The process -/

/-- Where the process is. From `draining` on a phase carries the answer of `worker_loop`, from
`stopping` on also that of `drain_tasks` and the number of tasks that the grace period cut off. -/
inductive LoopPhase where
  | registering
  | opening
  | checking
  | reclaiming
  | cleaning (reclaimed : ReclaimedAttempt)
  | materializing
  | claiming
  | calling
  | waiting
  | beating
  | maintaining
  | draining (looped : Except RepositoryError Unit)
  | keeping (looped : Except RepositoryError Unit)
  | aborting (looped : Except RepositoryError Unit) (abandoned : ℕ)
  | stopping (looped drained : Except RepositoryError Unit) (abandoned : ℕ)
  | ended (answer : Except RepositoryError Unit) (abandoned : ℕ)

/-- The process: its phase, what the shutdown channel shows, and the attempts of its tasks. -/
structure WorkerProcess where
  phase : LoopPhase
  shutdown : Bool
  tasks : List ℕ

/-- The process, all tasks of all workers, and the world. -/
structure Site where
  process : WorkerProcess
  members : List Member
  world : World

def Site.enter (site : Site) (phase : LoopPhase) : Site :=
  { site with process := { site.process with phase } }

/-- A task has left the `JoinSet`. -/
def Site.join (site : Site) (id : ℕ) : Site :=
  { site with process := { site.process with tasks := site.process.tasks.erase id } }

/-- `JoinSet::spawn` for a returned claim. -/
def Site.spawn (site : Site) (claimed : ClaimedJob) (storageBudgetBytes : ℕ) : Site :=
  { site with
    process := { site.process with tasks := site.process.tasks ++ [claimed.attemptId] }
    members := site.members ++ [⟨claimed, processWithLeaseRenewal claimed storageBudgetBytes⟩] }

/-- `?` in `worker_loop`. -/
def loopNext {α : Type} (next : α → LoopPhase) : Except RepositoryError α → LoopPhase
  | .ok a => next a
  | .error e => .draining (.error e)

/-- `while let Some(reclaimed)` in `reclaim_expired_attempts`. -/
def reclaimNext : Option ReclaimedAttempt → LoopPhase
  | some reclaimed => .cleaning reclaimed
  | none => .materializing

/-- `if let Some(tick)`, which starts the loop over. -/
def materializeNext : Option ScheduleTick → LoopPhase
  | some _ => .checking
  | none => .claiming

/-- `?` in `drain_tasks`. -/
def drainNext (looped : Except RepositoryError Unit) : Except RepositoryError Unit → LoopPhase
  | .ok _ => .draining looped
  | .error e => .stopping looped (.error e) 0

/-- `?` after `register_worker`. -/
def registerNext {α : Type} : Except RepositoryError α → LoopPhase
  | .ok _ => .opening
  | .error e => .ended (.error e) 0

/-- `loop_result?; drain_result?; stop_result`. -/
def lastAnswer : Except RepositoryError Unit → Except RepositoryError Unit →
    Except RepositoryError Unit → Except RepositoryError Unit
  | .error e, _, _ => .error e
  | .ok _, .error e, _ => .error e
  | .ok _, .ok _, stopped => stopped

/-- `join_error`. -/
def joinError (message : String) : RepositoryError :=
  .invalidData ("worker task terminated unexpectedly: " ++ message)

/-- What `handle_task_result` makes of the end of a task. -/
inductive Member.Joined (m : Member) : Except RepositoryError Unit → Prop
  | finished (refused : Bool) (r : Except RepositoryError Unit)
      (task : m.task = .concluding refused (.done r)) : Joined m r
  | broken (refused : Bool) (message : String) (task : m.task = .aborted refused) :
      Joined m (.error (joinError message))

/-- A call that reads the clock of the database first; the read may fail, and the time may be long
past when the call is made. -/
inductive Clocked {α : Type} (op : ℤ → Op) (x : ℤ → Session α) (w : World) :
    Except RepositoryError α → World → Prop
  | unread (message : String) : Clocked op x w (.error (.database message)) w
  | called (asOf : ℤ) (r : Except RepositoryError α) (w' : World)
      (call : Commits (op asOf) (x asOf) w r w') : Clocked op x w r w'

/-- What the process does next. -/
inductive WorkerProcess.Acts (config : WorkerConfig) (faulty : Bool) (site : Site) : Site → Prop
  | invalid (e : RepositoryError) (phase : site.process.phase = .registering)
      (check : config.validate = .error e) :
      Acts config faulty site (site.enter (.ended (.error e) 0))
  | registered {r : Except RepositoryError WorkerRecord} {w : World}
      (phase : site.process.phase = .registering) (check : config.validate = .ok ())
      (call : Clocked (.registerWorker config.registration)
        (fun asOf => registerWorkerRecord config.registration asOf site.world.system.now)
        site.world r w) :
      Acts config faulty site ({ site with world := w }.enter (registerNext r))
  -- What `run_maintenance` does before is a step of the rest each time: a call, the removal of an
  -- expired file, a sweep that heeds the others. Its error is only logged.
  | opened (phase : site.process.phase = .opening) : Acts config faulty site (site.enter .checking)
  | closed (phase : site.process.phase = .checking) (shutdown : site.process.shutdown = true) :
      Acts config faulty site (site.enter (.draining (.ok ())))
  | continued (phase : site.process.phase = .checking) (shutdown : site.process.shutdown = false) :
      Acts config faulty site (site.enter .reclaiming)
  | reclaimed {locked : List ℕ} {r : Except RepositoryError (Option ReclaimedAttempt)} {w : World}
      (phase : site.process.phase = .reclaiming)
      (call : Clocked (fun asOf => .reclaim asOf locked)
        (fun asOf => reclaimNextExpiredAttemptAt asOf locked) site.world r w) :
      Acts config faulty site ({ site with world := w }.enter
        (loopNext reclaimNext r))
  | cleaned {reclaimed : ReclaimedAttempt} {r : Except StorageError Unit} {st : Storage}
      (phase : site.process.phase = .cleaning reclaimed)
      (removal : Removal faulty (attemptOutputPrefix reclaimed.jobId.get reclaimed.attemptId)
        site.world.storage r st) :
      Acts config faulty site
        ({ site with world := { site.world with storage := st } }.enter .reclaiming)
  | materialized {locked : List ℕ} {r : Except RepositoryError (Option ScheduleTick)} {w : World}
      (phase : site.process.phase = .materializing)
      (call : Clocked (fun asOf => .materialize asOf locked)
        (fun asOf => materializeNextScheduleAt asOf locked site.world.system.now) site.world r w) :
      Acts config faulty site ({ site with world := w }.enter
        (loopNext materializeNext r))
  | free (phase : site.process.phase = .claiming)
      (room : site.process.tasks.length < config.concurrencyLimit)
      (shutdown : site.process.shutdown = false) : Acts config faulty site (site.enter .calling)
  | full (phase : site.process.phase = .claiming)
      (full : config.concurrencyLimit ≤ site.process.tasks.length ∨ site.process.shutdown = true) :
      Acts config faulty site (site.enter .waiting)
  | spawned {claimToken : Uuid} {locked : List ℕ} {claimed : ClaimedJob} {w : World}
      (phase : site.process.phase = .calling)
      (call : Commits (.claimNext config.id claimToken locked)
        (claimNext config.id none site.world.system.now claimToken locked) site.world
        (.ok (some claimed)) w) :
      Acts config faulty site
        (({ site with world := w }.spawn claimed config.storageBudgetBytes).enter .claiming)
  | idle {claimToken : Uuid} {locked : List ℕ} {w : World}
      (phase : site.process.phase = .calling)
      (call : Commits (.claimNext config.id claimToken locked)
        (claimNext config.id none site.world.system.now claimToken locked) site.world
        (.ok none) w) :
      Acts config faulty site ({ site with world := w }.enter .waiting)
  | unclaimed {claimToken : Uuid} {locked : List ℕ} {e : RepositoryError} {w : World}
      (phase : site.process.phase = .calling)
      (call : Commits (.claimNext config.id claimToken locked)
        (claimNext config.id none site.world.system.now claimToken locked) site.world
        (.error e) w) :
      Acts config faulty site ({ site with world := w }.enter (.draining (.error e)))
  | signalled (hungUp : Bool) (phase : site.process.phase = .waiting) :
      Acts config faulty site
        (site.enter (if hungUp || site.process.shutdown then .draining (.ok ()) else .checking))
  | joined {m : Member} {r : Except RepositoryError Unit} (phase : site.process.phase = .waiting)
      (mem : m ∈ site.members) (task : m.claimed.attemptId ∈ site.process.tasks)
      (ending : m.Joined r) :
      Acts config faulty site
        ((site.join m.claimed.attemptId).enter (loopNext (fun _ => .checking) r))
  | ticked (phase : site.process.phase = .waiting) : Acts config faulty site (site.enter .beating)
  | beat {r : Except RepositoryError Unit} {w : World} (phase : site.process.phase = .beating)
      (call : Clocked (.heartbeatWorker config.id config.heartbeatTtl)
        (heartbeatWorker config.id config.heartbeatTtl) site.world r w) :
      Acts config faulty site ({ site with world := w }.enter (loopNext (fun _ => .checking) r))
  | serviced (phase : site.process.phase = .waiting) :
      Acts config faulty site (site.enter .maintaining)
  | maintained (phase : site.process.phase = .maintaining) :
      Acts config faulty site (site.enter .checking)
  | slept (phase : site.process.phase = .waiting) : Acts config faulty site (site.enter .checking)
  | drained {looped : Except RepositoryError Unit} (phase : site.process.phase = .draining looped)
      (empty : site.process.tasks = []) :
      Acts config faulty site (site.enter (.stopping looped (.ok ()) 0))
  | drainJoined {looped r : Except RepositoryError Unit} {m : Member}
      (phase : site.process.phase = .draining looped) (mem : m ∈ site.members)
      (task : m.claimed.attemptId ∈ site.process.tasks) (ending : m.Joined r) :
      Acts config faulty site ((site.join m.claimed.attemptId).enter (drainNext looped r))
  | drainTicked {looped : Except RepositoryError Unit}
      (phase : site.process.phase = .draining looped) (busy : site.process.tasks ≠ []) :
      Acts config faulty site (site.enter (.keeping looped))
  | drainBeat {looped r : Except RepositoryError Unit} {w : World}
      (phase : site.process.phase = .keeping looped)
      (call : Clocked (.heartbeatWorker config.id config.heartbeatTtl)
        (heartbeatWorker config.id config.heartbeatTtl) site.world r w) :
      Acts config faulty site ({ site with world := w }.enter (drainNext looped r))
  | timedOut {looped : Except RepositoryError Unit} (phase : site.process.phase = .draining looped)
      (busy : site.process.tasks ≠ []) :
      Acts config faulty site (site.enter (.aborting looped site.process.tasks.length))
  | collected {looped r : Except RepositoryError Unit} {abandoned : ℕ} {m : Member}
      (phase : site.process.phase = .aborting looped abandoned) (mem : m ∈ site.members)
      (task : m.claimed.attemptId ∈ site.process.tasks) (ending : m.Joined r) :
      Acts config faulty site (site.join m.claimed.attemptId)
  | panicked {looped : Except RepositoryError Unit} {abandoned : ℕ} {m : Member} (message : String)
      (phase : site.process.phase = .aborting looped abandoned) (mem : m ∈ site.members)
      (task : m.claimed.attemptId ∈ site.process.tasks)
      (ending : m.Joined (.error (joinError message))) :
      Acts config faulty site ((site.join m.claimed.attemptId).enter
        (.stopping looped (.error (joinError message)) abandoned))
  | emptied {looped : Except RepositoryError Unit} {abandoned : ℕ}
      (phase : site.process.phase = .aborting looped abandoned) (empty : site.process.tasks = []) :
      Acts config faulty site (site.enter (.stopping looped (.ok ()) abandoned))
  | stopped {looped drained r : Except RepositoryError Unit} {abandoned : ℕ} {w : World}
      (phase : site.process.phase = .stopping looped drained abandoned)
      (call : Commits (.stopWorker config.id) (stopWorker config.id site.world.system.now)
        site.world r w) :
      Acts config faulty site
        ({ site with world := w }.enter (.ended (lastAnswer looped drained r) abandoned))

/-- A step of the tasks or of the rest: no other party claims under the id of this worker. -/
inductive Elsewhere (images : ImageService) (codec : JpegCodec) (faulty : Bool) (workerId : Uuid) :
    List Member × World → List Member × World → Prop
  | acts (l₁ l₂ : List Member) (m m' : Member) (w w' : World)
      (act : Member.Acts images codec faulty (m, w) (m', w')) :
      Elsewhere images codec faulty workerId (l₁ ++ m :: l₂, w) (l₁ ++ m' :: l₂, w')
  | call (l : List Member) (w : World) (op : Op) (s : System) (unclaimed : op.claim = none)
      (other : ∀ claimToken locked, op ≠ .claimNext workerId claimToken locked)
      (step : w.system.step op = some s) :
      Elsewhere images codec faulty workerId (l, w) (l, { w with system := s })
  | storage (l : List Member) (w : World) (st : Storage) (keeping : Housekeeping l w st) :
      Elsewhere images codec faulty workerId (l, w) (l, { w with storage := st })
  | spawned (l : List Member) (w : World) (claimed : ClaimedJob) (budget : ℕ) (s : System)
      (claim : w.system.HandsOut claimed s) (other : claimed.workerId ≠ workerId) :
      Elsewhere images codec faulty workerId (l, w)
        (l ++ [⟨claimed, processWithLeaseRenewal claimed budget⟩], { w with system := s })

/-- A step of the site: of the process, of anybody else, or of the shutdown channel. -/
inductive Site.Step (images : ImageService) (codec : JpegCodec) (faulty : Bool)
    (config : WorkerConfig) (site : Site) : Site → Prop
  | acts (site' : Site) (act : WorkerProcess.Acts config faulty site site') :
      Step images codec faulty config site site'
  | elsewhere (members : List Member) (w : World)
      (others : Elsewhere images codec faulty config.id (site.members, site.world) (members, w)) :
      Step images codec faulty config site { site with members, world := w }
  | signal (shutdown : Bool) : Step images codec faulty config site
      { site with process := { site.process with shutdown } }

/-- A process that begins. -/
def Site.initial (w : World) (shutdown : Bool) : Site := ⟨⟨.registering, shutdown, []⟩, [], w⟩

/-! ### Its recovery -/

section Recovery

variable (images : ImageService) (codec : JpegCodec) (faulty : Bool) (config : WorkerConfig)

def Site.Path : Site → Site → Prop := Relation.ReflTransGen (Site.Step images codec faulty config)

variable {images codec faulty config} {start site : Site} {phase : LoopPhase} {w w' : World}

/-- The site in another phase and another world. -/
def Site.move (site : Site) (phase : LoopPhase) (w : World) : Site :=
  { site with world := w }.enter phase

/-- A call that is not a claim may be made beside the process. -/
theorem Site.Path.call (h : Site.Path images codec faulty config start (site.move phase w))
    {op : Op}
    {s : System} (hclaim : op.claim = none)
    (hother : ∀ claimToken locked, op ≠ .claimNext config.id claimToken locked)
    (hstep : w.system.step op = some s) :
    Site.Path images codec faulty config start (site.move phase { w with system := s }) :=
  Relation.ReflTransGen.tail h
    (.elsewhere site.members { w with system := s } (.call _ w op s hclaim hother hstep))

theorem Site.Path.pass (h : Site.Path images codec faulty config start (site.move phase w))
    (hpass : Passing w w') :
    Site.Path images codec faulty config start (site.move phase w') := by
  induction hpass with
  | refl => exact h
  | tail _ hlast ih =>
    cases hlast with
    | tick now later dated => exact ih.call rfl (fun _ _ hop => by cases hop) (tick_step later)

/-- `database_now` and the reclaim after it are one step of the process. -/
theorem Site.Path.reclaimNext
    (h : Site.Path images codec faulty config start (site.move .reclaiming w)) :
    Carries faulty (fun r w' => Site.Path images codec faulty config start
      (site.move (loopNext reclaimNext r) w')) reclaimNextExpiredAttempt.run w := by
  have hcall : ∀ {w₁ w₂ : World} {r : Except RepositoryError (Option ReclaimedAttempt)},
      Site.Path images codec faulty config start (site.move .reclaiming w₁) →
      Clocked (fun asOf => .reclaim asOf []) (fun asOf => reclaimNextExpiredAttemptAt asOf [])
        w₁ r w₂ →
      Site.Path images codec faulty config start
        (site.move (loopNext TaskHarbor.reclaimNext r) w₂) :=
    fun hpath hclocked => Relation.ReflTransGen.tail hpath (.acts _ (.reclaimed rfl hclocked))
  refine meets_except_bind Passing.refl (carries_perform (q := .databaseNow)
    fun w₁ hw₁ r w₂ hr w₃ hw₃ => ?_)
  have hread : Site.Path images codec faulty config start (site.move .reclaiming w₂) := by
    have hbefore := h.pass hw₁
    cases hr with
    | broken message => exact hbefore
    | answered s step => exact hbefore.call rfl (fun _ _ hop => by cases hop) step
    | unheard s message step => exact hbefore.call rfl (fun _ _ hop => by cases hop) step
  rcases r with e | asOf
  · intro w₄ hw₄
    obtain ⟨message, rfl⟩ : ∃ message, e = .database message := by
      cases hr with
      | broken message => exact ⟨message, rfl⟩
      | unheard s message step => exact ⟨message, rfl⟩
    exact ((hcall hread (.unread message)).pass hw₃).pass hw₄
  · refine carries_perform (q := .reclaimNextExpiredAttemptAt asOf) fun w₄ hw₄ r w₅ hr w₆ hw₆ => ?_
    exact (hcall ((hread.pass hw₃).pass hw₄) (.called asOf r w₅ hr)).pass hw₆

/-- The removal is the next step, whatever comes of it. -/
theorem Site.Path.clean {answer : ReclaimedAttempt}
    (h : Site.Path images codec faulty config start (site.move (.cleaning answer) w)) :
    Carries faulty (fun r w' => (∃ removal, r = .ok removal) ∧
        Site.Path images codec faulty config start (site.move .reclaiming w'))
      (ExceptT.lift (.perform (RecoveryRequest.removeTree
        (attemptOutputPrefix answer.jobId.get answer.attemptId))) :
        Recovery (Except StorageError Unit)).run w := by
  refine meets_bind Passing.refl (carries_perform (q := .removeTree _)
    fun w₁ hw₁ r w₂ hr w₃ hw₃ => meets_done fun w₄ hw₄ => ?_)
  obtain ⟨st, hremoval, rfl⟩ := hr
  have hcleaned : Site.Path images codec faulty config start
      (site.move .reclaiming { w₁ with storage := st }) :=
    Relation.ReflTransGen.tail (h.pass hw₁) (.acts _ (.cleaned rfl hremoval))
  exact ⟨⟨r, rfl⟩, (hcleaned.pass hw₃).pass hw₄⟩

/-- `reclaim_expired_attempts`, by induction on its fuel: one call of the loop after the other is
one phase of the process after the other. -/
theorem Site.Path.reclaim (fuel : ℕ)
    (h : Site.Path images codec faulty config start (site.move .reclaiming w)) :
    Carries faulty (fun r w' => r ≠ .ok none → Site.Path images codec faulty config start
        (site.move (loopNext (fun _ => .materializing) r) w'))
      (reclaimExpiredAttempts fuel).run w := by
  induction fuel generalizing w with
  | zero => exact meets_done fun w₁ _ hne => absurd rfl hne
  | succ fuel ih =>
    refine meets_except_bind Passing.refl (h.reclaimNext.consequence fun r w₁ hpath => ?_)
    rcases r with e | _ | answer
    · exact fun w₂ hw₂ _ => hpath.pass hw₂
    · exact meets_done fun w₂ hw₂ _ => hpath.pass hw₂
    · refine meets_except_bind Passing.refl (hpath.clean.consequence ?_)
      rintro _ w₂ ⟨⟨removal, rfl⟩, hpath⟩
      refine meets_except_bind Passing.refl ((ih hpath).consequence fun r w₃ hpath => ?_)
      rcases r with e | _ | answers
      · exact fun w₄ hw₄ _ => (hpath (by simp)).pass hw₄
      · exact meets_done fun w₄ hw₄ hne => absurd rfl hne
      · exact meets_done fun w₄ hw₄ _ => (hpath (by simp)).pass hw₄

/-- What `reclaim_expired_attempts` does call by call, the process does phase by phase. -/
theorem reclaimExpiredAttempts_phases (hphase : site.process.phase = .reclaiming) {fuel : ℕ}
    {r : Except RepositoryError (Option (List ReclaimedAttempt))} (hr : r ≠ .ok none)
    (hrun : Relation.ReflTransGen (Step Passing (Recovers faulty))
      ((reclaimExpiredAttempts fuel).run, site.world) (.done r, w)) :
    Site.Path images codec faulty config site
      (site.move (loopNext (fun _ => .materializing) r) w) := by
  have hbegin : site.move .reclaiming site.world = site := by
    obtain ⟨⟨phase, shutdown, tasks⟩, members, world⟩ := site
    obtain rfl : phase = .reclaiming := hphase
    rfl
  have hpath : Site.Path images codec faulty config site (site.move .reclaiming site.world) := by
    rw [hbegin]
    exact .refl
  exact (hpath.reclaim fuel).result Passing.refl Passing.trans hrun hr

end Recovery

end TaskHarbor
