import TaskHarbor.Worker.Loop

/-! The capacity of a worker. A task leaves the `JoinSet` of the loop with `Ok` only when nothing of
its attempt is left to do, and the loop claims only while there is room, so the worker never works
on more attempts than its limit; after an `Ok` only tasks that the grace period cut off are left. -/
namespace TaskHarbor

open Interleaving Relational Transaction Runs

/-- The attempts that the worker works on: the lease is not over and nobody asked for a cancel. -/
def System.working (s : System) (workerId : Uuid) : List AttemptRow :=
  s.db.jobAttempts.rows.filter fun a =>
    a.workerId == some workerId && a.state == .running && a.leaseAfter s.now &&
      (s.db.jobs.get? a.jobId).any fun r => r.state == .running

/-- The world moves without a claim of the worker. -/
def Quietly (workerId : Uuid) (w w' : World) : Prop :=
  w'.system = w.system ∨ ∃ op, (∀ claimToken locked, op ≠ .claimNext workerId claimToken locked) ∧
    w.system.step op = some w'.system

/-! ### What a step leaves to do -/

section Working

variable {s t : System} {op : Op} {a b : AttemptRow} {workerId : Uuid} {w w' : World}

theorem mem_working : a ∈ s.working workerId ↔ a ∈ s.db.jobAttempts ∧ a.workerId = some workerId ∧
    a.state = .running ∧ a.leaseAfter s.now = true ∧
      ∃ r, s.db.jobs.get? a.jobId = some r ∧ r.state = .running := by
  unfold System.working
  rw [List.mem_filter, Bool.and_eq_true, Bool.and_eq_true, Bool.and_eq_true, beq_iff_eq, beq_iff_eq,
    Option.any_eq_true, and_assoc, and_assoc]
  simp only [beq_iff_eq]
  rfl

theorem working_nodup (s : System) (workerId : Uuid) :
    ((s.working workerId).map AttemptRow.id).Nodup :=
  s.db.jobAttempts.nodup.sublist (List.filter_sublist.map AttemptRow.id)

/-- What the worker works on after a step it worked on before, if it was there. -/
theorem System.working_old (hs : s.Reachable) (hstep : s.step op = some t)
    (ha : a ∈ t.working workerId) (hb : b ∈ s.db.jobAttempts) (hid : b.id = a.id) :
    b ∈ s.working workerId := by
  obtain ⟨hmem, howner, hrunning, hlease, r', hr', hstate'⟩ := mem_working.mp ha
  have hturns := (System.step_db hs.inv hstep).turns b.jobId
  have hview : b ∈ (s.db.view b.jobId).attempts := mem_attemptsOf.mpr ⟨hb, rfl⟩
  obtain ⟨a', ha', hbecomes⟩ := hturns.keeps.attempts b hview
  have hid' : a'.id = b.id := (congrArg AttemptRow.id hbecomes.template :)
  obtain rfl : a' = a := Table.key_inj (mem_attemptsOf.mp ha').1 hmem (hid'.trans hid)
  have hjob : a'.jobId = b.jobId := (congrArg AttemptRow.jobId hbecomes.template :)
  have hworker : a'.workerId = b.workerId := (congrArg AttemptRow.workerId hbecomes.template :)
  have halive : ¬b.Dead s.now := by
    intro hdead
    rcases hbecomes.dead hdead (System.step_now hstep) with hclosed | hover
    · exact hclosed hrunning
    · rw [hlease] at hover
      cases hover
  have hb_running : b.state = .running := by
    by_contra hne
    exact halive (Or.inl hne)
  have hb_lease : b.leaseAfter s.now = true := by
    by_contra hne
    exact halive (Or.inr (by simpa using hne))
  obtain ⟨r, hr⟩ : ∃ r, s.db.jobs.get? b.jobId = some r := by
    rw [← Option.isSome_iff_exists, ← Option.ne_none_iff_isSome]
    intro hnone
    rw [((hs.inv.db.lifecycle b.jobId).absent hnone).1] at hview
    cases hview
  have hactive : r.state.isActive = true := by
    obtain ⟨l₁, l₂, hsplit⟩ := List.append_of_mem hview
    exact (((hs.inv.db.lifecycle b.jobId).course r hr).admits.split hsplit hb_running).1
  have hnot : r.state.isCancelling = false := by
    by_contra hcancelling
    obtain ⟨r₁, hr₁, hc⟩ := hturns.cancelling hr (by simpa using hcancelling)
    rw [hjob] at hr'
    obtain rfl : r₁ = r' := Option.some.inj (hr₁.symm.trans hr')
    rw [hstate'] at hc
    cases hc
  refine mem_working.mpr ⟨hb, hworker.symm.trans howner, hb_running, hb_lease, r, hr, ?_⟩
  cases hstate : r.state <;> simp_all [JobStatus.isActive, JobStatus.isCancelling]

/-- Only a claim of the worker gives it more to do. -/
theorem System.working_step (hs : s.Reachable) (hstep : s.step op = some t)
    (hop : ∀ claimToken locked, op ≠ .claimNext workerId claimToken locked)
    (ha : a ∈ t.working workerId) : ∃ b ∈ s.working workerId, b.id = a.id := by
  obtain ⟨hmem, howner, -⟩ := mem_working.mp ha
  cases System.step_grants hstep hmem with
  | continued b hb continues =>
    have hid := continues.id.symm
    exact ⟨b, System.working_old hs hstep ha hb hid, hid⟩
  | leased w₀ active owner lease source =>
    obtain rfl : w₀.id = workerId := Option.some.inj (owner.symm.trans howner)
    rcases source with ⟨b, hb, hid⟩ | ⟨claimToken, locked, hclaim⟩
    · exact ⟨b, System.working_old hs hstep ha hb hid, hid⟩
    · exact absurd hclaim (hop claimToken locked)

theorem Quietly.working (h : Quietly workerId w w') (hw : w.system.Reachable)
    (ha : a ∈ w'.system.working workerId) : ∃ b ∈ w.system.working workerId, b.id = a.id := by
  rcases h with hsame | ⟨op, hop, hstep⟩
  · rw [hsame] at ha
    exact ⟨a, ha, rfl⟩
  · exact System.working_step hw hstep hop ha

theorem mem_addAttempt {db : Db} {mk : ℕ → AttemptRow} {hk} :
    a ∈ (db.addAttempt mk hk).jobAttempts ↔ a ∈ db.jobAttempts ∨ a = mk db.jobAttempts.next :=
  @Table.mem_insertNew _ _ db.jobAttempts mk hk a

/-- The attempt of a returned claim. -/
def claimedIds : Except RepositoryError (Option ClaimedJob) → List ℕ
  | .ok (some claimed) => [claimed.attemptId]
  | _ => []

theorem claimedIds_length (r : Except RepositoryError (Option ClaimedJob)) :
    (claimedIds r).length ≤ 1 := by
  rcases r with e | _ | claimed <;> simp [claimedIds]

/-- A claim of the worker gives it at most the attempt of the returned claim. -/
theorem System.working_claim {claimToken : Uuid} {locked : List ℕ} (hs : s.Reachable)
    (hstep : s.step (.claimNext workerId claimToken locked) = some t)
    (ha : a ∈ t.working workerId) : (∃ b ∈ s.working workerId, b.id = a.id) ∨
      a.id ∈ claimedIds (claimNext workerId none s.now claimToken locked s.db).1 := by
  have hmem := (mem_working.mp ha).1
  have hrows : t.db = (claimNext workerId none s.now claimToken locked s.db).2 := by
    obtain ⟨-, rfl⟩ := System.step_eq_some.mp hstep
    rfl
  rw [hrows] at hmem
  unfold claimNext at hmem ⊢
  rcases commit_cases (claimNextWithTime workerId none s.now claimToken locked) s.db with
    ⟨result, db', htx, hc⟩ | ⟨e, -, hc⟩
  · rw [hc] at hmem ⊢
    rcases claimNextWithTime_ok htx with
      ⟨-, rfl, -⟩ | ⟨candidate, worker, claimed, rfl, hclaims⟩
    · exact Or.inl ⟨a, System.working_old hs hstep ha hmem rfl, rfl⟩
    · rw [hclaims.written] at hmem
      rcases mem_addAttempt.mp hmem with hold | hnew
      · exact Or.inl ⟨a, System.working_old hs hstep ha hold rfl, rfl⟩
      · right
        rw [hnew]
        exact List.mem_singleton.mpr hclaims.attemptId.symm
  · rw [hc] at hmem
    exact Or.inl ⟨a, System.working_old hs hstep ha hmem rfl, rfl⟩

/-- Nothing is left to do for a concluded claim. -/
theorem Concluded.not_working {claimed : ClaimedJob} (h : Concluded claimed w)
    (ha : a ∈ w.system.working workerId) : a.id ≠ claimed.attemptId := by
  intro hid
  obtain ⟨hmem, -, hrunning, hlease, r, hr, hstate⟩ := mem_working.mp ha
  have hget : w.system.db.jobAttempts.get? claimed.attemptId = some a := by
    rw [← hid]
    exact Table.get?_key hmem
  rcases h.ended with hlost | ⟨-, -, r', hr', hcancelling⟩
  · rcases hlost a hget with hclosed | hover
    · exact hclosed hrunning
    · rw [hlease] at hover
      cases hover
  · obtain ⟨b, hb, hjob, -⟩ := h.held.issued.attempt
    obtain rfl : a = b := Option.some.inj (hget.symm.trans hb)
    rw [hjob] at hr
    obtain rfl : r = r' := Option.some.inj (hr.symm.trans hr')
    rw [hstate] at hcancelling
    cases hcancelling

end Working

/-! ### What holds of the process -/

/-- How the attempts that the worker may still work on, `held`, are known: while the loop goes on or
drains they are those of the tasks, and an `Ok` tells their number afterwards. -/
def LoopPhase.Knows (tasks held : List ℕ) : LoopPhase → Prop
  | .draining looped | .keeping looped => looped = .ok () → held = tasks
  | .aborting looped abandoned => looped = .ok () → held.length = abandoned
  | .stopping looped drained abandoned =>
      looped = .ok () → drained = .ok () → held.length = abandoned
  | .ended answer abandoned => answer = .ok () → held.length = abandoned
  | _ => held = tasks

/-- The phases that assert nothing of their own. -/
def LoopPhase.Plain : LoopPhase → Prop
  | .calling | .cleaning _ | .ended (.ok _) _ => False
  | _ => True

/-- What holds of the process and its world. -/
structure Site.Sound (config : WorkerConfig) (site : Site) : Prop where
  capacity : site.process.tasks.length ≤ config.concurrencyLimit
  room : site.process.phase = .calling → site.process.tasks.length < config.concurrencyLimit
  held : ∃ held : List ℕ, held.length ≤ config.concurrencyLimit ∧
    (∀ a ∈ site.world.system.working config.id, a.id ∈ held) ∧
    site.process.phase.Knows site.process.tasks held
  given : ∀ reclaimed, site.process.phase = .cleaning reclaimed → ∃ a : AttemptRow,
    site.world.system.db.jobAttempts.get? a.id = some a ∧ a.id = reclaimed.attemptId ∧
      a.jobId = reclaimed.jobId.get ∧ a.GivenUp
  stopped : ∀ abandoned, site.process.phase = .ended (.ok ()) abandoned →
    ∃ row ∈ site.world.system.db.workers, row.id = config.id ∧ row.stoppedAt ≠ none

section Process

variable {config : WorkerConfig} {site : Site} {w : World} {before phase : LoopPhase}
  {tasks held : List ℕ}

theorem loopNext_knows {α : Type} {next : α → LoopPhase} {r : Except RepositoryError α}
    (h : ∀ a, (next a).Knows tasks held) : (loopNext next r).Knows tasks held := by
  cases r with
  | ok a => exact h a
  | error e =>
    intro hok
    cases hok

theorem loopNext_plain {α : Type} {next : α → LoopPhase} {r : Except RepositoryError α}
    (h : ∀ a, (next a).Plain) : (loopNext next r).Plain := by
  cases r with
  | ok a => exact h a
  | error e => trivial

theorem LoopPhase.Plain.sides (h : phase.Plain) : phase ≠ .calling ∧
    (∀ reclaimed, phase ≠ .cleaning reclaimed) ∧
      ∀ abandoned, phase ≠ .ended (.ok ()) abandoned := by
  refine ⟨?_, fun reclaimed => ?_, fun abandoned => ?_⟩
  all_goals
    rintro rfl
    exact h

/-- The world moves quietly. -/
theorem Site.Sound.world (h : site.Sound config) (hs : site.world.system.Reachable)
    (hquiet : Quietly config.id site.world w) : Site.Sound config { site with world := w } := by
  obtain ⟨held, hlength, hheld, hknows⟩ := h.held
  refine ⟨h.capacity, h.room, ⟨held, hlength, fun a ha => ?_, hknows⟩, fun reclaimed hphase => ?_,
    fun abandoned hphase => ?_⟩
  · obtain ⟨b, hb, hid⟩ := hquiet.working hs ha
    rw [← hid]
    exact hheld b hb
  · obtain ⟨a, ha, hid, hjob, hgiven⟩ := h.given reclaimed hphase
    refine ⟨a, ?_, hid, hjob, hgiven⟩
    rcases hquiet with hsame | ⟨op, -, hstep⟩
    · exact hsame ▸ ha
    · exact closed_step hs.inv hstep ha hgiven.closed.1
  · obtain ⟨row, hrow, hid, hstopped⟩ := h.stopped abandoned hphase
    obtain ⟨x, hx⟩ := Option.ne_none_iff_exists'.mp hstopped
    refine ⟨row, ?_, hid, hstopped⟩
    rcases hquiet with hsame | ⟨op, -, hstep⟩
    · exact hsame ▸ hrow
    · exact (System.step_stopped hstep hrow hx).1

theorem Site.Sound.of_plain (hplain : site.process.phase.Plain)
    (hcapacity : site.process.tasks.length ≤ config.concurrencyLimit)
    (hheld : ∃ held : List ℕ, held.length ≤ config.concurrencyLimit ∧
      (∀ a ∈ site.world.system.working config.id, a.id ∈ held) ∧
      site.process.phase.Knows site.process.tasks held) : site.Sound config := by
  obtain ⟨hcalling, hcleaning, hended⟩ := hplain.sides
  exact ⟨hcapacity, fun heq => absurd heq hcalling, hheld,
    fun reclaimed heq => absurd heq (hcleaning reclaimed),
    fun abandoned heq => absurd heq (hended abandoned)⟩

/-- What the worker may still work on, in the phase that the process is in. -/
theorem Site.Sound.holds (h : site.Sound config) (hat : site.process.phase = before) :
    ∃ held : List ℕ, held.length ≤ config.concurrencyLimit ∧
      (∀ a ∈ site.world.system.working config.id, a.id ∈ held) ∧
      before.Knows site.process.tasks held := by
  obtain ⟨held, hlength, hheld, hknows⟩ := h.held
  rw [hat] at hknows
  exact ⟨held, hlength, hheld, hknows⟩

/-- The process enters a phase that asserts nothing of its own. -/
theorem Site.Sound.enter (h : site.Sound config) (hat : site.process.phase = before)
    (hplain : phase.Plain) (hknows : ∀ held, before.Knows site.process.tasks held →
      phase.Knows site.process.tasks held) : (site.enter phase).Sound config := by
  obtain ⟨held, hlength, hheld, hphase⟩ := h.holds hat
  exact .of_plain hplain h.capacity ⟨held, hlength, hheld, hknows held hphase⟩

/-- The loop goes on with the answer of a call, or drains with its error. -/
theorem Site.Sound.next {α : Type} {next : α → LoopPhase} {r : Except RepositoryError α}
    (h : site.Sound config) (hat : site.process.phase = before) (hplain : ∀ a, (next a).Plain)
    (hknows : ∀ a held, before.Knows site.process.tasks held →
      (next a).Knows site.process.tasks held) : (site.enter (loopNext next r)).Sound config :=
  h.enter hat (loopNext_plain hplain) fun held hbefore =>
    loopNext_knows fun a => hknows a held hbefore

/-- A task leaves the `JoinSet`. With an `Ok` nothing is left of its attempt. -/
theorem Site.Sound.join (h : site.Sound config) (hat : site.process.phase = before) {m : Member}
    {r : Except RepositoryError Unit} (hplain : phase.Plain)
    (hknows : ∀ held, before.Knows site.process.tasks held →
      phase.Knows (site.process.tasks.erase m.claimed.attemptId) held ∨
        r = .ok () ∧ phase.Knows (site.process.tasks.erase m.claimed.attemptId)
          (held.erase m.claimed.attemptId))
    (hconcluded : r = .ok () → Concluded m.claimed site.world) :
    ((site.join m.claimed.attemptId).enter phase).Sound config := by
  obtain ⟨held, hlength, hheld, hphase⟩ := h.holds hat
  refine .of_plain hplain ((List.length_erase_le).trans h.capacity) ?_
  rcases hknows held hphase with hsame | ⟨hok, hless⟩
  · exact ⟨held, hlength, hheld, hsame⟩
  · refine ⟨held.erase m.claimed.attemptId, (List.length_erase_le).trans hlength, ?_, hless⟩
    intro a ha
    exact (List.mem_erase_of_ne ((hconcluded hok).not_working ha)).mpr (hheld a ha)

/-- The files of a reclaimed attempt are removed next. -/
theorem Site.Sound.clean (h : site.Sound config) (hat : site.process.phase = .reclaiming)
    {answer : ReclaimedAttempt} (hgiven : ∃ a : AttemptRow,
      site.world.system.db.jobAttempts.get? a.id = some a ∧ a.id = answer.attemptId ∧
        a.jobId = answer.jobId.get ∧ a.GivenUp) : (site.enter (.cleaning answer)).Sound config := by
  obtain ⟨held, hlength, hheld, hknows⟩ := h.holds hat
  refine ⟨h.capacity, fun heq => (by cases heq), ⟨held, hlength, hheld, hknows⟩, ?_,
    fun _ heq => (by cases heq)⟩
  rintro reclaimed heq
  cases heq
  exact hgiven

/-- The worker is stopped, and nothing has failed. -/
theorem Site.Sound.finish (h : site.Sound config) {abandoned : ℕ}
    (hat : site.process.phase = .stopping (.ok ()) (.ok ()) abandoned)
    (hstopped : ∃ row ∈ site.world.system.db.workers, row.id = config.id ∧ row.stoppedAt ≠ none) :
    (site.enter (.ended (.ok ()) abandoned)).Sound config := by
  obtain ⟨held, hlength, hheld, hknows⟩ := h.holds hat
  exact ⟨h.capacity, fun heq => (by cases heq), ⟨held, hlength, hheld, fun _ => hknows rfl rfl⟩,
    fun _ heq => (by cases heq), fun _ _ => hstopped⟩

end Process

/-! ### The calls of the process -/

section Calls

variable {α : Type} {x : Session α} {op : Op} {workerId : Uuid} {db db' : Db} {w w' : World}
  {images : ImageService} {codec : JpegCodec} {faulty : Bool} {members : List Member}

theorem Commits.ok {a : α} (h : Commits op x w (.ok a) w') :
    w'.storage = w.storage ∧ w.system.step op = some w'.system ∧ (x w.system.db).1 = .ok a := by
  generalize hr : (.ok a : Except RepositoryError α) = r at h
  cases h with
  | answered s step => exact ⟨rfl, step, rfl⟩
  | broken message => cases hr
  | unheard s message step => cases hr

theorem Commits.quietly {r : Except RepositoryError α} (h : Commits op x w r w')
    (hop : ∀ claimToken locked, op ≠ .claimNext workerId claimToken locked) :
    Quietly workerId w w' :=
  h.cases.2.imp_right fun hstep => ⟨op, hop, hstep⟩

theorem Clocked.quietly {ops : ℤ → Op} {xs : ℤ → Session α} {r : Except RepositoryError α}
    (h : Clocked ops xs w r w')
    (hop : ∀ asOf claimToken locked, ops asOf ≠ .claimNext workerId claimToken locked) :
    Quietly workerId w w' := by
  cases h with
  | unread message => exact Or.inl rfl
  | called asOf r w' call => exact call.quietly (hop asOf)

/-- A call about no claim is a step of the rest. -/
theorem Commits.rest {r : Except RepositoryError α} (h : Commits op x w r w')
    (hop : op.claim = none) :
    Relation.ReflTransGen (Fleet images codec faulty) (members, w) (members, w') := by
  obtain ⟨hstorage, hsystem⟩ := h.cases
  obtain ⟨system, storage⟩ := w
  obtain ⟨system', storage'⟩ := w'
  obtain rfl : storage' = storage := hstorage
  rcases hsystem with hsame | hstep
  · obtain rfl : system' = system := hsame
    exact .refl
  · exact .single (.env members (.system op system' hop hstep))

theorem Clocked.rest {ops : ℤ → Op} {xs : ℤ → Session α} {r : Except RepositoryError α}
    (h : Clocked ops xs w r w') (hop : ∀ asOf, (ops asOf).claim = none) :
    Relation.ReflTransGen (Fleet images codec faulty) (members, w) (members, w') := by
  cases h with
  | unread message => exact .refl
  | called asOf r w' call => exact call.rest (hop asOf)

/-- The attempt of an answered reclaim is given up. -/
theorem reclaim_given {asOf : ℤ} {locked : List ℕ} {answer : ReclaimedAttempt}
    (h : reclaimNextExpiredAttemptAt asOf locked db = (.ok (some answer), db')) :
    ∃ a : AttemptRow, db'.jobAttempts.get? a.id = some a ∧ a.id = answer.attemptId ∧
      a.jobId = answer.jobId.get ∧ a.GivenUp := by
  obtain ⟨result, db₁, hcommit, h⟩ := Session.bind_ok.mp h
  rcases reclaimTx_ok (commit_eq_ok.mp hcommit) with
    ⟨rfl, -⟩ | ⟨a, r, r', w, d, ms, rfl, hcand, -, -, -, -, -, rfl⟩
  · cases h
  · obtain ⟨jobId, db₂, hdecode, h⟩ := Session.bind_ok.mp h
    rw [Session.liftExcept_run, Prod.mk.injEq] at hdecode
    obtain ⟨hdecode, rfl⟩ := hdecode
    have hjob := decodeJobId_ok.mp hdecode
    cases h
    obtain ⟨hget, -⟩ := expiredCandidate_spec hcand
    have hid := expired_id r.state (bindTimestamp asOf) ms a
    refine ⟨a.expired r.state (bindTimestamp asOf) ms, ?_, hid, ?_, ?_⟩
    · rw [hid]
      exact Table.get?_put_self (t := db.jobAttempts) hget hid
    · unfold AttemptRow.expired
      split <;> exact hjob.symm
    · unfold AttemptRow.expired
      split
      · exact Or.inr rfl
      · exact Or.inl rfl

/-- After an answered stop the worker is stopped. -/
theorem stopWorker_stops {now : ℤ} {u : Unit} (h : stopWorker workerId now db = (.ok u, db')) :
    ∃ row ∈ db'.workers, row.id = workerId ∧ row.stoppedAt ≠ none := by
  obtain ⟨db₀, _, hget, h⟩ := Tx.bind_ok.mp (commit_eq_ok.mp h)
  cases hget
  split at h
  · cases h
  · simp only [updateWorkers, Tx.bind_ok, lift_ok, ensureOneRow_ok, Except.ok.injEq,
      Prod.mk.injEq] at h
    obtain ⟨n, _, ⟨rfl, rfl⟩, hone, rfl⟩ := h
    have hkey : ∀ w : WorkerRow, (w.id == workerId) = true → Keyed.key w = workerId :=
      fun _ h => beq_iff_eq.mp h
    obtain ⟨row, hrow, hid⟩ := (Table.count_eq_one_iff hkey).mp hone
    have hmem := (@Table.mem_update _ _ db.workers (fun w => w.id == workerId)
      (fun w => { w with stoppedAt := some (w.stoppedAt.getD now) }) (by intro r; rfl) _).mpr
        ⟨row, Table.mem_of_get? hrow, rfl⟩
    rw [if_pos hid] at hmem
    exact ⟨_, hmem, beq_iff_eq.mp hid, Option.some_ne_none _⟩

theorem Clocked.given {locked : List ℕ} {answer : ReclaimedAttempt}
    (h : Clocked (fun asOf => .reclaim asOf locked)
      (fun asOf => reclaimNextExpiredAttemptAt asOf locked) w (.ok (some answer)) w') :
    ∃ a : AttemptRow, w'.system.db.jobAttempts.get? a.id = some a ∧ a.id = answer.attemptId ∧
      a.jobId = answer.jobId.get ∧ a.GivenUp := by
  generalize hr : (.ok (some answer) : Except RepositoryError (Option ReclaimedAttempt)) = r at h
  cases h with
  | unread message => cases hr
  | called asOf r w' call =>
    subst hr
    obtain ⟨-, hstep, hanswer⟩ := call.ok
    obtain ⟨-, hsystem⟩ := System.step_eq_some.mp hstep
    rw [hsystem]
    exact reclaim_given (Prod.ext hanswer rfl)

theorem Commits.stops {u : Unit} (h : Commits (.stopWorker workerId)
      (stopWorker workerId w.system.now) w (.ok u) w') :
    ∃ row ∈ w'.system.db.workers, row.id = workerId ∧ row.stoppedAt ≠ none := by
  obtain ⟨-, hstep, hanswer⟩ := h.ok
  obtain ⟨-, hsystem⟩ := System.step_eq_some.mp hstep
  rw [hsystem]
  exact stopWorker_stops (Prod.ext hanswer rfl)

end Calls

/-! ### Steps of the process -/

section Steps

variable {images : ImageService} {codec : JpegCodec} {faulty : Bool} {config : WorkerConfig}
  {site site' : Site} {w w' : World}

/-- A call of `claim_next` adds at most one attempt, and the caller learns which one unless the call
fails. -/
theorem Commits.claimed {claimToken : Uuid} {locked held : List ℕ}
    {r : Except RepositoryError (Option ClaimedJob)} (hw : w.system.Reachable)
    (h : Commits (.claimNext config.id claimToken locked)
      (claimNext config.id none w.system.now claimToken locked) w r w')
    (hheld : ∀ a ∈ w.system.working config.id, a.id ∈ held) :
    ∃ extra, (∀ a ∈ w'.system.working config.id, a.id ∈ held ++ extra) ∧ extra.length ≤ 1 ∧
      ((∃ e, r = .error e) ∨ extra = claimedIds r) := by
  have hcalled : ∀ s, w.system.step (.claimNext config.id claimToken locked) = some s →
      ∀ a ∈ s.working config.id, a.id ∈ held ++
        claimedIds (claimNext config.id none w.system.now claimToken locked w.system.db).1 := by
    intro s hstep a ha
    rcases System.working_claim hw hstep ha with ⟨b, hb, hid⟩ | hnew
    · rw [← hid]
      exact List.mem_append_left _ (hheld b hb)
    · exact List.mem_append_right _ hnew
  cases h with
  | answered s step => exact ⟨_, hcalled s step, claimedIds_length _, Or.inr rfl⟩
  | unheard s message step => exact ⟨_, hcalled s step, claimedIds_length _, Or.inl ⟨_, rfl⟩⟩
  | broken message =>
    refine ⟨[], fun a ha => ?_, Nat.zero_le 1, Or.inl ⟨_, rfl⟩⟩
    rw [List.append_nil]
    exact hheld a ha

/-- A step of the process keeps what holds of it. -/
theorem WorkerProcess.Acts.sound (h : WorkerProcess.Acts config faulty site site')
    (hsite : site.Sound config) (hs : site.world.system.Reachable)
    (hends : ∀ m ∈ site.members, m.Joined (.ok ()) → Concluded m.claimed site.world) :
    site'.Sound config := by
  cases h with
  | invalid e phase check => exact hsite.enter phase trivial fun held _ hok => by cases hok
  | @registered r w phase check call =>
    have hworld := hsite.world hs (call.quietly (by simp))
    rcases r with e | record
    · exact hworld.enter phase trivial fun held _ hok => by cases hok
    · exact hworld.enter phase trivial fun held hknows => hknows
  | opened phase => exact hsite.enter phase trivial fun held hknows => hknows
  | closed phase shutdown => exact hsite.enter phase trivial fun held hknows _ => hknows
  | continued phase shutdown => exact hsite.enter phase trivial fun held hknows => hknows
  | @reclaimed locked r w phase call =>
    have hworld := hsite.world hs (call.quietly (by simp))
    rcases r with e | _ | answer
    · exact hworld.enter phase trivial fun held _ hok => by cases hok
    · exact hworld.enter phase trivial fun held hknows => hknows
    · exact hworld.clean phase call.given
  | @cleaned reclaimed r st phase removal =>
    have hworld := hsite.world (w := { site.world with storage := st }) hs (Or.inl rfl)
    exact hworld.enter phase trivial fun held hknows => hknows
  | @materialized locked r w phase call =>
    refine (hsite.world hs (call.quietly (by simp))).next phase ?_ ?_
    · rintro (_ | tick) <;> trivial
    · rintro (_ | tick) held hknows <;> exact hknows
  | free phase room shutdown =>
    obtain ⟨held, hlength, hheld, hknows⟩ := hsite.holds phase
    exact ⟨hsite.capacity, fun _ => room, ⟨held, hlength, hheld, hknows⟩,
      fun reclaimed heq => (by cases heq), fun abandoned heq => (by cases heq)⟩
  | full phase full => exact hsite.enter phase trivial fun held hknows => hknows
  | @spawned claimToken locked claimed w phase call =>
    obtain ⟨held, hlength, hheld, hknows⟩ := hsite.holds phase
    obtain rfl : held = site.process.tasks := hknows
    have hroom := hsite.room phase
    obtain ⟨extra, hextra, -, ⟨e, he⟩ | rfl⟩ := call.claimed hs hheld
    · cases he
    · have hless : (site.process.tasks ++ [claimed.attemptId]).length ≤
          config.concurrencyLimit := by
        rw [List.length_append, List.length_singleton]
        omega
      exact .of_plain trivial hless ⟨_, hless, hextra, rfl⟩
  | @idle claimToken locked w phase call =>
    obtain ⟨held, hlength, hheld, hknows⟩ := hsite.holds phase
    obtain ⟨extra, hextra, -, ⟨e, he⟩ | rfl⟩ := call.claimed hs hheld
    · cases he
    · rw [show claimedIds (.ok none) = [] from rfl, List.append_nil] at hextra
      exact .of_plain trivial hsite.capacity ⟨held, hlength, hextra, hknows⟩
  | @unclaimed claimToken locked e w phase call =>
    obtain ⟨held, hlength, hheld, hknows⟩ := hsite.holds phase
    obtain rfl : held = site.process.tasks := hknows
    have hroom := hsite.room phase
    obtain ⟨extra, hextra, hone, -⟩ := call.claimed hs hheld
    refine .of_plain trivial hsite.capacity ⟨_, ?_, hextra, fun hok => by cases hok⟩
    rw [List.length_append]
    omega
  | signalled hungUp phase =>
    by_cases hclosed : (hungUp || site.process.shutdown) = true
    · rw [if_pos hclosed]
      exact hsite.enter phase trivial fun held hknows _ => hknows
    · rw [if_neg hclosed]
      exact hsite.enter phase trivial fun held hknows => hknows
  | @joined m r phase mem task ending =>
    rcases r with e | u
    · exact hsite.join (r := .error e) phase trivial (fun held _ => Or.inl fun hok => by cases hok)
        fun hok => by cases hok
    · refine hsite.join (r := .ok u) phase trivial (fun held hknows => Or.inr ⟨rfl, ?_⟩)
        fun _ => hends m mem ending
      rw [show held = site.process.tasks from hknows]
      rfl
  | ticked phase => exact hsite.enter phase trivial fun held hknows => hknows
  | @beat r w phase call =>
    have hworld := hsite.world hs (call.quietly (by simp))
    exact hworld.next phase (fun _ => trivial) fun _ held hknows => hknows
  | serviced phase => exact hsite.enter phase trivial fun held hknows => hknows
  | maintained phase => exact hsite.enter phase trivial fun held hknows => hknows
  | slept phase => exact hsite.enter phase trivial fun held hknows => hknows
  | @drained looped phase empty =>
    refine hsite.enter phase trivial fun held hknows hok _ => ?_
    rw [hknows hok, empty]
    rfl
  | @drainJoined looped r m phase mem task ending =>
    rcases r with e | u
    · exact hsite.join (r := .error e) phase trivial
        (fun held _ => Or.inl fun _ hok => by cases hok) fun hok => by cases hok
    · refine hsite.join (r := .ok u) phase trivial (fun held hknows => Or.inr ⟨rfl, fun hok => ?_⟩)
        fun _ => hends m mem ending
      rw [hknows hok]
  | drainTicked phase busy => exact hsite.enter phase trivial fun held hknows => hknows
  | @drainBeat looped r w phase call =>
    have hworld := hsite.world hs (call.quietly (by simp))
    rcases r with e | u
    · exact hworld.enter phase trivial fun held _ _ hok => by cases hok
    · exact hworld.enter phase trivial fun held hknows => hknows
  | @timedOut looped phase busy =>
    refine hsite.enter phase trivial fun held hknows hok => ?_
    rw [hknows hok]
  | @collected looped r abandoned m phase mem task ending =>
    have hsame : (site.join m.claimed.attemptId).enter (.aborting looped abandoned) =
        site.join m.claimed.attemptId := by
      rw [← phase]
      rfl
    rw [← hsame]
    refine hsite.join (r := r) phase trivial (fun held hknows => Or.inl hknows) ?_
    rintro rfl
    exact hends m mem ending
  | @panicked looped abandoned m message phase mem task ending =>
    exact hsite.join (r := .error (joinError message)) phase trivial
      (fun held _ => Or.inl fun _ hok => by cases hok) fun hok => by cases hok
  | @emptied looped abandoned phase empty =>
    exact hsite.enter phase trivial fun held hknows hok _ => hknows hok
  | @stopped looped drained r abandoned w phase call =>
    have hworld := hsite.world hs (call.quietly (by simp))
    rcases looped with e | u
    · exact hworld.enter phase trivial fun held _ hok => by cases hok
    rcases drained with e | u
    · exact hworld.enter phase trivial fun held _ hok => by cases hok
    rcases r with e | u
    · exact hworld.enter phase trivial fun held _ hok => by cases hok
    exact hworld.finish phase call.stops

/-- In the eyes of the tasks the process is a part of the rest. -/
theorem WorkerProcess.Acts.fleet (h : WorkerProcess.Acts config faulty site site')
    (hsite : site.Sound config) :
    Relation.ReflTransGen (Fleet images codec faulty) (site.members, site.world)
      (site'.members, site'.world) := by
  cases h with
  | registered phase check call => exact call.rest fun _ => rfl
  | reclaimed phase call => exact call.rest fun _ => rfl
  | materialized phase call => exact call.rest fun _ => rfl
  | idle phase call => exact call.rest rfl
  | unclaimed phase call => exact call.rest rfl
  | beat phase call => exact call.rest fun _ => rfl
  | drainBeat phase call => exact call.rest fun _ => rfl
  | stopped phase call => exact call.rest rfl
  | @cleaned reclaimed r st phase removal =>
    obtain ⟨a, ha, hid, hjob, hgiven⟩ := hsite.given reclaimed phase
    rw [← hid, ← hjob] at removal
    exact .single (.env _ (.storage st (removal.housekeeping ha hgiven)))
  | @spawned claimToken locked claimed w phase call =>
    obtain ⟨process, members, system, storage⟩ := site
    obtain ⟨system', storage'⟩ := w
    obtain ⟨hstorage, hstep, hanswer⟩ := call.ok
    obtain rfl : storage' = storage := hstorage
    exact .single (.birth members (.spawned claimed config.storageBudgetBytes system'
      ⟨config.id, claimToken, locked, hstep, hanswer⟩))
  | _ => exact .refl

theorem Elsewhere.fleet {workerId : Uuid} {c c' : List Member × World}
    (h : Elsewhere images codec faulty workerId c c') : Fleet images codec faulty c c' := by
  cases h with
  | acts l₁ l₂ m m' w w' act => exact .act l₁ l₂ m m' w w' act
  | call l w op s unclaimed other step => exact .env l (.system op s unclaimed step)
  | storage l w st keeping => exact .env l (.storage st keeping)
  | spawned l w claimed budget s claim other => exact .birth l (.spawned claimed budget s claim)

/-- The worker that claims is the owner of the claim. -/
theorem System.HandsOut.owner {s t : System} {claimed : ClaimedJob} (h : s.HandsOut claimed t) :
    ∃ claimToken locked, s.step (.claimNext claimed.workerId claimToken locked) = some t := by
  obtain ⟨workerId, claimToken, locked, hstep, hclaimed⟩ := h.step
  unfold claimNext at hclaimed
  rcases commit_cases (claimNextWithTime workerId none s.now claimToken locked) s.db with
    ⟨result, db', htx, hc⟩ | ⟨e, -, hc⟩
  · rw [hc] at hclaimed
    obtain rfl : result = some claimed := Except.ok.inj hclaimed
    rcases claimNextWithTime_ok htx with ⟨hnone, -⟩ | ⟨candidate, worker, issued, hsome, hclaims⟩
    · cases hnone
    · obtain rfl : claimed = issued := Option.some.inj hsome
      rw [hclaims.owner]
      exact ⟨claimToken, locked, hstep⟩
  · rw [hc] at hclaimed
    cases hclaimed

/-- The others move quietly. -/
theorem Elsewhere.quietly {workerId : Uuid} {c c' : List Member × World}
    (h : Elsewhere images codec faulty workerId c c')
    (hsound : ∀ m ∈ c.1, m.task.Sound images codec faulty m.claimed c.2) :
    Quietly workerId c.2 c'.2 := by
  cases h with
  | acts l₁ l₂ m m' w w' act =>
    have hparty := hsound m (List.mem_append_right _ List.mem_cons_self)
    cases hparty.effect act.2 with
    | files confined => exact Or.inl confined.system
    | call op claim storage step =>
      refine Or.inr ⟨op, ?_, step⟩
      rintro claimToken locked rfl
      cases claim
  | call l w op s unclaimed other step => exact Or.inr ⟨op, other, step⟩
  | storage l w st keeping => exact Or.inl rfl
  | spawned l w claimed budget s claim other =>
    obtain ⟨claimToken, locked, hstep⟩ := claim.owner
    refine Or.inr ⟨_, ?_, hstep⟩
    intro claimToken' locked' heq
    cases heq
    exact other rfl

/-- What holds of a site: its tasks are those of a fleet, and the process is sound. -/
theorem site_sound {now : ℤ} {st : Storage} {shutdown : Bool} (hcodec : codec.Marked)
    (hrun : Relation.ReflTransGen (Site.Step images codec faulty config)
      (.initial ⟨.initial now, st⟩ shutdown) site) :
    Relation.ReflTransGen (Fleet images codec faulty) ([], ⟨.initial now, st⟩)
      (site.members, site.world) ∧ site.Sound config := by
  have hstart : System.Reachable (.initial now) := ⟨now, .refl _⟩
  induction hrun with
  | refl =>
    refine ⟨.refl, .of_plain trivial (Nat.zero_le _) ⟨[], Nat.zero_le _, fun a ha => ?_, rfl⟩⟩
    exact absurd (mem_working.mp ha).1 (Table.not_mem_empty a)
  | tail _ hstep ih =>
    obtain ⟨hfleet, hsite⟩ := ih
    have hcomposed := fleet_sound hcodec (w := ⟨.initial now, st⟩) hstart hfleet
    cases hstep with
    | signal shutdown =>
      exact ⟨hfleet, hsite.capacity, hsite.room, hsite.held, hsite.given, hsite.stopped⟩
    | elsewhere members w others =>
      refine ⟨hfleet.tail others.fleet, ?_⟩
      have hmoved := hsite.world hcomposed.world (others.quietly hcomposed.parties)
      exact ⟨hmoved.capacity, hmoved.room, hmoved.held, hmoved.given, hmoved.stopped⟩
    | acts site' act =>
      refine ⟨hfleet.trans (act.fleet hsite),
        act.sound hsite hcomposed.world fun m hm hjoined => ?_⟩
      have hparty : m.task.Sound images codec faulty m.claimed _ := hcomposed.parties m hm
      generalize hr : (.ok () : Except RepositoryError Unit) = r at hjoined
      cases hjoined with
      | finished refused r task =>
        rw [task] at hparty
        rcases RenewingTask.Sound.answers hparty with ⟨message, herror⟩ | ⟨-, hconcluded⟩
        · rw [herror] at hr
          cases hr
        · exact hconcluded
      | broken refused message task => cases hr

end Steps

/-- A worker keeps its capacity. In every interleaving with the tasks of all workers, with clients
and with time, it never has more tasks than its limit and never works on more attempts than its
limit; when `run_with_config` answers `Ok` the worker is stopped, and it works on no more attempts
than the grace period has cut off. -/
theorem worker_keeps_capacity {images : ImageService} {codec : JpegCodec} {faulty : Bool}
    {config : WorkerConfig} {site : Site} {now : ℤ} {st : Storage} {shutdown : Bool}
    (hcodec : codec.Marked) (hrun : Relation.ReflTransGen (Site.Step images codec faulty config)
      (.initial ⟨.initial now, st⟩ shutdown) site) :
    site.process.tasks.length ≤ config.concurrencyLimit ∧
      (site.world.system.working config.id).length ≤ config.concurrencyLimit ∧
      ∀ abandoned, site.process.phase = .ended (.ok ()) abandoned →
        (∃ row ∈ site.world.system.db.workers, row.id = config.id ∧ row.stoppedAt ≠ none) ∧
        (site.world.system.working config.id).length ≤ abandoned := by
  obtain ⟨-, hsite⟩ := site_sound hcodec hrun
  obtain ⟨held, hlength, hheld, hknows⟩ := hsite.held
  have hworking : (site.world.system.working config.id).length ≤ held.length := by
    have hsubset : (site.world.system.working config.id).map AttemptRow.id ⊆ held := by
      intro id hid
      obtain ⟨a, ha, rfl⟩ := List.mem_map.mp hid
      exact hheld a ha
    rw [← List.length_map AttemptRow.id]
    exact (List.subperm_of_subset (working_nodup _ _) hsubset).length_le
  refine ⟨hsite.capacity, hworking.trans hlength, fun abandoned hended => ?_⟩
  rw [hended] at hknows
  refine ⟨hsite.stopped abandoned hended, ?_⟩
  rw [← hknows rfl]
  exact hworking

/-! ### A worker with one task -/

def sampleConfig : WorkerConfig where
  id := 7
  name := "worker"
  concurrencyLimit := 1
  leaseDuration := 60 * durationNanos
  leaseRenewalInterval := durationNanos
  heartbeatInterval := durationNanos
  heartbeatTtl := 60 * durationNanos
  shutdownGrace := durationNanos
  maintenanceInterval := durationNanos
  outputRetention := durationNanos
  orphanGrace := durationNanos
  storageBudgetBytes := 1

theorem Commits.answers {α : Type} {op : Op} {x : Session α} {w : World} {s : System}
    {r : Except RepositoryError α} (hanswer : (x w.system.db).1 = r)
    (hstep : w.system.step op = some s) : Commits op x w r { w with system := s } := by
  subst hanswer
  exact .answered s hstep

/-- The site of a process without tasks. -/
def Site.fresh (phase : LoopPhase) (s : System) : Site := ⟨⟨phase, false, []⟩, [], ⟨s, ⟨[], []⟩⟩⟩

section Sample

variable {s₁ s₂ s₃ s₄ s₅ : System} {claimed : ClaimedJob}

/-- A call of a client. -/
theorem client_step {op : Op} {phase : LoopPhase} (hclaim : op.claim = none)
    (hop : ∀ claimToken locked, op ≠ .claimNext sampleConfig.id claimToken locked)
    (h : s₁.step op = some s₂) : Site.Step squareImages squareCodec false sampleConfig
      (.fresh phase s₁) (.fresh phase s₂) :=
  .elsewhere [] _ (.call [] _ op s₂ hclaim hop h)

theorem registers_step {record : WorkerRecord}
    (hanswer : (registerWorkerRecord sampleConfig.registration 0 s₁.now s₁.db).1 = .ok record)
    (hstep : s₁.step (.registerWorker sampleConfig.registration 0) = some s₂) :
    Site.Step squareImages squareCodec false sampleConfig (.fresh .registering s₁)
      (.fresh .opening s₂) := by
  have hcall : Commits (.registerWorker sampleConfig.registration 0)
      (registerWorkerRecord sampleConfig.registration 0 s₁.now) ⟨s₁, ⟨[], []⟩⟩ (.ok record)
      ⟨s₂, ⟨[], []⟩⟩ := .answers hanswer hstep
  exact .acts _ (@WorkerProcess.Acts.registered sampleConfig false (.fresh .registering s₁) _ _ rfl
    (by decide) (.called 0 _ _ hcall))

theorem reclaims_step (hanswer : (reclaimNextExpiredAttemptAt 0 [] s₁.db).1 = .ok none)
    (hstep : s₁.step (.reclaim 0 []) = some s₂) :
    Site.Step squareImages squareCodec false sampleConfig (.fresh .reclaiming s₁)
      (.fresh .materializing s₂) := by
  have hcall : Commits (.reclaim 0 []) (reclaimNextExpiredAttemptAt 0 []) ⟨s₁, ⟨[], []⟩⟩
      (.ok none) ⟨s₂, ⟨[], []⟩⟩ := .answers hanswer hstep
  exact .acts _ (@WorkerProcess.Acts.reclaimed sampleConfig false (.fresh .reclaiming s₁) [] _ _ rfl
    (.called 0 _ _ hcall))

theorem materializes_step (hanswer : (materializeNextScheduleAt 0 [] s₁.now s₁.db).1 = .ok none)
    (hstep : s₁.step (.materialize 0 []) = some s₂) :
    Site.Step squareImages squareCodec false sampleConfig (.fresh .materializing s₁)
      (.fresh .claiming s₂) := by
  have hcall : Commits (.materialize 0 []) (materializeNextScheduleAt 0 [] s₁.now) ⟨s₁, ⟨[], []⟩⟩
      (.ok none) ⟨s₂, ⟨[], []⟩⟩ := .answers hanswer hstep
  exact .acts _ (@WorkerProcess.Acts.materialized sampleConfig false (.fresh .materializing s₁) []
    _ _ rfl (.called 0 _ _ hcall))

theorem spawns_step
    (hanswer : (claimNext sampleConfig.id none s₁.now 5 [] s₁.db).1 = .ok (some claimed))
    (hstep : s₁.step (.claimNext sampleConfig.id 5 []) = some s₂) :
    Site.Step squareImages squareCodec false sampleConfig (.fresh .calling s₁)
      ⟨⟨.claiming, false, [claimed.attemptId]⟩, [⟨claimed, processWithLeaseRenewal claimed 1⟩],
        ⟨s₂, ⟨[], []⟩⟩⟩ := by
  have hcall : Commits (.claimNext sampleConfig.id 5 [])
      (claimNext sampleConfig.id none s₁.now 5 []) ⟨s₁, ⟨[], []⟩⟩ (.ok (some claimed))
      ⟨s₂, ⟨[], []⟩⟩ := .answers hanswer hstep
  exact .acts _ (@WorkerProcess.Acts.spawned sampleConfig false (.fresh .calling s₁) 5 [] claimed _
    rfl hcall)

end Sample

/-- The process registers, finds nothing to reclaim and nothing due, and claims the only job. -/
theorem sample_spawned : ∃ (s : System) (claimed : ClaimedJob),
    (s.working sampleConfig.id).length = 1 ∧
    Relation.ReflTransGen (Site.Step squareImages squareCodec false sampleConfig)
      (.initial ⟨.initial 0, ⟨[], []⟩⟩ false)
      ⟨⟨.claiming, false, [claimed.attemptId]⟩, [⟨claimed, processWithLeaseRenewal claimed 1⟩],
        ⟨s, ⟨[], []⟩⟩⟩ := by
  have hrun : (exec System.step (.initial 0) [.create sampleName, .readClock]).any (fun s₁ =>
      ((registerWorkerRecord sampleConfig.registration 0 s₁.now s₁.db).1.toOption.any
        fun _ => true) &&
      (s₁.step (.registerWorker sampleConfig.registration 0)).any fun s₂ =>
        (reclaimNextExpiredAttemptAt 0 [] s₂.db).1.toOption.any Option.isNone &&
        (s₂.step (.reclaim 0 [])).any fun s₃ =>
          (materializeNextScheduleAt 0 [] s₃.now s₃.db).1.toOption.any Option.isNone &&
          (s₃.step (.materialize 0 [])).any fun s₄ =>
            (claimNext sampleConfig.id none s₄.now 5 [] s₄.db).1.toOption.any Option.isSome &&
            (s₄.step (.claimNext sampleConfig.id 5 [])).any fun s₅ =>
              (s₅.working sampleConfig.id).length == 1) = true := by
    decide +kernel
  obtain ⟨s₁, hexec, hrun⟩ := (Option.any_eq_true _ _).mp hrun
  obtain ⟨hregistered, hrun⟩ := (Bool.and_eq_true _ _).mp hrun
  obtain ⟨s₂, hregister, hrun⟩ := (Option.any_eq_true _ _).mp hrun
  obtain ⟨hreclaimed, hrun⟩ := (Bool.and_eq_true _ _).mp hrun
  obtain ⟨s₃, hreclaim, hrun⟩ := (Option.any_eq_true _ _).mp hrun
  obtain ⟨hmaterialized, hrun⟩ := (Bool.and_eq_true _ _).mp hrun
  obtain ⟨s₄, hmaterialize, hrun⟩ := (Option.any_eq_true _ _).mp hrun
  obtain ⟨hclaimed, hrun⟩ := (Bool.and_eq_true _ _).mp hrun
  obtain ⟨s₅, hclaim, hworking⟩ := (Option.any_eq_true _ _).mp hrun
  obtain ⟨record, hrecord, -⟩ := except_any_eq_true.mp hregistered
  obtain ⟨reclaimed, hanswer, hnone⟩ := except_any_eq_true.mp hreclaimed
  obtain ⟨tick, htick, hidle⟩ := except_any_eq_true.mp hmaterialized
  obtain ⟨answer, hjob, hsome⟩ := except_any_eq_true.mp hclaimed
  obtain rfl := Option.isNone_iff_eq_none.mp hnone
  obtain rfl := Option.isNone_iff_eq_none.mp hidle
  obtain ⟨claimed, rfl⟩ := Option.isSome_iff_exists.mp hsome
  obtain ⟨s₀, hcreate, hexec⟩ := Option.bind_eq_some_iff.mp hexec
  obtain ⟨s, hread, hexec⟩ := Option.bind_eq_some_iff.mp hexec
  cases hexec
  refine ⟨s₅, claimed, beq_iff_eq.mp hworking, ?_⟩
  have hbegin : Relation.ReflTransGen (Site.Step squareImages squareCodec false sampleConfig)
      (.initial ⟨.initial 0, ⟨[], []⟩⟩ false) (.fresh .registering s₁) :=
    .tail (.single (client_step rfl (by simp) hcreate)) (client_step rfl (by simp) hread)
  have hopening := hbegin.tail (registers_step hrecord hregister)
  have hchecking := hopening.tail (.acts (.fresh .checking s₂) (.opened rfl))
  have hreclaiming := hchecking.tail (.acts (.fresh .reclaiming s₂) (.continued rfl rfl))
  have hmaterializing := hreclaiming.tail (reclaims_step hanswer hreclaim)
  have hclaiming := hmaterializing.tail (materializes_step htick hmaterialize)
  have hcalling := hclaiming.tail (.acts (.fresh .calling s₄) (.free rfl Nat.zero_lt_one rfl))
  exact hcalling.tail (spawns_step hjob hclaim)

/-- The worker has as many tasks as it may have. -/
theorem worker_keeps_capacity_one : ∃ site : Site, site.process.tasks.length = 1 ∧
    site.process.tasks.length ≤ sampleConfig.concurrencyLimit ∧
    (site.world.system.working sampleConfig.id).length = 1 := by
  obtain ⟨s, claimed, hworking, hrun⟩ := sample_spawned
  obtain ⟨hcapacity, -⟩ := worker_keeps_capacity squareCodec_marked hrun
  exact ⟨_, rfl, hcapacity, hworking⟩

end TaskHarbor
