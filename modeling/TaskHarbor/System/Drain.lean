import TaskHarbor.Lifecycle.Waiting
import TaskHarbor.System.Policy

/-! Calling `claim_next_at` again and again at one clock value takes the pending jobs that are
available at that value, in the order of the queue index, and then answers none. -/
namespace TaskHarbor

open Relational Transaction Runs

/-! ### The queue -/

/-- The columns of `jobs_queue_order_idx`. -/
def JobRow.queueKey (r : JobRow) : ℕ ×ₗ ℤ ×ₗ ℕ :=
  toLex (r.priority.rank, toLex (r.availableAt, r.id))

/-- The pending jobs that are available at `t`. -/
def Db.claimable (db : Db) (t : ℤ) : List JobRow :=
  db.jobs.rows.filter fun r => r.state.isPending && decide (r.availableAt ≤ t)

/-- The same jobs in the order of the queue. -/
def Db.queue (db : Db) (t : ℤ) : List JobRow := Table.sortBy JobRow.queueKey (db.claimable t)

/-- Job `a` comes before job `b`. -/
def JobRow.Ahead (a b : JobRow) : Prop :=
  a.priority.rank < b.priority.rank ∨ a.priority.rank = b.priority.rank ∧
    (a.availableAt < b.availableAt ∨ a.availableAt = b.availableAt ∧ a.id < b.id)

section Queue

variable {db : Db} {t : ℤ} {r : JobRow}

theorem mem_claimable :
    r ∈ db.claimable t ↔ r ∈ db.jobs ∧ r.state.isPending = true ∧ r.availableAt ≤ t := by
  simp [Db.claimable, Table.mem_def]

theorem mem_queue :
    r ∈ db.queue t ↔ r ∈ db.jobs ∧ r.state.isPending = true ∧ r.availableAt ≤ t := by
  unfold Db.queue
  rw [(Table.sortBy_perm _ _).mem_iff, mem_claimable]

theorem queue_nodup (db : Db) (t : ℤ) : (db.queue t).Nodup := by
  have hrows : db.jobs.rows.Nodup := List.Nodup.of_map Keyed.key db.jobs.nodup
  exact (Table.sortBy_perm _ _).nodup_iff.mpr (hrows.filter _)

theorem queueKey_inj {s : JobRow} (hr : r ∈ db.jobs) (hs : s ∈ db.jobs)
    (h : r.queueKey = s.queueKey) : r = s := by
  have hkeys : (r.availableAt, r.id) = (s.availableAt, s.id) := congrArg (fun k => (ofLex k).2) h
  exact Table.key_inj hr hs (congrArg Prod.snd hkeys)

theorem ahead_of_queueKey {s : JobRow} (hle : r.queueKey ≤ s.queueKey) (hne : r.id ≠ s.id) :
    r.Ahead s := by
  rcases Prod.Lex.le_iff.mp hle with hlt | ⟨heq, hle⟩
  · exact Or.inl hlt
  · refine Or.inr ⟨heq, ?_⟩
    rcases Prod.Lex.le_iff.mp hle with hlt | ⟨heq, hid⟩
    · exact Or.inl hlt
    · exact Or.inr ⟨heq, lt_of_le_of_ne hid hne⟩

theorem queue_ahead (db : Db) (t : ℤ) : (db.queue t).Pairwise JobRow.Ahead := by
  have hsorted := Table.sortBy_pairwise JobRow.queueKey (db.claimable t)
  refine (hsorted.and (queue_nodup db t)).imp_of_mem ?_
  rintro a b ha hb ⟨hle, hne⟩
  refine ahead_of_queueKey hle fun hid => hne ?_
  exact Table.key_inj (mem_queue.mp ha).1 (mem_queue.mp hb).1 hid

theorem claimCandidate_claimable (db : Db) (t : ℤ) :
    claimCandidate db t [] = Table.leastBy JobRow.queueKey (db.claimable t) := by
  simp only [claimCandidate, Db.claimable, List.contains_nil, Bool.not_false, Bool.and_true]
  rfl

theorem claimCandidate_none : claimCandidate db t [] = none ↔ db.queue t = [] := by
  rw [claimCandidate_claimable, Table.leastBy_eq_none]
  constructor
  · intro h
    rw [Db.queue, h]
    rfl
  · intro h
    have hperm := Table.sortBy_perm JobRow.queueKey (db.claimable t)
    rw [show Table.sortBy JobRow.queueKey (db.claimable t) = [] from h] at hperm
    exact hperm.symm.eq_nil

end Queue

/-! ### One claim -/

section Claim

variable {db db' : Db} {workerId claimToken : Uuid} {t : ℤ} {candidate : JobRow}
  {worker : WorkerRow} {claimed : ClaimedJob}

theorem Claims.jobs {locked : List ℕ}
    (h : Claims db workerId t claimToken locked candidate worker claimed db') :
    db'.jobs = db.jobs.put (candidate.started t) := by
  rw [h.written]
  rfl

/-- A claim takes the first job out of the queue and leaves the others. -/
theorem Claims.queue (h : Claims db workerId t claimToken [] candidate worker claimed db') :
    db.queue t = candidate :: db'.queue t := by
  have hc := h.selected
  obtain ⟨hget, hpending, havailable⟩ := claimCandidate_spec hc
  have hget : db.jobs.get? (candidate.started t).id = some candidate := hget
  obtain ⟨l₁, l₂, hold, hnew⟩ := Table.exists_put hget
  have hin : (candidate.state.isPending && decide (candidate.availableAt ≤ t)) = true := by
    simp [hpending, havailable]
  have hout : ((candidate.started t).state.isPending &&
      decide ((candidate.started t).availableAt ≤ t)) = false := rfl
  have hperm : (candidate :: db'.claimable t).Perm (db.claimable t) := by
    unfold Db.claimable
    rw [h.jobs, hnew, hold]
    simp only [List.filter_append, List.filter_cons, hin, hout, if_true, Bool.false_eq_true,
      if_false]
    exact List.perm_middle.symm
  rw [claimCandidate_claimable] at hc
  refine Table.sortBy_of_leastBy (fun a ha b hb hkey => ?_) hc hperm
  exact queueKey_inj (mem_claimable.mp ha).1 (mem_claimable.mp hb).1 hkey

theorem Claims.stocked {locked : List ℕ}
    (h : Claims db workerId t claimToken locked candidate worker claimed db')
    (hstocked : db.Stocked) : db'.Stocked := by
  have hcandidate := Table.mem_of_get? (claimCandidate_spec h.selected).1
  rw [h.written]
  intro r hr himage
  rcases Table.mem_put hr with hr | rfl
  · exact hstocked r hr himage
  · exact hstocked candidate hcandidate himage

theorem Claims.inv {locked : List ℕ}
    (h : Claims db workerId t claimToken locked candidate worker claimed db') (hinv : db.Inv) :
    db'.Inv := by
  have hsteps : db.Steps (fun _ => False) (fun _ _ _ => False) (fun _ => False) t db' :=
    h.evolves.steps
  exact hinv.steps hsteps

theorem Claims.tokens {locked : List ℕ}
    (h : Claims db workerId t claimToken locked candidate worker claimed db') {a : AttemptRow}
    (ha : a ∈ db'.jobAttempts) : a ∈ db.jobAttempts ∨ a.claimToken = some claimToken := by
  rw [h.written] at ha
  rcases List.mem_append.mp (show a ∈ db.jobAttempts.rows ++ [_] from ha) with ha | ha
  · exact Or.inl ha
  · rw [List.mem_singleton.mp ha]
    exact Or.inr rfl

theorem queueWait_eq {t availableAt : ℤ} (h : availableAt ≤ t) :
    (queueWait t availableAt : ℤ) = wholeMilliseconds (t - availableAt) := by
  have hpos : 0 ≤ wholeMilliseconds (t - availableAt) :=
    Int.tdiv_nonneg (by omega) (by decide)
  unfold queueWait
  omega

end Claim

/-! ### Repeated calls -/

/-- A call of `claim_next_at`, with the database before and after it. -/
structure ClaimCall where
  before : Db
  answer : Except RepositoryError (Option ClaimedJob)
  after : Db

/-- Calls of `claim_next_at` with nothing in between, each at a clock value of its own and with a
token of its own. -/
def claimCalls (workerId : Uuid) (asOf : ℤ) : List (ℤ × Uuid) → Db → List ClaimCall
  | [], _ => []
  | (now, claimToken) :: calls, db =>
      let (answer, db') := claimNext workerId (some asOf) now claimToken [] db
      ⟨db, answer, db'⟩ :: claimCalls workerId asOf calls db'

/-- The call takes job `r` for `worker` at `t`: it answers a claim of this job, changes its row
alone, and adds one running attempt. -/
structure ClaimCall.Takes (call : ClaimCall) (worker : WorkerRow) (t : ℤ) (r : JobRow) : Prop where
  job : call.before.jobs.get? r.id = some r
  answer : ∃ claimed, call.answer = .ok (some claimed) ∧ claimed.jobId.get = r.id ∧
    claimed.attemptNumber = (call.before.attemptsOf r.id).length + 1
  row : call.after.jobs.get? r.id = some (r.started t)
  others : ∀ id, id ≠ r.id → call.after.jobs.get? id = call.before.jobs.get? id
  attempt : ∃ a : AttemptRow,
    call.after.jobAttempts.rows = call.before.jobAttempts.rows ++ [a] ∧ a.jobId = r.id ∧
    a.state = .running ∧ a.workerId = some worker.id ∧
    a.attemptNumber = (call.before.attemptsOf r.id).length + 1 ∧
    a.leaseExpiresAt = some (t + seconds worker.leaseDurationSeconds) ∧
    (a.queueWaitMs : ℤ) = wholeMilliseconds (t - r.availableAt)
  rest : call.after = { call.before with
    jobs := call.after.jobs
    jobAttempts := call.after.jobAttempts }

/-- The call finds nothing to take. -/
structure ClaimCall.FindsNone (call : ClaimCall) : Prop where
  answer : call.answer = .ok none
  after : call.after = call.before

/-- The call is refused because the identities of attempts are used up. -/
structure ClaimCall.Exhausted (call : ClaimCall) : Prop where
  last : i64Max < call.before.jobAttempts.next
  answer : ∃ message, call.answer = .error (.database message)
  after : call.after = call.before

/-- The calls take the jobs of the queue one by one, and then find none. -/
def Drained (worker : WorkerRow) (t : ℤ) : List JobRow → List ClaimCall → Prop
  | _, [] => True
  | [], call :: calls => call.FindsNone ∧ Drained worker t [] calls
  | r :: queue, call :: calls =>
      call.Takes worker t r ∧ Drained worker t queue calls ∨
        call.Exhausted ∧ Drained worker t (r :: queue) calls

section Calls

variable {db db' : Db} {claimToken : Uuid} {asOf t : ℤ} {candidate : JobRow}
  {worker : WorkerRow} {claimed : ClaimedJob}

theorem Claims.takes (hinv : db.Inv)
    (h : Claims db worker.id t claimToken [] candidate worker claimed db') :
    ClaimCall.Takes ⟨db, .ok (some claimed), db'⟩ worker t candidate := by
  obtain ⟨hget, -, havailable⟩ := claimCandidate_spec h.selected
  have hnumber := nextAttemptNumber_length hinv candidate.id
  refine ⟨hget, ⟨claimed, rfl, h.jobId, h.number.trans hnumber⟩, ?_, ?_, ?_, ?_⟩
  · show db'.jobs.get? candidate.id = _
    rw [h.jobs]
    exact Table.get?_put_self hget rfl
  · intro id hne
    show db'.jobs.get? id = _
    rw [h.jobs]
    exact Table.get?_put_of_ne fun hid => hne hid.symm
  · refine ⟨candidate.attempt (nextAttemptNumber db candidate.id) worker claimToken t
      (queueWait t candidate.availableAt) db.jobAttempts.next, ?_, rfl, rfl, rfl, hnumber, rfl,
      queueWait_eq havailable⟩
    show db'.jobAttempts.rows = _
    rw [h.written]
    rfl
  · show db' = _
    rw [h.written]
    rfl

/-- What one call does: it finds no job, takes the first of the queue, or has no identity left. -/
theorem claimNext_call (now : ℤ) (hinv : db.Inv) (hstocked : db.Stocked) (hdated : db.Dated)
    (ht : bindTimestamp asOf = t) (hmax : t ≤ maxTimestamp)
    (hactive : activeWorker db worker.id t = some worker)
    (hfresh : ∀ a ∈ db.jobAttempts, a.claimToken ≠ some claimToken) :
    (db.queue t = [] ∧
      claimNext worker.id (some asOf) now claimToken [] db = (.ok none, db)) ∨
    (∃ candidate claimed db', Claims db worker.id t claimToken [] candidate worker claimed db' ∧
      claimNext worker.id (some asOf) now claimToken [] db = (.ok (some claimed), db')) ∨
    (∃ message, db.queue t ≠ [] ∧ i64Max < db.jobAttempts.next ∧
      claimNext worker.id (some asOf) now claimToken [] db = (.error (.database message), db)) := by
  have hclock : ((some asOf).map bindTimestamp).getD now = t := ht
  have hnone (hc : claimCandidate db t [] = none) :
      claimNextWithTime worker.id (some asOf) now claimToken [] db = .ok (none, db) := by
    unfold claimNextWithTime
    rw [hclock]
    simp only [Tx.bind_ok, Tx.get_run, Except.ok.injEq, Prod.mk.injEq]
    refine ⟨db, db, ⟨rfl, rfl⟩, ?_⟩
    rw [hc]
    rfl
  unfold claimNext
  rcases commit_cases (claimNextWithTime worker.id (some asOf) now claimToken []) db with
    ⟨result, db', htx, hcommit⟩ | ⟨e, htx, hcommit⟩
  · rw [hcommit]
    rcases claimNextWithTime_ok htx with
      ⟨rfl, rfl, hc⟩ | ⟨candidate, worker', claimed, rfl, hclaims⟩
    · rw [hclock] at hc
      exact Or.inl ⟨claimCandidate_none.mp hc, rfl⟩
    · right; left
      rw [hclock] at hclaims
      obtain rfl : worker' = worker := Option.some.inj (hclaims.active.symm.trans hactive)
      exact ⟨candidate, claimed, db', hclaims, rfl⟩
  · right; right
    rw [hcommit]
    obtain ⟨⟨message, rfl⟩, hwhy⟩ :=
      claimNextWithTime_failsOnly hinv hstocked hdated hclock hmax hactive e htx
    rcases hwhy with hlast | ⟨a, ha, htoken⟩
    · refine ⟨message, fun hempty => ?_, hlast, rfl⟩
      rw [hnone (claimCandidate_none.mpr hempty)] at htx
      cases htx
    · exact absurd htoken (hfresh a ha)

/-- Calls with fresh tokens by a live worker drain the queue. -/
theorem claimCalls_drained (hfrom : minTimestamp ≤ t) (ht : bindTimestamp asOf = t)
    (hmax : t ≤ maxTimestamp) (calls : List (ℤ × Uuid)) (hnodup : (calls.map Prod.snd).Nodup)
    (db : Db) (hinv : db.Inv) (hstocked : db.Stocked) (hdated : db.Dated)
    (hactive : activeWorker db worker.id t = some worker)
    (hfresh : ∀ c ∈ calls, ∀ a ∈ db.jobAttempts, a.claimToken ≠ some c.2) :
    Drained worker t (db.queue t) (claimCalls worker.id asOf calls db) := by
  induction calls generalizing db with
  | nil =>
    cases db.queue t <;> trivial
  | cons call calls ih =>
    obtain ⟨now, claimToken⟩ := call
    obtain ⟨hnew, hnodup⟩ := List.nodup_cons.mp hnodup
    have hrest : ∀ c ∈ calls, ∀ a ∈ db.jobAttempts, a.claimToken ≠ some c.2 :=
      fun c hc => hfresh c (List.mem_cons_of_mem _ hc)
    unfold claimCalls
    rcases claimNext_call now hinv hstocked hdated ht hmax hactive
        (hfresh _ List.mem_cons_self) with
      ⟨hempty, hcall⟩ | ⟨candidate, claimed, db', hclaims, hcall⟩ |
        ⟨message, hsome, hlast, hcall⟩
    · have hdrained := ih hnodup db hinv hstocked hdated hactive hrest
      rw [hcall, hempty]
      rw [hempty] at hdrained
      exact ⟨⟨rfl, rfl⟩, hdrained⟩
    · have hactive' : activeWorker db' worker.id t = some worker := by
        rw [hclaims.written]
        exact hactive
      have hfresh' : ∀ c ∈ calls, ∀ a ∈ db'.jobAttempts, a.claimToken ≠ some c.2 := by
        intro c hc a ha
        rcases hclaims.tokens ha with ha | htoken
        · exact hrest c hc a ha
        · intro htoken'
          have hsame : claimToken = c.2 := Option.some.inj (htoken.symm.trans htoken')
          have hmem : c.2 ∈ calls.map Prod.snd := List.mem_map_of_mem hc
          exact hnew (hsame ▸ hmem)
      have hdrained := ih hnodup db' (hclaims.inv hinv) (hclaims.stocked hstocked)
        (hclaims.dates hfrom hdated) hactive' hfresh'
      rw [hcall, hclaims.queue]
      exact Or.inl ⟨hclaims.takes hinv, hdrained⟩
    · have hdrained := ih hnodup db hinv hstocked hdated hactive hrest
      rw [hcall]
      cases hqueue : db.queue t with
      | nil => exact absurd hqueue hsome
      | cons r queue =>
        rw [hqueue] at hdrained
        exact Or.inr ⟨⟨hlast, ⟨message, rfl⟩, rfl⟩, hdrained⟩

end Calls

/-! ### Waiting jobs -/

theorem System.Reachable.waits {s : System} (hs : s.Reachable) (id : ℕ) : (s.db.view id).Waits := by
  obtain ⟨start, hrun⟩ := hs
  have hboth : s.Inv ∧ ∀ id, (s.db.view id).Waits := by
    refine hrun.invariant (P := fun s => s.Inv ∧ ∀ id, (s.db.view id).Waits) ?_ ?_
    · intro s op t hs _ hstep
      refine ⟨hs.1.step hstep, fun id => ?_⟩
      exact ((System.step_db hs.1 hstep).turns id).waits (hs.1.db.lifecycle id) (hs.2 id)
    · refine ⟨.initial start, fun id r hr => ?_⟩
      cases hr
  exact hboth.2 id

/-- The backoff is exact for attempts that ended after the origin of the wire format. -/
theorem Backoff.eq {n : ℕ} {t availableAt : ℤ} (h : Backoff n t availableAt)
    (ht : postgresEpoch < t) : availableAt = t + seconds ((min (2 ^ (n - 1)) 60 : ℕ) : ℤ) := by
  obtain ⟨u, ⟨rfl, rfl⟩ | ⟨rfl, rfl⟩⟩ := h
  · rw [retryBackoffSeconds_eq]
  · have hafter : postgresEpoch ≤ u := by
      by_contra hbefore
      have hmono := bindTimestamp_mono (not_le.mp hbefore).le
      have horigin : bindTimestamp postgresEpoch = postgresEpoch := by decide
      omega
    rw [bindTimestamp_add (Or.inr hafter), retryBackoffSeconds_eq]

/-! Two jobs and three calls of a worker that has just registered. -/

end TaskHarbor
