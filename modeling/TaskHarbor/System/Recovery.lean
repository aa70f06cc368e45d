import TaskHarbor.System.Policy

/-! Reclaims one after another. Each closes the running attempt whose lease ended first, disposes of
its job and touches nothing else, so what a recovery pass leaves can be told from where it began. -/
namespace TaskHarbor

open Relational Transaction Runs

/-! ### Overdue attempts -/

/-- The order in which reclaims select. -/
def AttemptRow.leaseKey (a : AttemptRow) : ℤ ×ₗ ℕ := toLex (a.leaseExpiresAt.getD 0, a.id)

def Db.running (db : Db) : List AttemptRow :=
  db.jobAttempts.rows.filter fun a => a.state == .running

/-- The running attempts whose lease is over at `t`, the longest overdue first. -/
def Db.overdue (db : Db) (t : ℤ) : List AttemptRow :=
  Table.sortBy AttemptRow.leaseKey
    (db.jobAttempts.rows.filter fun a => a.state == .running && a.leaseOver t)

section Overdue

variable {db : Db} {a b : AttemptRow} {t : ℤ}

theorem mem_running : a ∈ db.running ↔ a ∈ db.jobAttempts ∧ a.state = .running := by
  simp [Db.running, Table.mem_def]

theorem mem_overdue :
    a ∈ db.overdue t ↔ a ∈ db.jobAttempts ∧ a.state = .running ∧ a.leaseOver t = true := by
  unfold Db.overdue
  rw [(Table.sortBy_perm _ _).mem_iff]
  simp [Table.mem_def]

theorem leaseKey_inj (ha : a ∈ db.jobAttempts) (hb : b ∈ db.jobAttempts)
    (h : a.leaseKey = b.leaseKey) : a = b := by
  have hid : a.id = b.id := congrArg (fun k => (ofLex k).2) h
  exact Table.key_inj ha hb hid

theorem leaseOver_mono (h : a.leaseOver t = true) {t' : ℤ} (ht : t ≤ t') :
    a.leaseOver t' = true := by
  unfold AttemptRow.leaseOver at h ⊢
  obtain ⟨e, he, hle⟩ := (Option.any_eq_true _ _).mp h
  rw [decide_eq_true_eq] at hle
  rw [he, Option.any_some, decide_eq_true_eq]
  omega

/-- A lease that is over ended before one that is not. -/
theorem leaseKey_le_of_leaseOver (ha : a.leaseOver t = true) (hb : b.leaseOver t = false)
    (hlease : ∃ e, b.leaseExpiresAt = some e) : a.leaseKey ≤ b.leaseKey := by
  obtain ⟨e, he⟩ := hlease
  unfold AttemptRow.leaseOver at ha hb
  obtain ⟨e', he', hle⟩ := (Option.any_eq_true _ _).mp ha
  rw [decide_eq_true_eq] at hle
  rw [he, Option.any_some, decide_eq_false_iff_not] at hb
  refine Prod.Lex.le_iff.mpr (Or.inl ?_)
  show a.leaseExpiresAt.getD 0 < b.leaseExpiresAt.getD 0
  rw [he, he', Option.getD_some, Option.getD_some]
  omega

/-- No job has two running attempts. -/
theorem Db.Inv.running_unique (hinv : db.Inv) (ha : a ∈ db.running) (hb : b ∈ db.running)
    (hjob : a.jobId = b.jobId) : a = b := by
  obtain ⟨ha, harunning⟩ := mem_running.mp ha
  obtain ⟨hb, hbrunning⟩ := mem_running.mp hb
  obtain ⟨r, hr, -⟩ := hinv.running ha harunning
  have hmem : a ∈ (db.view a.jobId).attempts := mem_attemptsOf.mpr ⟨ha, rfl⟩
  have hmem' : b ∈ (db.view a.jobId).attempts := mem_attemptsOf.mpr ⟨hb, hjob.symm⟩
  obtain ⟨l₁, l₂, hsplit⟩ := List.append_of_mem hmem
  obtain ⟨-, rfl, hspent⟩ :=
    ((hinv.lifecycle a.jobId).course r hr).admits.split hsplit harunning
  rw [hsplit] at hmem'
  rcases List.mem_append.mp hmem' with hmem' | hmem'
  · exact absurd hbrunning (hspent.not_running hmem')
  · exact (List.mem_singleton.mp hmem').symm

/-- A reclaim selects the first of the overdue attempts. -/
theorem expiredCandidate_overdue (hinv : db.Inv) (t : ℤ) :
    expiredCandidate db t [] = Table.leastBy AttemptRow.leaseKey
      (db.jobAttempts.rows.filter fun a => a.state == .running && a.leaseOver t) := by
  unfold expiredCandidate
  have hsame : (db.jobAttempts.rows.filter fun a => a.state == .running && a.leaseOver t &&
      !([] : List ℕ).contains a.id && (db.jobs.get? a.jobId).any fun r => r.state.isActive) =
      db.jobAttempts.rows.filter fun a => a.state == .running && a.leaseOver t := by
    refine List.filter_congr fun a ha => ?_
    by_cases hrunning : a.state = .running
    · obtain ⟨r, hr, hactive⟩ := hinv.running ha hrunning
      simp [hr, hactive]
    · simp [hrunning]
  rw [hsame]
  rfl

theorem expiredCandidate_none_iff (hinv : db.Inv) :
    expiredCandidate db t [] = none ↔ db.overdue t = [] := by
  rw [expiredCandidate_overdue hinv, Table.leastBy_eq_none]
  have hperm := Table.sortBy_perm AttemptRow.leaseKey
    (db.jobAttempts.rows.filter fun a => a.state == .running && a.leaseOver t)
  unfold Db.overdue
  constructor
  · intro h
    rw [h]
    rfl
  · intro h
    rw [h] at hperm
    exact hperm.symm.eq_nil

end Overdue

/-! ### One reclaim -/

/-- Attempt `a` was reclaimed at `t`: its row and the row of its job show it. -/
structure Db.Recovered (db : Db) (t : ℤ) (a : AttemptRow) (d : ReclaimDisposition) (db' : Db) :
    Prop where
  due : a.leaseOver (bindTimestamp t) = true
  rows : ∃ r r' ms, db.jobs.get? a.jobId = some r ∧ Disposed t a r d r' ∧ r'.id = r.id ∧
    elapsedMilliseconds a.startedAt t = .ok ms ∧ db'.jobs.get? a.jobId = some r' ∧
    db'.jobAttempts.get? a.id = some (a.expired r.state (bindTimestamp t) ms)

/-- The answer about attempt `a`. -/
structure ReclaimedAttempt.Tells (answer : ReclaimedAttempt) (a : AttemptRow) : Prop where
  jobId : answer.jobId.get = a.jobId
  attemptId : answer.attemptId = a.id
  workerId : a.workerId = some answer.workerId

/-- A reclaim at `t` that finds attempt `a`. -/
structure Reclaims (db : Db) (t : ℤ) (a : AttemptRow) (answer : ReclaimedAttempt) (db' : Db) :
    Prop where
  running : a ∈ db.running
  first : ∀ b ∈ db.running, a.leaseKey ≤ b.leaseKey
  tells : answer.Tells a
  recovered : db.Recovered t a answer.disposition db'
  attempts : ∃ a', a'.id = a.id ∧ a'.state ≠ .running ∧ db'.jobAttempts = db.jobAttempts.put a'
  jobs : ∀ id, id ≠ a.jobId → db'.jobs.get? id = db.jobs.get? id
  rest : db' = { db with jobs := db'.jobs, jobAttempts := db'.jobAttempts }

section Reclaim

variable {db db' : Db} {t : ℤ}

theorem expired_id (jobState : JobStatus) (u : ℤ) (ms : ℕ) (a : AttemptRow) :
    (a.expired jobState u ms).id = a.id := by
  unfold AttemptRow.expired
  split <;> rfl

theorem expired_state (jobState : JobStatus) (u : ℤ) (ms : ℕ) (a : AttemptRow) :
    (a.expired jobState u ms).state ≠ .running := by
  unfold AttemptRow.expired
  split
  · exact (by decide : AttemptStatus.cancelled ≠ .running)
  · exact (by decide : AttemptStatus.failed ≠ .running)

/-- The overdue attempt that comes first comes before every running attempt. -/
theorem expiredCandidate_first (hinv : db.Inv) {a : AttemptRow}
    (h : expiredCandidate db t [] = some a) {b : AttemptRow} (hb : b ∈ db.running) :
    a.leaseKey ≤ b.leaseKey := by
  rw [expiredCandidate_overdue hinv] at h
  obtain ⟨hmem, hleast⟩ := Table.leastBy_spec h
  have hover := (List.mem_filter.mp hmem).2
  rw [Bool.and_eq_true] at hover
  obtain ⟨hbmem, hbrunning⟩ := mem_running.mp hb
  cases hbover : b.leaseOver t with
  | true => exact hleast b (List.mem_filter.mpr ⟨hbmem, by simp [hbrunning, hbover]⟩)
  | false =>
    refine leaseKey_le_of_leaseOver hover.2 hbover ?_
    exact ((hinv.readable b.jobId).attempts b (mem_attemptsOf.mpr ⟨hbmem, rfl⟩)).lease

/-- What one reclaim does: it finds no overdue attempt, or reclaims the first, or changes
nothing. -/
theorem reclaim_cases (hinv : db.Inv) :
    (db.overdue (bindTimestamp t) = [] ∧ reclaimNextExpiredAttemptAt t [] db = (.ok none, db)) ∨
    (∃ a answer db', Reclaims db t a answer db' ∧
      reclaimNextExpiredAttemptAt t [] db = (.ok (some answer), db')) ∨
    ∃ e, reclaimNextExpiredAttemptTx t [] db = .error e ∧
      reclaimNextExpiredAttemptAt t [] db = (.error e, db) := by
  unfold reclaimNextExpiredAttemptAt
  rw [Session.bind_run]
  rcases commit_cases (reclaimNextExpiredAttemptTx t []) db with
    ⟨result, db', htx, hc⟩ | ⟨e, htx, hc⟩
  · rw [hc]
    rcases reclaimTx_ok htx with
      ⟨rfl, rfl, hnone⟩ | ⟨a, r, r', w, d, ms, rfl, hcand, hr, hdisposed, hid, hw, hms, rfl⟩
    · exact Or.inl ⟨(expiredCandidate_none_iff hinv).mp hnone, rfl⟩
    · right; left
      obtain ⟨hget, hrunning, hover, -⟩ := expiredCandidate_spec hcand
      have hmem := Table.mem_of_get? hget
      have hrid : r.id = a.jobId := Table.key_of_get? hr
      have hsound := (hinv.readable a.jobId).job r hr
      have hdecode : decodeJobId a.jobId =
          .ok ⟨a.jobId, hrid ▸ hsound.id.1, hrid ▸ hsound.id.2⟩ := decodeJobId_ok.mpr rfl
      simp only [Session.bind_run, Session.liftExcept_run, hdecode]
      refine ⟨a, _, _, ⟨mem_running.mpr ⟨hmem, hrunning⟩, fun b hb =>
        expiredCandidate_first hinv hcand hb, ⟨rfl, rfl, hw⟩, ⟨hover, r, r', ms, hr, hdisposed,
          hid, hms, ?_, ?_⟩, ⟨a.expired r.state (bindTimestamp t) ms, expired_id _ _ _ _,
          expired_state _ _ _ _, rfl⟩, ?_, rfl⟩, rfl⟩
      · exact Table.get?_put_self (t := db.jobs) hr (hid.trans hrid)
      · exact Table.get?_put_self (t := db.jobAttempts) hget (expired_id _ _ _ _)
      · intro id hne
        refine Table.get?_put_of_ne (t := db.jobs) fun hkey => hne ?_
        exact hkey.symm.trans (hid.trans hrid)
  · rw [hc]
    exact Or.inr (Or.inr ⟨e, htx, rfl⟩)

/-- A reclaim takes its attempt out of the running ones and leaves the others. -/
theorem Reclaims.run {a : AttemptRow} {answer : ReclaimedAttempt}
    (h : Reclaims db t a answer db') : ∃ l₁ l₂, db.running = l₁ ++ a :: l₂ ∧
      db'.running = l₁ ++ l₂ := by
  obtain ⟨a', hid, hstate, hput⟩ := h.attempts
  obtain ⟨hmem, hrunning⟩ := mem_running.mp h.running
  have hget : db.jobAttempts.get? a'.id = some a := by
    rw [hid]
    exact Table.get?_key hmem
  obtain ⟨l₁, l₂, hold, hnew⟩ := Table.exists_put hget
  refine ⟨l₁.filter fun b => b.state == .running, l₂.filter fun b => b.state == .running, ?_, ?_⟩
  · unfold Db.running
    rw [hold]
    simp [hrunning]
  · unfold Db.running
    rw [hput, hnew]
    simp [hstate]

end Reclaim

end TaskHarbor
