import TaskHarbor.Database.Schema

/-! What each statement does, as one equivalence for its success. A guarded UPDATE that must touch
one row succeeds exactly when the row under the pinned key meets the guard. -/
namespace TaskHarbor

open Relational Transaction

/-! ### Replacing single rows -/

def Db.setJob (db : Db) (r : JobRow) : Db := { db with jobs := db.jobs.put r }

def Db.setAttempt (db : Db) (a : AttemptRow) : Db :=
  { db with jobAttempts := db.jobAttempts.put a }

def Db.setSchedule (db : Db) (s : ScheduleRow) : Db := { db with schedules := db.schedules.put s }

@[simp] theorem setJob_jobAttempts (db : Db) (r : JobRow) :
    (db.setJob r).jobAttempts = db.jobAttempts := rfl

@[simp] theorem setJob_artifacts (db : Db) (r : JobRow) :
    (db.setJob r).artifacts = db.artifacts := rfl

@[simp] theorem setAttempt_jobs (db : Db) (a : AttemptRow) : (db.setAttempt a).jobs = db.jobs := rfl

@[simp] theorem setAttempt_artifacts (db : Db) (a : AttemptRow) :
    (db.setAttempt a).artifacts = db.artifacts := rfl

/-! ### Errors -/

theorem guard_ok {α : Type} {p : Prop} [Decidable p] {a b : α} {e : RepositoryError} :
    (if p then Except.ok a else .error e) = .ok b ↔ p ∧ b = a := by
  by_cases h : p
  · rw [if_pos h, Except.ok.injEq, eq_comm]
    exact (and_iff_right h).symm
  · simp [h]

theorem enforce_error {checks : List Check} {e : RepositoryError}
    (h : enforce checks = .error e) : ∃ c ∈ checks, c.2 = false ∧ e = .database c.1 := by
  unfold enforce at h
  split at h
  · rename_i c hc
    cases h
    exact ⟨c, List.mem_of_find?_eq_some hc, by simpa using List.find?_some hc, rfl⟩
  · cases h

theorem identityLeft_error {n : ℕ} {e : RepositoryError} (h : identityLeft n = .error e) :
    ∃ message, e = .database message := by
  unfold identityLeft at h
  split at h
  · cases h
  · cases h
    exact ⟨_, rfl⟩

@[simp] theorem ensureOneRow_ok {n : ℕ} {operation : String} {u : Unit} :
    ensureOneRow n operation = .ok u ↔ n = 1 := by
  simp [ensureOneRow]

@[simp] theorem ensureClaimRow_ok {n : ℕ} {u : Unit} : ensureClaimRow n = .ok u ↔ n = 1 := by
  simp [ensureClaimRow]

@[simp] theorem identityLeft_ok {n : ℕ} {u : Unit} : identityLeft n = .ok u ↔ n ≤ i64Max := by
  simp [identityLeft]

@[simp] theorem encodeDuration_ok {n m : ℕ} :
    encodeDuration n = .ok m ↔ n ≤ i64Max ∧ m = n := guard_ok

@[simp] theorem encodeU64_ok {n m : ℕ} {field : String} :
    encodeU64 n field = .ok m ↔ n ≤ i64Max ∧ m = n := guard_ok

@[simp] theorem encodeU32_ok {n m : ℕ} {field : String} :
    encodeU32 n field = .ok m ↔ n ≤ i32Max ∧ m = n := guard_ok

@[simp] theorem textParam_ok {s t : String} :
    textParam s = .ok t ↔ storableText s = true ∧ t = s := guard_ok

@[simp] theorem varcharParam_ok {n : ℕ} {s t : String} :
    varcharParam n s = .ok t ↔ storableText s = true ∧ storeVarchar n s = some t := by
  unfold varcharParam
  by_cases hs : storableText s = true
  · rw [if_pos hs]
    cases storeVarchar n s <;> simp [hs]
  · simp [hs]

@[simp] theorem decodeJobId_ok {n : ℕ} {id : JobId} : decodeJobId n = .ok id ↔ id.get = n := by
  unfold decodeJobId JobId.new
  by_cases h : 0 < n ∧ n ≤ i64Max
  · rw [dif_pos h]
    constructor
    · intro he
      cases he
      rfl
    · intro he
      cases id
      cases he
      rfl
  · rw [dif_neg h]
    constructor
    · intro he
      cases he
    · intro he
      exact absurd ⟨he ▸ id.positive, he ▸ id.bounded⟩ h

@[simp] theorem decodeScheduleId_ok {n : ℕ} {id : ScheduleId} :
    decodeScheduleId n = .ok id ↔ id.get = n := by
  unfold decodeScheduleId ScheduleId.new
  by_cases h : 0 < n ∧ n ≤ i64Max
  · rw [dif_pos h]
    constructor
    · intro he
      cases he
      rfl
    · intro he
      cases id
      cases he
      rfl
  · rw [dif_neg h]
    constructor
    · intro he
      cases he
    · intro he
      exact absurd ⟨he ▸ id.positive, he ▸ id.bounded⟩ h

/-- A bound value or an early return inside a transaction. -/
theorem lift_ok {α : Type} {x : Except RepositoryError α} {db db' : Db} {a : α} :
    (liftM x : Tx α) db = .ok (a, db') ↔ x = .ok a ∧ db = db' :=
  Tx.liftExcept_ok

theorem ensureOneRow_run (operation : String) (db : Db) :
    (liftM (ensureOneRow 1 operation) : Tx Unit) db = .ok ((), db) := rfl

/-! ### Guarded updates of one row -/

section OneRow

variable {db db' : Db} {i : ℕ}

theorem updateJobs_one {p : JobRow → Bool} {f : JobRow → JobRow} {hf}
    (hpin : ∀ r, p r = true → r.id = i) :
    updateJobs p f hf db = .ok (1, db') ↔
      ∃ r, db.jobs.get? i = some r ∧ p r = true ∧ db' = db.setJob (f r) := by
  simp only [updateJobs, Except.ok.injEq, Prod.mk.injEq]
  rw [Table.count_eq_one_iff hpin]
  constructor
  · rintro ⟨⟨r, hr, hp⟩, rfl⟩
    exact ⟨r, hr, hp, by rw [Db.setJob, Table.update_eq_put hpin hr hp]⟩
  · rintro ⟨r, hr, hp, rfl⟩
    exact ⟨⟨r, hr, hp⟩, by rw [Db.setJob, Table.update_eq_put hpin hr hp]⟩

/-- Under a pinned key an update touches no row or the row under that key. -/
theorem updateJobs_cases {p : JobRow → Bool} {f : JobRow → JobRow} {hf} {n : ℕ}
    (hpin : ∀ r, p r = true → r.id = i) (h : updateJobs p f hf db = .ok (n, db')) :
    (n = 0 ∧ db' = db ∧ ∀ r, db.jobs.get? i = some r → p r = false) ∨
      n = 1 ∧ ∃ r, db.jobs.get? i = some r ∧ p r = true ∧ db' = db.setJob (f r) := by
  obtain ⟨rfl, rfl⟩ : n = db.jobs.count p ∧ db' = { db with jobs := db.jobs.update p f hf } := by
    simpa only [updateJobs, Except.ok.injEq, Prod.mk.injEq, eq_comm] using h
  rcases Table.update_cases f hf hpin with ⟨hcount, hsame, hnone⟩ | ⟨hcount, r, hr, hp, hput⟩
  · exact Or.inl ⟨hcount, by rw [hsame], hnone⟩
  · exact Or.inr ⟨hcount, r, hr, hp, by rw [hput]; rfl⟩

theorem updateAttempts_one {p : AttemptRow → Bool} {f : AttemptRow → AttemptRow} {hf}
    (hpin : ∀ a, p a = true → a.id = i) :
    updateAttempts p f hf db = .ok (1, db') ↔
      ∃ a, db.jobAttempts.get? i = some a ∧ p a = true ∧ db' = db.setAttempt (f a) := by
  simp only [updateAttempts, Except.ok.injEq, Prod.mk.injEq]
  rw [Table.count_eq_one_iff hpin]
  constructor
  · rintro ⟨⟨a, ha, hp⟩, rfl⟩
    exact ⟨a, ha, hp, by rw [Db.setAttempt, Table.update_eq_put hpin ha hp]⟩
  · rintro ⟨a, ha, hp, rfl⟩
    exact ⟨⟨a, ha, hp⟩, by rw [Db.setAttempt, Table.update_eq_put hpin ha hp]⟩

theorem updateSchedules_one {p : ScheduleRow → Bool} {f : ScheduleRow → ScheduleRow} {hf}
    (hpin : ∀ s, p s = true → s.id = i) :
    updateSchedules p f hf db = .ok (1, db') ↔
      ∃ s, db.schedules.get? i = some s ∧ p s = true ∧ db' = db.setSchedule (f s) := by
  simp only [updateSchedules, Except.ok.injEq, Prod.mk.injEq]
  rw [Table.count_eq_one_iff hpin]
  constructor
  · rintro ⟨⟨s, hs, hp⟩, rfl⟩
    exact ⟨s, hs, hp, by rw [Db.setSchedule, Table.update_eq_put hpin hs hp]⟩
  · rintro ⟨s, hs, hp, rfl⟩
    exact ⟨⟨s, hs, hp⟩, by rw [Db.setSchedule, Table.update_eq_put hpin hs hp]⟩

theorem updateSchedules_cases {p : ScheduleRow → Bool} {f : ScheduleRow → ScheduleRow} {hf} {n : ℕ}
    (hpin : ∀ s, p s = true → s.id = i) (h : updateSchedules p f hf db = .ok (n, db')) :
    (n = 0 ∧ db' = db ∧ ∀ s, db.schedules.get? i = some s → p s = false) ∨
      n = 1 ∧ ∃ s, db.schedules.get? i = some s ∧ p s = true ∧ db' = db.setSchedule (f s) := by
  obtain ⟨rfl, rfl⟩ : n = db.schedules.count p ∧
      db' = { db with schedules := db.schedules.update p f hf } := by
    simpa only [updateSchedules, Except.ok.injEq, Prod.mk.injEq, eq_comm] using h
  rcases Table.update_cases f hf hpin with ⟨hcount, hsame, hnone⟩ | ⟨hcount, s, hs, hp, hput⟩
  · exact Or.inl ⟨hcount, by rw [hsame], hnone⟩
  · exact Or.inr ⟨hcount, s, hs, hp, by rw [hput]; rfl⟩

end OneRow

/-! ### Inserts -/

/-- The unique index on the owner's idempotency keys lets `row` in. -/
def Db.keyFree (db : Db) (row : JobRow) : Prop :=
  row.idempotencyKey = none ∨
    ∀ r ∈ db.jobs, r.ownerUserId ≠ row.ownerUserId ∨ r.idempotencyKey ≠ row.idempotencyKey

theorem insertJob_ok {mk : ℕ → JobRow} {hk} {db db' : Db} {id : ℕ} :
    insertJob mk hk db = .ok (id, db') ↔
      id = db.jobs.next ∧ id ≤ i64Max ∧ holdsAll (mk id).checks = true ∧ db.keyFree (mk id) ∧
        db' = { db with jobs := db.jobs.insertNew mk hk } := by
  unfold insertJob Db.keyFree
  simp only [except_bind_ok, identityLeft_ok, enforce_ok_iff, except_pure_ok, Prod.mk.injEq,
    holdsAll, Table.mem_def]
  constructor
  · rintro ⟨_, hid, _, hc, _, hu, rfl, rfl⟩
    refine ⟨rfl, hid, hc, ?_, rfl⟩
    simpa using hu
  · rintro ⟨rfl, hid, hc, hu, rfl⟩
    refine ⟨(), hid, (), hc, (), ?_, rfl, rfl⟩
    simpa using hu

theorem insertAttempt_ok {mk : ℕ → AttemptRow} {hk} {db db' : Db} {id : ℕ} :
    insertAttempt mk hk db = .ok (id, db') ↔
      id = db.jobAttempts.next ∧ id ≤ i64Max ∧
        (0 < (mk id).attemptNumber ∧ 0 < (mk id).progressTotal ∧
          (mk id).progressCompleted ≤ (mk id).progressTotal ∧
          (∀ a ∈ db.jobAttempts, a.jobId ≠ (mk id).jobId ∨
            a.attemptNumber ≠ (mk id).attemptNumber) ∧
          ∀ a ∈ db.jobAttempts, a.claimToken ≠ (mk id).claimToken) ∧
        db' = { db with jobAttempts := db.jobAttempts.insertNew mk hk } := by
  unfold insertAttempt
  simp only [except_bind_ok, identityLeft_ok, enforce_ok_iff, except_pure_ok, Prod.mk.injEq,
    holdsAll, Table.mem_def]
  constructor
  · rintro ⟨_, hid, _, hc, rfl, rfl⟩
    refine ⟨rfl, hid, ?_, rfl⟩
    simpa [and_assoc] using hc
  · rintro ⟨rfl, hid, hc, rfl⟩
    refine ⟨(), hid, (), ?_, rfl, rfl⟩
    simpa [and_assoc] using hc

/-- An attempt row that meets the other constraints is refused only if the identities are used up
or its claim token is taken. -/
theorem insertAttempt_error {mk : ℕ → AttemptRow} {hk} {db : Db} {e : RepositoryError}
    (hnumber : 0 < (mk db.jobAttempts.next).attemptNumber)
    (htotal : 0 < (mk db.jobAttempts.next).progressTotal)
    (hprogress :
      (mk db.jobAttempts.next).progressCompleted ≤ (mk db.jobAttempts.next).progressTotal)
    (hfresh : ∀ a ∈ db.jobAttempts, a.jobId ≠ (mk db.jobAttempts.next).jobId ∨
      a.attemptNumber ≠ (mk db.jobAttempts.next).attemptNumber)
    (h : insertAttempt mk hk db = .error e) :
    (∃ message, e = .database message) ∧ (i64Max < db.jobAttempts.next ∨
      ∃ a ∈ db.jobAttempts, a.claimToken = (mk db.jobAttempts.next).claimToken) := by
  constructor
  · unfold insertAttempt at h
    cases hid : identityLeft db.jobAttempts.next with
    | error e' =>
      rw [hid] at h
      cases h
      exact identityLeft_error hid
    | ok u =>
      rw [hid] at h
      change (enforce _ >>= fun _ => _) = _ at h
      cases hc : enforce _ with
      | error e' =>
        rw [hc] at h
        cases h
        obtain ⟨c, -, -, rfl⟩ := enforce_error hc
        exact ⟨_, rfl⟩
      | ok u =>
        rw [hc] at h
        cases h
  · by_contra hnot
    rw [not_or, not_lt, not_exists] at hnot
    have hok : insertAttempt mk hk db = .ok (db.jobAttempts.next, _) := insertAttempt_ok.mpr
      ⟨rfl, hnot.1, ⟨hnumber, htotal, hprogress, hfresh, fun a ha he => hnot.2 a ⟨ha, he⟩⟩, rfl⟩
    rw [hok] at h
    cases h

/-- The unique slot of an artifact. -/
def ArtifactRow.slot (a : ArtifactRow) : ℕ × ArtifactKind × ℕ := (a.jobId, a.kind, a.itemIndex)

theorem insertArtifact_ok {mk : ℕ → ArtifactRow} {hk} {db db' : Db} {u : Unit} :
    insertArtifact mk hk db = .ok (u, db') ↔
      db.artifacts.next ≤ i64Max ∧ holdsAll (mk db.artifacts.next).checks = true ∧
        (∀ a ∈ db.artifacts, a.slot ≠ (mk db.artifacts.next).slot) ∧
        db' = { db with artifacts := db.artifacts.insertNew mk hk } := by
  unfold insertArtifact ArtifactRow.slot
  simp only [except_bind_ok, identityLeft_ok, enforce_ok_iff, except_pure_ok, Prod.mk.injEq,
    holdsAll, Table.mem_def]
  constructor
  · rintro ⟨_, hid, _, hc, _, hu, _, rfl⟩
    refine ⟨hid, hc, ?_, rfl⟩
    simpa [imp_iff_not_or, or_assoc] using hu
  · rintro ⟨hid, hc, hu, rfl⟩
    refine ⟨(), hid, (), hc, (), ?_, trivial, rfl⟩
    simpa [imp_iff_not_or, or_assoc] using hu

theorem insertSchedule_ok {mk : ℕ → ScheduleRow} {hk} {db db' : Db} {id : ℕ} :
    insertSchedule mk hk db = .ok (id, db') ↔
      id = db.schedules.next ∧ id ≤ i64Max ∧ holdsAll (mk id).checks = true ∧
        db' = { db with schedules := db.schedules.insertNew mk hk } := by
  unfold insertSchedule
  simp only [except_bind_ok, identityLeft_ok, enforce_ok_iff, except_pure_ok, Prod.mk.injEq]
  constructor
  · rintro ⟨_, hid, _, hc, rfl, rfl⟩
    exact ⟨rfl, hid, hc, rfl⟩
  · rintro ⟨rfl, hid, hc, rfl⟩
    exact ⟨(), hid, (), hc, rfl, rfl⟩

theorem insertScheduleInputRow_ok {mk : ℕ → ScheduleInputRow} {hk} {db db' : Db} {u : Unit} :
    insertScheduleInputRow mk hk db = .ok (u, db') ↔
      db.scheduleInputs.next ≤ i64Max ∧ holdsAll (mk db.scheduleInputs.next).checks = true ∧
        (∀ i ∈ db.scheduleInputs, i.scheduleId ≠ (mk db.scheduleInputs.next).scheduleId ∨
          i.itemIndex ≠ (mk db.scheduleInputs.next).itemIndex) ∧
        db' = { db with scheduleInputs := db.scheduleInputs.insertNew mk hk } := by
  unfold insertScheduleInputRow
  simp only [except_bind_ok, identityLeft_ok, enforce_ok_iff, except_pure_ok, Prod.mk.injEq,
    holdsAll, Table.mem_def]
  constructor
  · rintro ⟨_, hid, _, hc, _, hu, _, rfl⟩
    refine ⟨hid, hc, ?_, rfl⟩
    simpa using hu
  · rintro ⟨hid, hc, hu, rfl⟩
    refine ⟨(), hid, (), hc, (), ?_, trivial, rfl⟩
    simpa using hu

theorem insertOccurrence_ok {mk : ℕ → ScheduleOccurrenceRow} {hk} {db db' : Db} {u : Unit} :
    insertOccurrence mk hk db = .ok (u, db') ↔
      db.scheduleOccurrences.next ≤ i64Max ∧
        holdsAll (mk db.scheduleOccurrences.next).checks = true ∧
        (∀ o ∈ db.scheduleOccurrences,
          o.scheduleId ≠ (mk db.scheduleOccurrences.next).scheduleId ∨
            o.scheduledFor ≠ (mk db.scheduleOccurrences.next).scheduledFor) ∧
        db' = { db with scheduleOccurrences := db.scheduleOccurrences.insertNew mk hk } := by
  unfold insertOccurrence
  simp only [except_bind_ok, identityLeft_ok, enforce_ok_iff, except_pure_ok, Prod.mk.injEq,
    holdsAll, Table.mem_def]
  constructor
  · rintro ⟨_, hid, _, hc, _, hu, _, rfl⟩
    refine ⟨hid, hc, ?_, rfl⟩
    simpa using hu
  · rintro ⟨hid, hc, hu, rfl⟩
    refine ⟨(), hid, (), hc, (), ?_, trivial, rfl⟩
    simpa using hu

/-! ### Checks of whole rows -/

theorem JobRow.checks_iff {r : JobRow} :
    holdsAll r.checks = true ↔ btrimLengthBetween 100 r.name = true ∧
      (0 < r.progressTotal ∧ r.progressCompleted ≤ r.progressTotal) ∧
      (1 ≤ r.delayMs ∧ r.delayMs ≤ 30000) ∧
      (match r.jobType with
        | .demoDelay => r.maxWidth.isNone && r.jpegQuality.isNone
        | .imageResize => r.maxWidth.any (fun w => 1 ≤ w && w ≤ 8192) &&
            r.jpegQuality.any fun q => 1 ≤ q && q ≤ 100) = true ∧
      (r.jobType ≠ .imageResize ∨ 1 ≤ r.progressTotal ∧ r.progressTotal ≤ 10) ∧
      (1 ≤ r.maxAttempts ∧ r.maxAttempts ≤ 10) ∧ r.retryOfJobId ≠ some r.id ∧
      r.scheduleId.isSome = r.scheduledFor.isSome ∧
      (match r.idempotencyKey, r.requestFingerprint with
        | none, none => true
        | some key, some fingerprint =>
            decide (1 ≤ key.length ∧ key.length ≤ 128) && fingerprint.length == 32
        | _, _ => false) = true := by
  constructor
  · intro h
    simp only [holdsAll, JobRow.checks, List.all_cons, List.all_nil, Bool.and_eq_true,
      decide_eq_true_eq, Bool.or_eq_true, bne_iff_ne, beq_iff_eq, and_true] at h
    exact h
  · intro h
    simp only [holdsAll, JobRow.checks, List.all_cons, List.all_nil, Bool.and_eq_true,
      decide_eq_true_eq, Bool.or_eq_true, bne_iff_ne, beq_iff_eq, and_true]
    exact h

theorem ArtifactRow.checks_iff {a : ArtifactRow} :
    holdsAll a.checks = true ↔ a.itemIndex ≤ 9 ∧ btrimLengthBetween 255 a.displayName = true ∧
      imageMediaType a.mediaType = true ∧ 0 < a.byteSize ∧ (0 < a.width ∧ 0 < a.height) ∧
      (match a.kind with
        | .input => a.attemptId.isNone = true ∧ a.sourceArtifactId.isNone = true
        | .output => a.attemptId.isSome = true ∧ a.sourceArtifactId.isSome = true ∧
            a.mediaType = "image/jpeg") ∧ checksumValid a.checksumSha256 = true := by
  cases hk : a.kind <;> simp [holdsAll, ArtifactRow.checks, hk, and_assoc]

theorem ScheduleInputRow.checks_iff {i : ScheduleInputRow} :
    holdsAll i.checks = true ↔ imageMediaType i.mediaType = true ∧ 0 < i.byteSize ∧
      (0 < i.width ∧ 0 < i.height) ∧ checksumValid i.checksumSha256 = true := by
  simp [holdsAll, ScheduleInputRow.checks]

end TaskHarbor
