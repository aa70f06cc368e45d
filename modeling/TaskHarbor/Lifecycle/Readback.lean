import TaskHarbor.Lifecycle.Operations

/-! Reading a job back never fails: its row, its artifacts and its attempts all decode. -/
namespace TaskHarbor

open Relational Transaction

variable {db : Db}

theorem ArtifactRecord.tryFrom_ok {a : ArtifactRow} (hchecks : holdsAll a.checks = true)
    (hid : 0 < a.jobId ∧ a.jobId ≤ i64Max) : ∃ record, ArtifactRecord.tryFrom a = .ok record := by
  have hmedia := (ArtifactRow.checks_iff.mp hchecks).2.2.1
  have hdecode : decodeJobId a.jobId = .ok ⟨a.jobId, hid.1, hid.2⟩ := decodeJobId_ok.mpr rfl
  unfold ArtifactRecord.tryFrom
  simp only [hmedia, Bool.not_true, Bool.false_eq_true, if_false, hdecode]
  exact ⟨_, rfl⟩

theorem AttemptRecord.tryFrom_ok {a : AttemptRow} (hsound : a.Sound) (name : Option String) :
    ∃ record, AttemptRecord.tryFrom a name = .ok record := by
  obtain ⟨hpositive, hle⟩ := hsound.progress
  have hfine :
      (a.progressTotal == 0 || decide (a.progressTotal < a.progressCompleted)) = false := by
    simp only [Bool.or_eq_false_iff, beq_eq_false_iff_ne, decide_eq_false_iff_not]
    omega
  unfold AttemptRecord.tryFrom
  rw [hfine]
  exact ⟨_, rfl⟩

theorem imageSettings_ok {r : JobRow} (hsound : r.Sound) (himage : r.jobType = .imageResize) :
    ∃ settings, imageSettings r.maxWidth r.jpegQuality = .ok settings := by
  obtain ⟨-, -, -, hsettings, -⟩ := JobRow.checks_iff.mp hsound.checks
  rw [himage] at hsettings
  simp only [Bool.and_eq_true] at hsettings
  obtain ⟨w, hw, -⟩ := (Option.any_eq_true _ _).mp hsettings.1
  obtain ⟨q, hq, hrange⟩ := (Option.any_eq_true _ _).mp hsettings.2
  simp only [Bool.and_eq_true, decide_eq_true_eq] at hrange
  refine ⟨(w, q), ?_⟩
  rw [hw, hq]
  exact if_pos (by omega)

theorem JobRow.tryIntoRecord_ok {r : JobRow} (hsound : r.Sound) (artifacts : List ArtifactRecord)
    (attempts : List AttemptRecord) :
    ∃ record, r.tryIntoRecord artifacts attempts = .ok record := by
  obtain ⟨-, hprogress, -, -, -, hmax, -, horigin, -⟩ := JobRow.checks_iff.mp hsound.checks
  obtain ⟨name, hname⟩ := hsound.name
  have hid : decodeJobId r.id = .ok ⟨r.id, hsound.id.1, hsound.id.2⟩ := decodeJobId_ok.mpr rfl
  have hfine :
      (r.progressTotal == 0 || decide (r.progressTotal < r.progressCompleted)) = false := by
    simp only [Bool.or_eq_false_iff, beq_eq_false_iff_ne, decide_eq_false_iff_not]
    omega
  have hlimit : (r.maxAttempts == 0 || decide (maxAttemptsLimit < r.maxAttempts)) = false := by
    simp only [Bool.or_eq_false_iff, beq_eq_false_iff_ne, decide_eq_false_iff_not]
    unfold maxAttemptsLimit
    omega
  obtain ⟨schedule, hschedule, hsome⟩ : ∃ schedule, r.scheduleId.mapM decodeScheduleId =
      .ok schedule ∧ schedule.isSome = r.scheduleId.isSome := by
    cases hs : r.scheduleId with
    | none => exact ⟨none, rfl, rfl⟩
    | some s =>
      obtain ⟨hpos, hle⟩ := hsound.schedule s hs
      have hdecode : decodeScheduleId s = .ok ⟨s, hpos, hle⟩ := decodeScheduleId_ok.mpr rfl
      exact ⟨some ⟨s, hpos, hle⟩, by rw [Option.mapM_some, hdecode]; rfl, rfl⟩
  obtain ⟨parent, hparent⟩ : ∃ parent, r.retryOfJobId.mapM decodeJobId = .ok parent := by
    cases hp : r.retryOfJobId with
    | none => exact ⟨none, rfl⟩
    | some p =>
      obtain ⟨hpos, hle⟩ := hsound.parent p hp
      have hdecode : decodeJobId p = .ok ⟨p, hpos, hle⟩ := decodeJobId_ok.mpr rfl
      exact ⟨some ⟨p, hpos, hle⟩, by rw [Option.mapM_some, hdecode]; rfl⟩
  have hboth : (schedule.isSome != r.scheduledFor.isSome) = false := by
    rw [hsome, horigin]
    simp
  unfold JobRow.tryIntoRecord
  simp only [hid, hname, hfine, hlimit, hschedule, hparent, Bool.false_eq_true, if_false]
  change ∃ record, (if (schedule.isSome != r.scheduledFor.isSome) = true then _ else _) = _
  rw [if_neg (by simp [hboth])]
  cases htype : r.jobType with
  | demoDelay => exact ⟨_, rfl⟩
  | imageResize =>
    obtain ⟨settings, hsettings⟩ := imageSettings_ok hsound htype
    rw [hsettings]
    exact ⟨_, rfl⟩

/-- A job of the database reads back. -/
theorem readJob_ok {r : JobRow} (hinv : db.Inv) (hr : db.jobs.get? r.id = some r) :
    ∃ record, readJob db r = .ok record := by
  have hreadable := hinv.readable r.id
  have hsound := hreadable.job r hr
  obtain ⟨artifacts, hartifacts⟩ : ∃ artifacts, loadArtifacts db r.id = .ok artifacts := by
    refine except_mapM_exists fun a ha => ?_
    have hmem := (List.mem_insertionSort artifactOrder).mp ha
    rw [List.mem_filter, beq_iff_eq] at hmem
    refine ArtifactRecord.tryFrom_ok ?_ (hmem.2 ▸ hsound.id)
    cases hkind : a.kind with
    | input => exact hreadable.inputs a (mem_artifactsOf.mpr ⟨hmem.1, hmem.2, hkind⟩)
    | output => exact hreadable.outputs a (mem_artifactsOf.mpr ⟨hmem.1, hmem.2, hkind⟩)
  obtain ⟨attempts, hattempts⟩ : ∃ attempts, loadAttempts db r.id = .ok attempts := by
    refine except_mapM_exists fun a ha => ?_
    have hmem := (List.mem_insertionSort attemptOrder).mp ha
    rw [List.mem_filter, beq_iff_eq] at hmem
    exact AttemptRecord.tryFrom_ok (hreadable.attempts a (mem_attemptsOf.mpr hmem)) _
  obtain ⟨record, hrecord⟩ := JobRow.tryIntoRecord_ok hsound artifacts attempts
  exact ⟨record, by rw [readJob, hartifacts, hattempts]; exact hrecord⟩

/-- A caller sees a job exactly if it exists and is not someone else's. -/
theorem getWithOwner_cases (hinv : db.Inv) (id : JobId) (owner : Option ℕ) :
    (∃ r record, db.jobs.get? id.get = some r ∧ ownedBy owner r = true ∧
      getWithOwner id owner db = .ok (some record)) ∨
    ((∀ r, db.jobs.get? id.get = some r → ownedBy owner r = false) ∧
      getWithOwner id owner db = .ok none) := by
  unfold getWithOwner
  cases hr : db.jobs.get? id.get with
  | none =>
    refine Or.inr ⟨fun r h => ?_, rfl⟩
    cases h
  | some r =>
    have hid : r.id = id.get := Table.key_of_get? hr
    cases howner : ownedBy owner r with
    | true =>
      rw [← hid] at hr
      obtain ⟨record, hrecord⟩ := readJob_ok hinv hr
      refine Or.inl ⟨r, record, rfl, howner, ?_⟩
      rw [Option.filter_some, if_pos howner]
      simp only [hrecord]
      rfl
    | false =>
      refine Or.inr ⟨fun s hs => ?_, ?_⟩
      · cases hs
        exact howner
      · rw [Option.filter_some, if_neg (by simp [howner])]

/-- What a record says about its row. -/
structure JobRecord.Shows (record : JobRecord) (r : JobRow) : Prop where
  id : record.id.get = r.id
  status : record.status = r.state
  progress : record.progressCompleted = r.progressCompleted ∧ record.progressTotal = r.progressTotal

theorem JobRow.tryIntoRecord_shows {r : JobRow} {artifacts : List ArtifactRecord}
    {attempts : List AttemptRecord} {record : JobRecord}
    (h : r.tryIntoRecord artifacts attempts = .ok record) :
    record.Shows r ∧ record.artifacts = artifacts ∧ record.attempts = attempts := by
  unfold JobRow.tryIntoRecord at h
  obtain ⟨id, hid, h⟩ := except_bind_ok.mp h
  obtain ⟨name, -, h⟩ := except_bind_ok.mp h
  obtain ⟨-, h⟩ := except_unless_ok.mp h
  obtain ⟨-, h⟩ := except_unless_ok.mp h
  obtain ⟨_, -, h⟩ := except_bind_ok.mp h
  obtain ⟨-, h⟩ := except_unless_ok.mp h
  cases htype : r.jobType with
  | demoDelay =>
    simp only [htype] at h
    obtain ⟨settings, -, h⟩ := except_bind_ok.mp h
    obtain ⟨parent, -, h⟩ := except_bind_ok.mp h
    cases h
    exact ⟨⟨decodeJobId_ok.mp hid, rfl, rfl, rfl⟩, rfl, rfl⟩
  | imageResize =>
    simp only [htype] at h
    obtain ⟨limits, -, h⟩ := except_bind_ok.mp h
    obtain ⟨settings, -, h⟩ := except_bind_ok.mp h
    obtain ⟨parent, -, h⟩ := except_bind_ok.mp h
    cases h
    exact ⟨⟨decodeJobId_ok.mp hid, rfl, rfl, rfl⟩, rfl, rfl⟩

theorem readJob_shows {r : JobRow} {record : JobRecord} (h : readJob db r = .ok record) :
    record.Shows r ∧ loadArtifacts db r.id = .ok record.artifacts ∧
      loadAttempts db r.id = .ok record.attempts := by
  obtain ⟨artifacts, hartifacts, h⟩ := except_bind_ok.mp h
  obtain ⟨attempts, hattempts, h⟩ := except_bind_ok.mp h
  obtain ⟨hshows, rfl, rfl⟩ := JobRow.tryIntoRecord_shows h
  exact ⟨hshows, hartifacts, hattempts⟩

end TaskHarbor
