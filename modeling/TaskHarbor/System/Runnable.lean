import TaskHarbor.System.Conformance
import TaskHarbor.System.Records

/-! A due schedule copies its stored inputs into the artifacts of a new job. The table of schedule
inputs has no constraint on display names, so a name that is not printable is found at the copy. -/
namespace TaskHarbor

open Relational Transaction Runs

/-! ### The copy -/

section Copy

variable {db db' : Db}

/-- The copy of a stored input meets the constraints exactly if its display name is not blank. -/
theorem ScheduleInputRow.artifact_checks {i : ScheduleInputRow} (hchecks : holdsAll i.checks = true)
    (hindex : i.itemIndex ≤ 9) (jobId : ℕ) (now : ℤ) (id : ℕ) :
    holdsAll (i.artifact jobId now id).checks = true ↔
      btrimLengthBetween 255 i.displayName = true := by
  obtain ⟨hmedia, hsize, hdimensions, hchecksum⟩ := ScheduleInputRow.checks_iff.mp hchecks
  rw [ArtifactRow.checks_iff]
  constructor
  · intro h
    exact h.2.1
  · intro hname
    exact ⟨hindex, hname, hmedia, hsize, hdimensions, ⟨rfl, rfl⟩, hchecksum⟩

/-- The copy goes through exactly if every name may be stored and identities are left. -/
theorem copyScheduleInputs_runs (now : ℤ) {jobId k : ℕ} {sources : List ScheduleInputRow}
    (hchecks : ∀ i ∈ sources, holdsAll i.checks = true)
    (hindexes : sources.map ScheduleInputRow.itemIndex = List.range' k sources.length)
    (hcount : k + sources.length ≤ maxFilesPerJob)
    (hfree : ∀ a ∈ db.artifacts, a.jobId = jobId → a.kind = .input → a.itemIndex < k) :
    (∃ db', copyScheduleInputs jobId now sources db = .ok ((), db')) ↔
      (∀ i ∈ sources, btrimLengthBetween 255 i.displayName = true) ∧
        ∀ n < sources.length, db.artifacts.next + n ≤ i64Max := by
  induction sources generalizing db k with
  | nil =>
    constructor
    · intro _
      exact ⟨by simp, by simp⟩
    · intro _
      exact ⟨db, rfl⟩
  | cons source rest ih =>
    rw [List.forall_mem_cons] at hchecks
    rw [List.map_cons, List.length_cons, List.range'_succ, List.cons.injEq] at hindexes
    obtain ⟨hsource, hrest⟩ := hchecks
    obtain ⟨rfl, hnumbers⟩ := hindexes
    rw [List.length_cons] at hcount
    have hfits : maxFilesPerJob = 10 := rfl
    have hcopy := fun n => source.artifact_checks hsource (by omega) jobId now n
    have hslot : ∀ a ∈ db.artifacts,
        a.slot ≠ (source.artifact jobId now db.artifacts.next).slot := by
      intro a ha hslot
      simp only [ArtifactRow.slot, ScheduleInputRow.artifact, Prod.mk.injEq] at hslot
      exact absurd hslot.2.2 (hfree a ha hslot.1 hslot.2.1).ne
    let copied := db.artifacts.insertNew (source.artifact jobId now) (fun _ => rfl)
    have hfree' : ∀ a ∈ copied, a.jobId = jobId → a.kind = .input →
        a.itemIndex < source.itemIndex + 1 := by
      intro a ha hjob hkind
      rcases Table.mem_insertNew.mp ha with ha | rfl
      · exact (hfree a ha hjob hkind).trans (Nat.lt_succ_self _)
      · exact Nat.lt_succ_self _
    have ih' := @ih { db with artifacts := copied } (source.itemIndex + 1) hrest hnumbers
      (by omega) hfree'
    have hnext : copied.next = db.artifacts.next + 1 := rfl
    rw [hnext] at ih'
    rw [List.forall_mem_cons, List.length_cons]
    constructor
    · rintro ⟨db', h⟩
      obtain ⟨_, db₁, hinsert, hcopied⟩ := Tx.bind_ok.mp h
      obtain ⟨hleft, hrow, -, rfl⟩ := insertArtifact_ok.mp hinsert
      obtain ⟨hnames, hmore⟩ := ih'.mp ⟨db', hcopied⟩
      refine ⟨⟨(hcopy _).mp hrow, hnames⟩, fun n hn => ?_⟩
      rcases n with _ | n
      · exact hleft
      · have := hmore n (by omega)
        omega
    · rintro ⟨⟨hname, hnames⟩, hleft⟩
      have hfirst := hleft 0 (by omega)
      obtain ⟨db', hcopied⟩ := ih'.mpr ⟨hnames, fun n hn => by
        have := hleft (n + 1) (by omega)
        omega⟩
      have hinsert : insertArtifact (source.artifact jobId now) (fun _ => rfl) db =
          .ok ((), { db with artifacts := copied }) :=
        insertArtifact_ok.mpr ⟨hfirst, (hcopy _).mpr hname, hslot, rfl⟩
      exact ⟨db', Tx.bind_ok.mpr ⟨(), _, hinsert, hcopied⟩⟩

end Copy

/-! ### The call -/

/-- The identity columns have values left for a job with so many inputs and its occurrence. -/
structure Db.RoomFor (db : Db) (inputCount : ℕ) : Prop where
  jobs : db.jobs.next ≤ i64Max
  artifacts : ∀ n < inputCount, db.artifacts.next + n ≤ i64Max
  occurrences : db.scheduleOccurrences.next ≤ i64Max

/-- The slot to run has a representable time with a representable successor, and it is not
recorded yet. -/
def ScheduleRow.SlotOpen (s : ScheduleRow) (db : Db) (asOf : ℤ) : Prop :=
  ∃ scheduledFor next coalesced,
    latestDueSlot s.nextRunAt s.intervalSeconds asOf = .ok (scheduledFor, next, coalesced) ∧
    ∀ o ∈ db.scheduleOccurrences, o.scheduleId ≠ s.id ∨ o.scheduledFor ≠ scheduledFor

section Call

variable {db db' : Db} {asOf now : ℤ} {candidate : ScheduleRow}

/-- The job row of an occurrence meets every constraint. -/
theorem ScheduleRow.Sound.jobRow_checks (h : candidate.Sound) {count : ℕ}
    (hcount : 1 ≤ count ∧ count ≤ maxFilesPerJob) (scheduledFor now : ℤ) (id : ℕ) :
    holdsAll (candidate.jobRow scheduledFor count now id).checks = true := by
  have hchecks := h.checks
  simp only [holdsAll, ScheduleRow.checks, List.all_cons, List.all_nil, Bool.and_eq_true,
    decide_eq_true_eq, and_true] at hchecks
  obtain ⟨hname, -, hwidth, hwidth', hquality⟩ := hchecks
  have hdefaults : (1 ≤ 500 ∧ 500 ≤ 30000) ∧ 1 ≤ 3 ∧ 3 ≤ 10 := by decide
  refine JobRow.checks_iff.mpr ⟨hname, ⟨hcount.1, Nat.zero_le _⟩, hdefaults.1, ?_, Or.inr hcount,
    hdefaults.2, by simp [ScheduleRow.jobRow, JobRow.defaults], rfl, rfl⟩
  simp [ScheduleRow.jobRow, hwidth, hwidth', hquality]

/-- The stored inputs of a schedule, as a creation leaves them. -/
structure Db.StocksSchedule (db : Db) (id : ℕ) : Prop where
  numbered : (db.scheduleView id).Numbered
  count : 1 ≤ (scheduleInputsOf db id).length ∧ (scheduleInputsOf db id).length ≤ maxFilesPerJob
  checks : ∀ i ∈ scheduleInputsOf db id, holdsAll i.checks = true

/-- An idle schedule gets its job exactly if its names may be stored and identities are left. -/
theorem materializeJob_runs (hsound : candidate.Sound) (hrooted : db.Rooted)
    (hstock : db.StocksSchedule candidate.id) (hidle : hasOverlap db candidate.id = false)
    (now scheduledFor : ℤ) :
    (∃ job db', materializeJob candidate scheduledFor (scheduleInputsOf db candidate.id).length now
        db = .ok (some job, db')) ↔
      db.jobs.next ≤ i64Max ∧
      (∀ i ∈ scheduleInputsOf db candidate.id, btrimLengthBetween 255 i.displayName = true) ∧
      ∀ n < (scheduleInputsOf db candidate.id).length, db.artifacts.next + n ≤ i64Max := by
  have hindexes := hstock.numbered
  unfold ScheduleView.Numbered at hindexes
  change (db.inputRowsOf candidate.id).map _ = List.range (db.inputRowsOf candidate.id).length
    at hindexes
  rw [← hstock.numbered.scheduleInputsOf, List.range_eq_range'] at hindexes
  have hcount := hstock.count
  have hchecks := hstock.checks
  generalize hsources : scheduleInputsOf db candidate.id = sources at hindexes hcount hchecks ⊢
  let mk := candidate.jobRow scheduledFor sources.length now
  let inserted : Db := { db with jobs := db.jobs.insertNew mk fun _ => rfl }
  have hnew : ∀ a ∈ inserted.artifacts, a.jobId = db.jobs.next → a.kind = .input →
      a.itemIndex < 0 := by
    intro a ha hjob _
    have howner := hrooted.artifacts a ha
    rw [hjob, Db.jobOwner, Table.get?_next] at howner
    cases howner
  have hcopy := copyScheduleInputs_runs now hchecks hindexes (by omega) hnew
  have hrow : holdsAll (mk db.jobs.next).checks = true :=
    hsound.jobRow_checks hcount scheduledFor now _
  constructor
  · rintro ⟨job, db', h⟩
    rcases materializeJob_ok.mp h with ⟨hoverlap, -⟩ | ⟨-, id, db₁, jobId, hinsert, hcopied, -⟩
    · rw [hidle] at hoverlap
      cases hoverlap
    · obtain ⟨rfl, hleft, -, -, rfl⟩ := insertJob_ok.mp hinsert
      rw [hsources] at hcopied
      exact ⟨hleft, hcopy.mp ⟨db', hcopied⟩⟩
  · rintro ⟨hleft, hcopyable⟩
    obtain ⟨db', hcopied⟩ := hcopy.mpr hcopyable
    have hinsert : insertJob mk (fun _ => rfl) db = .ok (db.jobs.next, inserted) :=
      insertJob_ok.mpr ⟨rfl, hleft, hrow, Or.inl rfl, rfl⟩
    let jobId : JobId := ⟨db.jobs.next, db.jobs.positive, hleft⟩
    rw [← hsources] at hcopied
    exact ⟨jobId, db', materializeJob_ok.mpr (Or.inr ⟨hidle, _, _, jobId, hinsert, hcopied,
      congrArg List.length hsources, rfl, rfl⟩)⟩

/-- A call that creates a job for its candidate, by its transaction. -/
theorem materializeNextScheduleAt_created {locked : List ℕ} (hsound : candidate.Sound)
    (hdue : scheduleCandidate db (bindTimestamp asOf) locked = some candidate) :
    (∃ tick db', materializeNextScheduleAt asOf locked now db = (.ok (some tick), db') ∧
        tick.scheduleId.get = candidate.id ∧ tick.outcome = .created) ↔
      ∃ scheduledFor next jobId coalesced db₁ db',
        Materializes db candidate asOf now scheduledFor next (some jobId) coalesced db₁ db' := by
  have hid : decodeScheduleId candidate.id = .ok ⟨candidate.id, hsound.id.1, hsound.id.2⟩ :=
    decodeScheduleId_ok.mpr rfl
  unfold materializeNextScheduleAt
  rw [Session.bind_run]
  constructor
  · rintro ⟨tick, db', h, -, hcreated⟩
    rcases commit_cases (materializeNextScheduleTx asOf locked now) db with
      ⟨result, db₂, htx, hc⟩ | ⟨e, -, hc⟩
    · rw [hc] at h
      rcases materializeNextScheduleTx_ok.mp htx with
        ⟨-, rfl, rfl⟩ | ⟨due, scheduledFor, next, job, coalesced, db₁, hcand, rfl, hm⟩
      · cases h
      · obtain rfl : candidate = due := Option.some.inj (hdue.symm.trans hcand)
        simp only [Session.bind_run, Session.liftExcept_run, hid] at h
        cases h
        cases job with
        | none => cases hcreated
        | some jobId => exact ⟨scheduledFor, next, jobId, coalesced, db₁, _, hm⟩
    · rw [hc] at h
      cases h
  · rintro ⟨scheduledFor, next, jobId, coalesced, db₁, db', hm⟩
    have htx := materializeNextScheduleTx_ok.mpr
      (Or.inr ⟨candidate, scheduledFor, next, some jobId, coalesced, db₁, hdue, rfl, hm⟩)
    rw [commit_ok htx]
    simp only [Session.bind_run, Session.liftExcept_run, hid]
    exact ⟨_, _, rfl, rfl, rfl⟩

/-- A due, idle schedule gets its job exactly if its slot is open, its names may be stored and
identities are left. -/
theorem materializeNextScheduleAt_runs {locked : List ℕ} (hsound : candidate.Sound)
    (hrooted : db.Rooted) (hstock : db.StocksSchedule candidate.id)
    (hdue : scheduleCandidate db (bindTimestamp asOf) locked = some candidate)
    (hidle : hasOverlap db candidate.id = false) :
    (∃ tick db', materializeNextScheduleAt asOf locked now db = (.ok (some tick), db') ∧
        tick.scheduleId.get = candidate.id ∧ tick.outcome = .created) ↔
      (∀ i ∈ scheduleInputsOf db candidate.id, btrimLengthBetween 255 i.displayName = true) ∧
      candidate.SlotOpen db asOf ∧ db.RoomFor (scheduleInputsOf db candidate.id).length := by
  have hmade := materializeJob_runs hsound hrooted hstock hidle now
  rw [materializeNextScheduleAt_created hsound hdue]
  constructor
  · rintro ⟨scheduledFor, next, jobId, coalesced, db₁, db', hm⟩
    obtain ⟨hjobs, hnames, hartifacts⟩ := (hmade scheduledFor).mp ⟨jobId, db₁, hm.made⟩
    exact ⟨hnames, ⟨scheduledFor, next, coalesced, hm.slot, hm.free⟩, hjobs, hartifacts, hm.room⟩
  · rintro ⟨hnames, ⟨scheduledFor, next, coalesced, hslot, hfree⟩, hroom⟩
    obtain ⟨jobId, db₁, hjob⟩ := (hmade scheduledFor).mpr ⟨hroom.jobs, hnames, hroom.artifacts⟩
    have hinterval := hsound.interval_pos
    obtain ⟨-, -, hoffset, -⟩ := (latestDueSlot_ok hinterval).mp hslot
    have hcounted : coalesced ≤ i64Max := (Nat.le_mul_of_pos_right _ hinterval).trans hoffset
    exact ⟨scheduledFor, next, jobId, coalesced, db₁, _, hslot, hstock.count, hjob, hcounted,
      hroom.occurrences, hfree, rfl⟩

end Call

/-! ### From the upload to the call -/

section Upload

variable {app : AppState} {ids : FreshIds} {staging : Staging} {fields : List UploadField}
  {db db' : Db} {now : ℤ} {rows : List ScheduleInputRow}

/-- Every file name of the form is printable. -/
def PrintableFiles (fields : List UploadField) : Prop :=
  ∀ f ∈ fields, f.key = "images" → ∀ rawName, f.fileName = some rawName → PrintableName rawName

/-- A stored input has the display name of its field. -/
theorem StoredInput.displayName_of_field {scheduleId n : ℕ} {input : NewInputArtifact}
    {row : ScheduleInputRow} {field : UploadField} {rawName : String}
    (h : StoredInput scheduleId now (input, n) row) (hfrom : input.From ids field n)
    (hname : field.fileName = some rawName) (hn : n < maxFilesPerJob) :
    row.displayName = safeDisplayName rawName n := by
  obtain ⟨⟨displayName, id, hparam, rfl⟩, -⟩ := h
  obtain ⟨rawName', hraw, hdisplay⟩ := hfrom.fileName
  obtain rfl : rawName' = rawName := Option.some.inj (hraw.symm.trans hname)
  rw [hdisplay, safeDisplayName_param hn] at hparam
  exact (Except.ok.inj hparam).symm

/-- The stored names of an accepted form are not blank exactly if its file names are printable. -/
theorem Staging.Reads.stored_names (h : staging.Reads app ids fields) {scheduleId : ℕ}
    (hrows : List.Forall₂ (StoredInput scheduleId now) staging.inputs.zipIdx rows) :
    (∀ row ∈ rows, btrimLengthBetween 255 row.displayName = true) ↔ PrintableFiles fields := by
  constructor
  · intro hnames f hf hkey rawName hname
    obtain ⟨⟨input, n⟩, hinput, hfrom⟩ := h.input_of_field hf hkey
    obtain ⟨row, hrow, hstored⟩ := forall₂_mem_right hrows.flip hinput
    have hn := h.index_lt hinput
    have hdisplay := StoredInput.displayName_of_field hstored hfrom hname hn
    have hnonblank := hnames row hrow
    rw [hdisplay] at hnonblank
    exact (safeDisplayName_btrim hn).mp hnonblank
  · intro hfiles row hrow
    obtain ⟨⟨input, n⟩, hinput, hstored⟩ := forall₂_mem_right hrows hrow
    obtain ⟨f, hf, hkey, hfrom⟩ := h.field_of_input hinput
    obtain ⟨rawName, hname, -⟩ := hfrom.fileName
    have hn := h.index_lt hinput
    rw [StoredInput.displayName_of_field hstored hfrom hname hn]
    exact (safeDisplayName_btrim hn).mpr (hfiles f hf hkey rawName hname)

/-- A creation stores the inputs of the request and no others. -/
theorem createSchedule_inputs {request : NewSchedule} {id : ScheduleId} (hscheduled : db.Scheduled)
    (h : createSchedule request now db = (.ok id, db')) :
    List.Forall₂ (StoredInput id.get now) request.inputs.zipIdx (db'.inputRowsOf id.get) := by
  unfold createSchedule at h
  obtain ⟨_, -, h⟩ := Session.lift_bind_ok.mp h
  rw [Session.bind_run] at h
  rcases commit_cases (createScheduleTx request now) db with ⟨n, db₁, htx, hc⟩ | ⟨e, -, hc⟩
  · rw [hc] at h
    have hdecode : (decodeScheduleId n, db₁) = (.ok id, db') :=
      (Session.liftExcept_run _ _).symm.trans h
    obtain ⟨hid, rfl⟩ := Prod.mk.inj hdecode
    rw [decodeScheduleId_ok] at hid
    obtain ⟨rows, rfl, -, hrows, hall, happended, -⟩ := createScheduleTx_ok htx
    have hnone : db.inputRowsOf db.schedules.next = [] :=
      ((hscheduled db.schedules.next).absent (Table.get?_next _)).1
    have hown : rows.filter (fun i => i.scheduleId == db.schedules.next) = rows := by
      rw [List.filter_eq_self]
      intro i hi
      simp [hall i hi]
    unfold Db.inputRowsOf at hnone ⊢
    rw [hid, happended, List.filter_append, hnone, hown, List.nil_append]
    exact hrows
  · rw [hc] at h
    cases h

end Upload

/-- A stored schedule keeps its inputs. -/
theorem ScheduleMove.holds {makes : NewSchedule → Prop} {edits : UpdateSchedule → ℤ → Prop}
    {runs : ℤ → Prop} {v v' : ScheduleView} (h : ScheduleMove makes edits runs v v')
    (hrow : v.row ≠ none) : v'.row ≠ none ∧ v'.inputs = v.inputs := by
  cases h with
  | stay h => exact ⟨by rwa [h], by rw [h]⟩
  | created request now s rows makes valid row row' made sound stored inputs occurrences =>
    exact absurd row hrow
  | edited request asOf now next s name edits valid cursor row row' sound inputs occurrences =>
    exact ⟨by simp [row'], inputs⟩
  | materialized asOf now scheduledFor next s o runs row due slot slotOf free row' inputs
      occurrences =>
    exact ⟨by simp [row'], inputs⟩

theorem System.Inv.run_holds {ok : System → Op → Prop} {s t : System} (hinv : s.Inv)
    (hrun : Run System.step ok s t) {id : ℕ} (hrow : (s.db.scheduleView id).row ≠ none) :
    t.db.inputRowsOf id = s.db.inputRowsOf id := by
  have hall : t.Inv ∧ (t.db.scheduleView id).row ≠ none ∧
      (t.db.scheduleView id).inputs = (s.db.scheduleView id).inputs := by
    refine hrun.invariant (P := fun u => u.Inv ∧ (u.db.scheduleView id).row ≠ none ∧
      (u.db.scheduleView id).inputs = (s.db.scheduleView id).inputs) ?_ ⟨hinv, hrow, rfl⟩
    rintro u op v ⟨hu, hstored, hinputs⟩ - he
    obtain ⟨hstored', hinputs'⟩ := (System.step_plan hu he id).holds hstored
    exact ⟨hu.step he, hstored', hinputs'.trans hinputs⟩
  exact hall.2.2

theorem StagedImageFields.schedule_inputs {staged : StagedImageFields} {owner : ℕ}
    {request : NewSchedule} (h : staged.schedule owner = .ok request) :
    request.inputs = staged.inputs := by
  unfold StagedImageFields.schedule at h
  split at h
  · cases h
  · split at h
    · cases h
    · cases h
      rfl

/-- The schedules of every reachable state are stocked. -/
theorem System.Reachable.stocksSchedule {s : System} (hs : s.Reachable) {due : ScheduleRow}
    (hdue : due ∈ s.db.schedules) : s.db.StocksSchedule due.id := by
  have hnumbered := hs.numbered due.id
  have hsupplied := hs.legible.supplied due.id due (Table.get?_key hdue)
  have hinputs : (s.db.scheduleView due.id).inputs = scheduleInputsOf s.db due.id :=
    hnumbered.scheduleInputsOf.symm
  rw [hinputs] at hsupplied
  exact ⟨hnumbered, hsupplied.1, hsupplied.2⟩

theorem System.Reachable.created {s : System} (hs : s.Reachable) {request : NewSchedule}
    {id : ScheduleId} {db' : Db} (h : createSchedule request s.now s.db = (.ok id, db')) :
    ({ s with db := db' } : System).Reachable := by
  have hdb : (createSchedule request s.now s.db).2 = db' := by rw [h]
  have hstep : s.step (.createSchedule request) = some { s with db := db' } := by
    rw [System.step_eq_some, ← hdb]
    exact ⟨rfl, rfl⟩
  have hrun : Run System.step Always s { s with db := db' } := .tail _ (.refl _) trivial hstep
  exact hs.run hrun

/-- A created schedule that is due and idle, at any later time and whatever happened since, gets its
job exactly if the file names of its form are printable, the slot is open and identities are
left. -/
theorem accepted_schedules_run {app : AppState} {ids : FreshIds} {multipart : Multipart}
    {usage owner : ℕ} {st st' : Storage} {staged : StagedImageFields} {request : NewSchedule}
    {s t : System} {id : ScheduleId} {db' : Db} {asOf : ℤ} {locked : List ℕ} {due : ScheduleRow}
    (h : stageFields app ids.uploadBatch ids multipart .schedule usage st = (.ok staged, st'))
    (hrequest : staged.schedule owner = .ok request) (hs : s.Reachable)
    (hcreated : createSchedule request s.now s.db = (.ok id, db'))
    (hrun : Run System.step Always { s with db := db' } t)
    (hdue : scheduleCandidate t.db (bindTimestamp asOf) locked = some due) (hid : due.id = id.get)
    (hidle : hasOverlap t.db due.id = false) :
    (∃ tick db'', materializeNextScheduleAt asOf locked t.now t.db = (.ok (some tick), db'') ∧
        tick.scheduleId.get = due.id ∧ tick.outcome = .created) ↔
      PrintableFiles multipart.fields ∧ due.SlotOpen t.db asOf ∧
        t.db.RoomFor staged.inputs.length := by
  obtain ⟨staging, hreads, hmade, -⟩ := stageFields_ok h
  have hstored := hs.created hcreated
  have ht : t.Reachable := hstored.run hrun
  have hrow : (db'.scheduleView id.get).row ≠ none := by
    change db'.schedules.get? id.get ≠ none
    rw [createSchedule_ok hcreated]
    simp
  have hkept : t.db.inputRowsOf id.get = db'.inputRowsOf id.get :=
    hstored.inv.run_holds hrun hrow
  have hrows := createSchedule_inputs hs.scheduled hcreated
  rw [StagedImageFields.schedule_inputs hrequest, hmade.inputs, ← hkept] at hrows
  have hmem := (scheduleCandidate_spec hdue).1
  have hstock := ht.stocksSchedule hmem
  have hsources : scheduleInputsOf t.db due.id = t.db.inputRowsOf id.get := by
    rw [hstock.numbered.scheduleInputsOf, hid]
  have hlength : (t.db.inputRowsOf id.get).length = staged.inputs.length := by
    rw [hmade.inputs, ← hrows.length_eq, List.length_zipIdx]
  rw [materializeNextScheduleAt_runs (ht.inv.db.schedules due hmem)
    (ht.inv.db.rooted ht.scheduled) hstock hdue hidle, hsources, hlength,
    hreads.stored_names hrows]

/-! A form with an interval and an anchor, with a printable file name and with one of a space
between two control characters. -/

def scheduleApp : AppState :=
  { sampleApp with
    parseRfc3339 := fun text => if text = "1970-01-01T00:00:00Z" then some 0 else none }

def sampleScheduleForm (fileName : String) : Multipart :=
  ⟨[⟨some "name", none, [textBytes "nightly"], true⟩,
    ⟨some "interval_seconds", none, [textBytes "3600"], true⟩,
    ⟨some "anchor_at", none, [textBytes "1970-01-01T00:00:00Z"], true⟩,
    ⟨some "images", some fileName, [samplePng], true⟩], true⟩

/-- The form is accepted, its schedule is created on a new database, and two hours later it is due
and idle in a state with this property. -/
def dueAfter (fileName : String) (p : System → ScheduleRow → Bool) : Bool :=
  (stageFields scheduleApp sampleIds.uploadBatch sampleIds (sampleScheduleForm fileName) .schedule 0
      sampleStorage).1.toOption.any fun staged =>
    (staged.schedule 1).toOption.any fun request =>
      (createSchedule request 0 Db.empty).1.toOption.any fun id =>
        (exec System.step { System.initial 0 with db := (createSchedule request 0 Db.empty).2 }
            [.tick (seconds 7200), .readClock]).any fun t =>
          (scheduleCandidate t.db (bindTimestamp (seconds 7200)) []).any fun due =>
            decide (due.id = id.get ∧ hasOverlap t.db due.id = false) && p t due

theorem exists_due {fileName : String} {p : System → ScheduleRow → Bool}
    (h : dueAfter fileName p = true) : ∃ staged st' request id db' t due,
      stageFields scheduleApp sampleIds.uploadBatch sampleIds (sampleScheduleForm fileName)
        .schedule 0 sampleStorage = (.ok staged, st') ∧
      staged.schedule 1 = .ok request ∧ createSchedule request 0 Db.empty = (.ok id, db') ∧
      Run System.step Always { System.initial 0 with db := db' } t ∧
      scheduleCandidate t.db (bindTimestamp (seconds 7200)) [] = some due ∧ due.id = id.get ∧
      hasOverlap t.db due.id = false ∧ p t due = true := by
  obtain ⟨staged, hstaged, h⟩ := except_any_eq_true.mp h
  obtain ⟨request, hrequest, h⟩ := except_any_eq_true.mp h
  obtain ⟨id, hid, h⟩ := except_any_eq_true.mp h
  obtain ⟨t, hrun, h⟩ := exists_run_of_exec (fun _ _ _ => trivial) h
  obtain ⟨due, hdue, h⟩ := (Option.any_eq_true _ _).mp h
  rw [Bool.and_eq_true, decide_eq_true_eq] at h
  obtain ⟨⟨hsame, hidle⟩, hp⟩ := h
  exact ⟨staged, _, request, id, _, t, due, Prod.ext hstaged rfl, hrequest, Prod.ext hid rfl, hrun,
    hdue, hsame, hidle, hp⟩

/-- No occurrence is recorded, the slot of two hours is computed, and all identities are left. -/
def freshlyDue (t : System) (due : ScheduleRow) : Bool :=
  decide (latestDueSlot due.nextRunAt due.intervalSeconds (seconds 7200) =
      .ok (seconds 7200, seconds 10800, 2) ∧ t.db.scheduleOccurrences.rows = [] ∧
    t.db.jobs.next ≤ 1 ∧ t.db.artifacts.next ≤ 1 ∧ t.db.scheduleOccurrences.next ≤ 1)

theorem accepted_schedules_run_printable : ∃ t : System, ∃ tick db', t.Reachable ∧
    materializeNextScheduleAt (seconds 7200) [] t.now t.db = (.ok (some tick), db') ∧
    tick.outcome = .created := by
  have hdecided : dueAfter "photo.png" freshlyDue = true := by decide +kernel
  obtain ⟨staged, st', request, id, db', t, due, hstaged, hrequest, hcreated, hrun, hdue, hid,
    hidle, hfresh⟩ := exists_due hdecided
  obtain ⟨hslot, hnone, hjobs, hartifacts, hoccurrences⟩ := of_decide_eq_true hfresh
  have hinitial : (System.initial 0).Reachable := ⟨0, .refl _⟩
  have hfiles : PrintableFiles (sampleScheduleForm "photo.png").fields :=
    (storable_of_all (by decide +kernel)).fileNames
  have hopen : due.SlotOpen t.db (seconds 7200) := by
    refine ⟨_, _, _, hslot, fun o ho => ?_⟩
    rw [Table.mem_def, hnone] at ho
    cases ho
  have hroom : t.db.RoomFor staged.inputs.length := by
    obtain ⟨staging, hreads, hmade, -⟩ := stageFields_ok hstaged
    have hcount := hreads.count
    have hlarge : 1 + maxFilesPerJob ≤ i64Max := by decide
    rw [hmade.inputs]
    exact ⟨by omega, by omega, by omega⟩
  obtain ⟨tick, db'', hcall, -, hcreated'⟩ := (accepted_schedules_run hstaged hrequest hinitial
    hcreated hrun hdue hid hidle).mpr ⟨hfiles, hopen, hroom⟩
  exact ⟨t, tick, db'', (hinitial.created hcreated).run hrun, hcall, hcreated'⟩

/-- The call fails with this error. -/
def failsWith (refusal : RepositoryError) (t : System) (_ : ScheduleRow) : Bool :=
  decide ((materializeNextScheduleAt (seconds 7200) [] t.now t.db).1.map Option.isSome =
    .error refusal)

/-- The schedule is created, and it is due and idle, and the scheduler step fails. -/
theorem unprintable_schedule_fails : ∃ staged st' request id db' t due,
    stageFields scheduleApp sampleIds.uploadBatch sampleIds (sampleScheduleForm "\u0080 \u0080")
      .schedule 0 sampleStorage = (.ok staged, st') ∧
    staged.schedule 1 = .ok request ∧ createSchedule request 0 Db.empty = (.ok id, db') ∧
    Run System.step Always { System.initial 0 with db := db' } t ∧
    scheduleCandidate t.db (bindTimestamp (seconds 7200)) [] = some due ∧ due.id = id.get ∧
    hasOverlap t.db due.id = false ∧
    (materializeNextScheduleAt (seconds 7200) [] t.now t.db).1 =
      .error (.database "artifacts_name_valid") := by
  have hdecided :
      dueAfter "\u0080 \u0080" (failsWith (.database "artifacts_name_valid")) = true := by
    decide +kernel
  obtain ⟨staged, st', request, id, db', t, due, hstaged, hrequest, hcreated, hrun, hdue, hid,
    hidle, hfails⟩ := exists_due hdecided
  exact ⟨staged, st', request, id, db', t, due, hstaged, hrequest, hcreated, hrun, hdue, hid,
    hidle, except_map_error (of_decide_eq_true hfails)⟩

end TaskHarbor
