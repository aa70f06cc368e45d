import TaskHarbor.Repository.Records
import TaskHarbor.System.Stock

/-! Every record of a schedule decodes, in every reachable state: its inputs were validated when it
was created, and a created occurrence refers to a job that stays. -/
namespace TaskHarbor

open Relational Transaction Runs

/-! ### Supplies -/

/-- A schedule has one to ten inputs that meet their constraints. -/
def ScheduleView.Supplied (v : ScheduleView) : Prop :=
  ∀ s, v.row = some s → (1 ≤ v.inputs.length ∧ v.inputs.length ≤ maxFilesPerJob) ∧
    ∀ i ∈ v.inputs, holdsAll i.checks = true

theorem ScheduleMove.supplied {makes : NewSchedule → Prop} {edits : UpdateSchedule → ℤ → Prop}
    {runs : ℤ → Prop} {v v' : ScheduleView} (h : ScheduleMove makes edits runs v v') (hv : v.Sound)
    (hsupplied : v.Supplied) : v'.Supplied := by
  cases h with
  | stay h => rwa [h]
  | created request now s rows makes valid row row' made sound stored inputs occurrences =>
    intro _ _
    have hlength := stored.length_eq
    rw [List.length_zipIdx] at hlength
    obtain ⟨-, -, -, hcount⟩ := validateScheduleFields_ok.mp valid
    rw [(hv.absent row).1, List.nil_append] at inputs
    rw [inputs]
    refine ⟨by unfold maxFilesPerJob; omega, fun i hi => ?_⟩
    obtain ⟨_, -, hstored⟩ := forall₂_mem_right stored hi
    exact hstored.2
  | edited request asOf now next s name edits valid cursor row row' sound inputs occurrences =>
    intro _ _
    rw [inputs]
    exact hsupplied s row
  | materialized asOf now scheduledFor next s o runs row due slot slotOf free row' inputs
      occurrences =>
    intro _ _
    rw [inputs]
    exact hsupplied s row

/-! ### Occurrences -/

/-- Occurrences meet their constraints, and their jobs exist. -/
def Db.Linked (db : Db) : Prop :=
  ∀ o ∈ db.scheduleOccurrences, holdsAll o.checks = true ∧
    ∀ j, o.jobId = some j → ∃ r, db.jobs.get? j = some r

section Linked

variable {makes : NewSchedule → Prop} {edits : ℕ → UpdateSchedule → ℤ → Prop} {runs : ℤ → Prop}
  {now asOf : ℤ} {db db' : Db}

theorem ScheduleMove.quiet {edits : UpdateSchedule → ℤ → Prop} {v v' : ScheduleView}
    (h : ScheduleMove makes edits runs v v') (hnot : ∀ asOf, ¬runs asOf) :
    v'.occurrences = v.occurrences := by
  cases h with
  | stay h => rw [h]
  | created request now s rows makes valid row row' made sound stored inputs occurrences =>
    exact occurrences
  | edited request asOf now next s name edits valid cursor row row' sound inputs occurrences =>
    exact occurrences
  | materialized asOf now scheduledFor next s o runs row due slot slotOf free row' inputs
      occurrences =>
    exact absurd runs (hnot asOf)

/-- The jobs of occurrences stay. -/
theorem Db.Linked.turns (h : db.Linked) (hturns : db.Turns now db') {o : ScheduleOccurrenceRow}
    (ho : o ∈ db.scheduleOccurrences) : holdsAll o.checks = true ∧
      ∀ j, o.jobId = some j → ∃ r, db'.jobs.get? j = some r := by
  refine ⟨(h o ho).1, fun j hj => ?_⟩
  obtain ⟨r, hr⟩ := (h o ho).2 j hj
  obtain ⟨r', hr', -⟩ := (hturns j).keeps.job r hr
  exact ⟨r', hr'⟩

/-- A step without a materialization records no occurrence. -/
theorem Db.Linked.quiet (h : db.Linked) (hsteps : db.Steps makes edits (fun _ => False) now db') :
    db'.Linked := by
  intro o ho
  have hsame : db'.occurrencesOf o.scheduleId = db.occurrencesOf o.scheduleId :=
    (hsteps.plans o.scheduleId).quiet fun _ => id
  have hmem : o ∈ db'.occurrencesOf o.scheduleId := mem_occurrencesOf.mpr ⟨ho, rfl⟩
  rw [hsame] at hmem
  exact h.turns hsteps.turns (mem_occurrencesOf.mp hmem).1

/-- An occurrence after a materialization was there before, or is the new one: it meets its
constraints, and its job was made from the schedule. -/
theorem Materializes.recorded {candidate : ScheduleRow} {scheduledFor next : ℤ}
    {job : Option JobId} {coalesced : ℕ} {db₁ : Db}
    (h : Materializes db candidate asOf now scheduledFor next job coalesced db₁ db')
    {o : ScheduleOccurrenceRow} (ho : o ∈ db'.scheduleOccurrences) :
    o ∈ db.scheduleOccurrences ∨ o.scheduleId = candidate.id ∧ holdsAll o.checks = true ∧
      ∀ j, o.jobId = some j → ∃ count, db'.jobs.get? j =
        some (candidate.jobRow scheduledFor count now j) := by
  have hjobs : db'.jobs = db₁.jobs := by rw [h.written]
  have hoccurrences : db'.scheduleOccurrences = db₁.scheduleOccurrences.insertNew
      (occurrenceRow candidate.id scheduledFor (job.map JobId.get) coalesced now)
      (fun _ => rfl) := by rw [h.written]
  rw [hoccurrences] at ho
  rcases Table.mem_insertNew.mp ho with hold | rfl
  · rw [(materializeJob_frame h.made).2.2] at hold
    exact Or.inl hold
  · refine Or.inr ⟨rfl, occurrenceRow_checks _ _ _ _ _ _, fun j hj => ?_⟩
    obtain ⟨jobId, hjob, rfl⟩ := Option.map_eq_some_iff.mp hj
    rw [hjobs]
    rcases materializeJob_ok.mp h.made with ⟨-, hnone, -⟩ |
      ⟨-, id, db₂, jobId', hinsert, hcopy, -, hid, hsome⟩
    · rw [hnone] at hjob
      cases hjob
    · rw [hsome] at hjob
      cases hjob
      obtain ⟨rows, happended, -⟩ := copyScheduleInputs_ok hcopy
      obtain ⟨rfl, -, -, -, rfl⟩ := insertJob_ok.mp hinsert
      rw [happended.jobs, hid]
      exact ⟨_, (Table.get?_insertNew _ _ (by intro n; rfl) _).trans (if_pos rfl)⟩

theorem materializeNextScheduleAt_linked {locked : List ℕ} (hsound : ∀ s ∈ db.schedules, s.Sound)
    (h : db.Linked) : ((materializeNextScheduleAt asOf locked now db).2).Linked := by
  refine materializeNextScheduleAt_moves (R := fun db db' => db.Linked → db'.Linked)
    (fun h => h) ?_ h
  intro candidate scheduledFor next job coalesced db₁ db' hc hm hlinked o ho
  have hturns : db.Turns now db' := hm.turns (hsound candidate (scheduleCandidate_spec hc).1)
  rcases hm.recorded ho with hold | ⟨-, hchecks, hjob⟩
  · exact hlinked.turns hturns hold
  · refine ⟨hchecks, fun j hj => ?_⟩
    obtain ⟨count, hr⟩ := hjob j hj
    exact ⟨_, hr⟩

end Linked

/-! ### Workers -/

/-- The worker of an attempt is registered. -/
def Db.Employed (db : Db) : Prop :=
  ∀ a ∈ db.jobAttempts, ∀ w, a.workerId = some w → (db.workers.get? w).isSome = true

theorem Db.Employed.step {uploads : NewImageJob → Prop} {now : ℤ} {db db' : Db}
    (h : db.Employed) (hturns : db.Turns now db') (hgrows : db.Grows uploads now db') :
    db'.Employed := by
  intro a ha w hw
  have hget : db'.jobAttempts.get? a.id = some a := Table.get?_key ha
  cases hold : db.jobAttempts.get? a.id with
  | none =>
    obtain ⟨worker, howner, hworker⟩ := hgrows.attempts a.id a hold hget
    obtain rfl : worker.id = w := Option.some.inj (howner.symm.trans hw)
    exact hgrows.workers worker.id (by rw [hworker]; rfl)
  | some a₀ =>
    have hmem : a₀ ∈ (db.view a₀.jobId).attempts :=
      mem_attemptsOf.mpr ⟨Table.mem_of_get? hold, rfl⟩
    obtain ⟨a', ha', hbecomes⟩ := (hturns a₀.jobId).keeps.attempts a₀ hmem
    have hid : a'.id = a.id :=
      (congrArg AttemptRow.id hbecomes.template :).trans (Table.key_of_get? hold)
    obtain rfl : a' = a := Table.key_inj (mem_attemptsOf.mp ha').1 ha hid
    have howner : a'.workerId = a₀.workerId :=
      (congrArg AttemptRow.workerId hbecomes.template :)
    exact hgrows.workers w (h a₀ (Table.mem_of_get? hold) w (howner.symm.trans hw))

/-! ### Readable databases -/

/-- Every record of the database decodes. -/
structure Db.Legible (db : Db) : Prop where
  inv : db.Inv
  scheduled : db.Scheduled
  supplied : ∀ id, (db.scheduleView id).Supplied
  linked : db.Linked

section Legible

variable {makes : NewSchedule → Prop} {edits : ℕ → UpdateSchedule → ℤ → Prop} {runs : ℤ → Prop}
  {now : ℤ} {db db' : Db} {s : System}

/-- Without a materialization a legible database stays legible. -/
theorem Db.Legible.quiet (h : db.Legible)
    (hsteps : db.Steps makes edits (fun _ => False) now db') : db'.Legible where
  inv := h.inv.steps hsteps
  scheduled := fun id => (hsteps.plans id).viewSound (h.scheduled id)
  supplied := fun id => (hsteps.plans id).supplied (h.scheduled id) (h.supplied id)
  linked := h.linked.quiet hsteps

theorem Db.Evolves.inv (h : db.Evolves now db') (hinv : db.Inv) : db'.Inv := by
  have hsteps :
      Db.Steps (fun _ => False) (fun _ _ _ => False) (fun _ => False) now db db' := h.steps
  exact hinv.steps hsteps

theorem Op.runs_eq_false {op : Op} (h : ¬∃ asOf locked, op = .materialize asOf locked) :
    op.Runs = fun _ => False := by
  funext asOf
  refine propext ⟨fun hruns => ?_, False.elim⟩
  obtain ⟨locked, rfl⟩ := hruns
  exact h ⟨asOf, locked, rfl⟩

theorem System.step_linked {t : System} {op : Op} (hinv : s.Inv) (h : s.step op = some t)
    (hlinked : s.db.Linked) : t.db.Linked := by
  have hsteps := System.step_db hinv h
  by_cases hmaterialize : ∃ asOf locked, op = .materialize asOf locked
  · obtain ⟨asOf, locked, rfl⟩ := hmaterialize
    obtain ⟨-, rfl⟩ := System.step_eq_some.mp h
    exact materializeNextScheduleAt_linked hinv.db.schedules hlinked
  · rw [Op.runs_eq_false hmaterialize] at hsteps
    exact hlinked.quiet hsteps

theorem System.Reachable.legible (hs : s.Reachable) : s.db.Legible := by
  obtain ⟨start, hrun⟩ := hs
  have hinitial := System.Inv.initial start
  have hviews := hinitial.scheduled_run (P := ScheduleView.Supplied) (scheduled_initial start)
    (fun _ _ _ _ _ _ hv hmove hsupplied => hmove.supplied hv hsupplied)
    (fun _ _ h => nomatch h) hrun
  have hlinked : s.Inv ∧ s.db.Linked := by
    refine hrun.invariant (P := fun s => s.Inv ∧ s.db.Linked) ?_ ⟨hinitial, fun o ho => nomatch ho⟩
    rintro s op t ⟨hinv, hlinked⟩ _ he
    exact ⟨hinv.step he, System.step_linked hinv he hlinked⟩
  exact ⟨hlinked.1.db, hviews.1, hviews.2, hlinked.2⟩

theorem System.Reachable.employed (hs : s.Reachable) : s.db.Employed := by
  obtain ⟨start, hrun⟩ := hs
  have hall : s.Inv ∧ s.db.Employed := by
    refine hrun.invariant (P := fun s => s.Inv ∧ s.db.Employed) ?_
      ⟨System.Inv.initial start, fun a ha => nomatch ha⟩
    rintro s op t ⟨hinv, h⟩ _ he
    exact ⟨hinv.step he, h.step (System.step_db hinv he).turns (System.step_grows hinv he)⟩
  exact hall.2

end Legible

/-! ### Reads -/

section Reads

variable {db : Db} {r : ScheduleRow}

theorem ScheduleInputRecord.tryFrom_ok {i : ScheduleInputRow} (h : holdsAll i.checks = true) :
    ∃ record, ScheduleInputRecord.tryFrom i = .ok record := by
  have hmedia : imageMediaType i.mediaType = true := by
    simp only [holdsAll, ScheduleInputRow.checks, List.all_cons, Bool.and_eq_true] at h
    exact h.1
  unfold ScheduleInputRecord.tryFrom
  simp only [hmedia, Bool.not_true, Bool.false_eq_true, if_false]
  exact ⟨_, rfl⟩

theorem ScheduleOccurrenceRecord.tryFrom_ok {o : ScheduleOccurrenceRow} (hinv : db.Inv)
    (hlinked : db.Linked) (ho : o ∈ db.scheduleOccurrences) :
    ∃ record, ScheduleOccurrenceRecord.tryFrom o (db.jobStatusOf o) = .ok record := by
  obtain ⟨hchecks, hjob⟩ := hlinked o ho
  simp only [holdsAll, ScheduleOccurrenceRow.checks, List.all_cons, List.all_nil,
    Bool.and_true] at hchecks
  obtain ⟨jobId, hdecode, hsome⟩ : ∃ jobId, o.jobId.mapM decodeJobId = .ok jobId ∧
      jobId.isSome = o.jobId.isSome := by
    cases hid : o.jobId with
    | none => exact ⟨none, rfl, rfl⟩
    | some j =>
      obtain ⟨row, hrow⟩ := hjob j hid
      obtain ⟨hpos, hle⟩ := ((hinv.readable j).job row hrow).id
      obtain rfl : row.id = j := Table.key_of_get? hrow
      have hdecode : decodeJobId row.id = .ok ⟨row.id, hpos, hle⟩ := decodeJobId_ok.mpr rfl
      exact ⟨some ⟨row.id, hpos, hle⟩, by rw [Option.mapM_some, hdecode]; rfl, rfl⟩
  have hstatus : (db.jobStatusOf o).isSome = o.jobId.isSome := by
    cases hid : o.jobId with
    | none => simp [Db.jobStatusOf, hid]
    | some j =>
      obtain ⟨row, hrow⟩ := hjob j hid
      simp [Db.jobStatusOf, hid, hrow]
  have hvalid : occurrenceResultValid o.outcome jobId (db.jobStatusOf o) o.reason = true := by
    cases hout : o.outcome with
    | created =>
      rw [hout, Bool.and_eq_true] at hchecks
      simp [occurrenceResultValid, hsome, hstatus, hchecks]
    | skippedOverlap =>
      rw [hout, Bool.and_eq_true] at hchecks
      have hnone : o.jobId = none := by simpa using hchecks.1
      rw [hnone] at hsome hstatus
      simp only [Option.isSome_none, Option.isSome_eq_false_iff] at hsome hstatus
      simp [occurrenceResultValid, hsome, hstatus, hchecks]
  unfold ScheduleOccurrenceRecord.tryFrom
  simp only [hdecode, except_ok_bind, hvalid, Bool.not_true, Bool.false_eq_true, if_false]
  exact ⟨_, rfl⟩

theorem ScheduleRow.tryIntoRecord_ok (hsound : r.Sound) {inputs : List ScheduleInputRecord}
    (hcount : 1 ≤ inputs.length ∧ inputs.length ≤ maxFilesPerJob)
    (occurrences : List ScheduleOccurrenceRecord) :
    ∃ record, r.tryIntoRecord inputs occurrences = .ok record := by
  have hchecks := hsound.checks
  simp only [holdsAll, ScheduleRow.checks, List.all_cons, List.all_nil, Bool.and_true,
    Bool.and_eq_true, decide_eq_true_eq] at hchecks
  obtain ⟨-, hinterval, hsettings⟩ := hchecks
  obtain ⟨name, hname⟩ := hsound.name
  have hid : decodeScheduleId r.id = .ok ⟨r.id, hsound.id.1, hsound.id.2⟩ :=
    decodeScheduleId_ok.mpr rfl
  unfold maxFilesPerJob at hcount
  have hvalid : validateScheduleFields r.intervalSeconds r.maxWidth r.jpegQuality inputs.length =
      .ok () := validateScheduleFields_ok.mpr
    ⟨hinterval, ⟨hsettings.1, hsettings.2.1⟩, hsettings.2.2, hcount.1, hcount.2⟩
  have hquality : ¬255 < r.jpegQuality := by omega
  unfold ScheduleRow.tryIntoRecord
  simp only [if_neg hquality, hvalid, hid, hname]
  exact ⟨_, rfl⟩

/-- Every schedule reads back. -/
theorem readSchedule_ok (h : db.Legible) (hr : db.schedules.get? r.id = some r) :
    ∃ record, readSchedule db r = .ok record := by
  obtain ⟨hcount, hchecks⟩ := h.supplied r.id r hr
  obtain ⟨inputs, hinputs⟩ : ∃ inputs, loadScheduleInputs db r.id = .ok inputs := by
    refine except_mapM_exists fun i hi => ?_
    exact ScheduleInputRecord.tryFrom_ok (hchecks i ((List.mem_insertionSort inputOrder).mp hi))
  obtain ⟨occurrences, hoccurrences⟩ : ∃ occurrences,
      loadScheduleOccurrences db r.id = .ok occurrences := by
    refine except_mapM_exists fun o ho => ?_
    have hmem := (List.mem_insertionSort occurrenceOrder).mp ho
    rw [List.mem_filter] at hmem
    exact ScheduleOccurrenceRecord.tryFrom_ok h.inv h.linked hmem.1
  have hlength : inputs.length = (db.inputRowsOf r.id).length := by
    rw [← (except_mapM_ok.mp hinputs).length_eq]
    exact List.length_insertionSort inputOrder _
  have hsound := h.inv.schedules r (Table.mem_of_get? hr)
  rw [← show inputs.length = (db.scheduleView r.id).inputs.length from hlength] at hcount
  obtain ⟨record, hrecord⟩ := ScheduleRow.tryIntoRecord_ok hsound hcount occurrences
  exact ⟨record, by rw [readSchedule, hinputs, hoccurrences]; exact hrecord⟩

/-- A caller sees a schedule exactly if it exists and is not someone else's. -/
theorem getScheduleWithOwner_cases (h : db.Legible) (id : ScheduleId) (owner : Option ℕ) :
    (∃ r record, db.schedules.get? id.get = some r ∧ scheduleOwnedBy owner r = true ∧
      getScheduleWithOwner id owner db = .ok (some record)) ∨
    ((∀ r, db.schedules.get? id.get = some r → scheduleOwnedBy owner r = false) ∧
      getScheduleWithOwner id owner db = .ok none) := by
  unfold getScheduleWithOwner
  cases hr : db.schedules.get? id.get with
  | none =>
    refine Or.inr ⟨fun r h => ?_, rfl⟩
    cases h
  | some r =>
    cases howner : scheduleOwnedBy owner r with
    | true =>
      have hid : r.id = id.get := Table.key_of_get? hr
      rw [← hid] at hr
      obtain ⟨record, hrecord⟩ := readSchedule_ok h hr
      refine Or.inl ⟨r, record, rfl, howner, ?_⟩
      rw [Option.filter_some, if_pos howner]
      simp only [hrecord]
      rfl
    | false =>
      refine Or.inr ⟨fun s hs => ?_, ?_⟩
      · cases hs
        exact howner
      · rw [Option.filter_some, if_neg (by simp [howner])]

end Reads

end TaskHarbor
