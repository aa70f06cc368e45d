import TaskHarbor.Schedule.Materialize

/-! The rows of one schedule, as one view of the database, and what the program may do to them:
create the schedule, edit it, or materialize one of its slots. -/
namespace TaskHarbor

open Relational Transaction

structure ScheduleView where
  row : Option ScheduleRow
  inputs : List ScheduleInputRow
  occurrences : List ScheduleOccurrenceRow

def Db.inputRowsOf (db : Db) (id : ℕ) : List ScheduleInputRow :=
  db.scheduleInputs.rows.filter fun i => i.scheduleId == id

def Db.occurrencesOf (db : Db) (id : ℕ) : List ScheduleOccurrenceRow :=
  db.scheduleOccurrences.rows.filter fun o => o.scheduleId == id

def Db.scheduleView (db : Db) (id : ℕ) : ScheduleView where
  row := db.schedules.get? id
  inputs := db.inputRowsOf id
  occurrences := db.occurrencesOf id

theorem mem_occurrencesOf {db : Db} {id : ℕ} {o : ScheduleOccurrenceRow} :
    o ∈ db.occurrencesOf id ↔ o ∈ db.scheduleOccurrences ∧ o.scheduleId = id := by
  simp [Db.occurrencesOf, Table.mem_def]

/-- The stored row of a requested input under its index. -/
def StoredInput (scheduleId : ℕ) (now : ℤ) (input : NewInputArtifact × ℕ)
    (row : ScheduleInputRow) : Prop :=
  (∃ displayName n, varcharParam 255 input.1.displayName = .ok displayName ∧
    row = input.1.scheduleRow scheduleId input.2 displayName now n) ∧ holdsAll row.checks = true

/-! ### What may happen to a schedule -/

/-- One step of a schedule. The parameters say which requests and clocks the step may use. -/
inductive ScheduleMove (makes : NewSchedule → Prop) (edits : UpdateSchedule → ℤ → Prop)
    (runs : ℤ → Prop) (v v' : ScheduleView) : Prop
  | stay (h : v' = v)
  | created (request : NewSchedule) (now : ℤ) (s : ScheduleRow) (rows : List ScheduleInputRow)
      (makes : makes request) (valid : request.validate = .ok ())
      (row : v.row = none) (row' : v'.row = some s)
      (made : s = request.row request.name.asStr now s.id) (sound : s.Sound)
      (stored : List.Forall₂ (StoredInput s.id now) request.inputs.zipIdx rows)
      (inputs : v'.inputs = v.inputs ++ rows) (occurrences : v'.occurrences = v.occurrences)
  | edited (request : UpdateSchedule) (asOf now next : ℤ) (s : ScheduleRow) (name : String)
      (edits : edits request asOf) (valid : request.validate = .ok ())
      (cursor : nextSlotAfter request.anchorAt request.intervalSeconds asOf = .ok next)
      (row : v.row = some s) (row' : v'.row = some (s.edited request name next now))
      (sound : (s.edited request name next now).Sound)
      (inputs : v'.inputs = v.inputs) (occurrences : v'.occurrences = v.occurrences)
  | materialized (asOf now scheduledFor next : ℤ) (s : ScheduleRow) (o : ScheduleOccurrenceRow)
      (runs : runs asOf) (row : v.row = some s) (due : s.nextRunAt ≤ bindTimestamp asOf)
      (slot : latestDueSlot s.nextRunAt s.intervalSeconds asOf =
        .ok (scheduledFor, next, o.coalescedSlots))
      (slotOf : o.scheduledFor = scheduledFor)
      (free : ∀ p ∈ v.occurrences, p.scheduledFor ≠ scheduledFor)
      (row' : v'.row = some (s.advanced next now)) (inputs : v'.inputs = v.inputs)
      (occurrences : v'.occurrences = v.occurrences ++ [o])

/-- Every schedule makes one step. -/
def Db.Plans (makes : NewSchedule → Prop) (edits : ℕ → UpdateSchedule → ℤ → Prop)
    (runs : ℤ → Prop) (db db' : Db) : Prop :=
  ∀ id, ScheduleMove makes (edits id) runs (db.scheduleView id) (db'.scheduleView id)

section Plans

variable {makes : NewSchedule → Prop} {edits : ℕ → UpdateSchedule → ℤ → Prop} {runs : ℤ → Prop}
  {now asOf : ℤ} {db db₁ db' : Db}

theorem Db.Plans.refl (db : Db) : db.Plans makes edits runs db := fun _ => .stay rfl

theorem Db.Evolves.plans (h : db.Evolves now db') : db.Plans makes edits runs db' := by
  intro id
  refine .stay ?_
  unfold Db.scheduleView Db.inputRowsOf Db.occurrencesOf
  rw [h.schedules, h.scheduleInputs, h.scheduleOccurrences]

/-! ### Creation -/

theorem insertScheduleInput_ok {scheduleId itemIndex : ℕ} {input : NewInputArtifact} {u : Unit}
    (h : insertScheduleInput scheduleId itemIndex input now db = .ok (u, db')) :
    ∃ row, StoredInput scheduleId now (input, itemIndex) row ∧
      row.scheduleId = scheduleId ∧ db'.scheduleInputs.rows = db.scheduleInputs.rows ++ [row] ∧
      db' = { db with scheduleInputs := db'.scheduleInputs } := by
  unfold insertScheduleInput at h
  simp only [Tx.bind_ok, lift_ok] at h
  obtain ⟨_, _, ⟨-, rfl⟩, _, _, ⟨-, rfl⟩, _, _, ⟨-, rfl⟩, _, _, ⟨-, rfl⟩, name, _, ⟨hname, rfl⟩,
    _, _, ⟨-, rfl⟩, hinsert⟩ := h
  obtain ⟨-, hchecks, -, rfl⟩ := insertScheduleInputRow_ok.mp hinsert
  exact ⟨_, ⟨⟨name, _, hname, rfl⟩, hchecks⟩, rfl, rfl, rfl⟩

theorem insertScheduleInputs_ok {scheduleId itemIndex : ℕ} {inputs : List NewInputArtifact}
    {u : Unit} (h : insertScheduleInputs scheduleId now itemIndex inputs db = .ok (u, db')) :
    ∃ rows, List.Forall₂ (StoredInput scheduleId now) (inputs.zipIdx itemIndex) rows ∧
      (∀ row ∈ rows, row.scheduleId = scheduleId) ∧
      db'.scheduleInputs.rows = db.scheduleInputs.rows ++ rows ∧
      db' = { db with scheduleInputs := db'.scheduleInputs } := by
  induction inputs generalizing db itemIndex with
  | nil =>
    cases h
    exact ⟨[], .nil, by simp, by simp, rfl⟩
  | cons input rest ih =>
    obtain ⟨u₁, db₁, hfirst, hrest⟩ := Tx.bind_ok.mp h
    obtain ⟨row, hrow, howned, happended, hframe⟩ := insertScheduleInput_ok hfirst
    obtain ⟨rows, hrows, hall, happended', hframe'⟩ := ih hrest
    refine ⟨row :: rows, .cons hrow hrows, ?_, ?_, ?_⟩
    · intro r hr
      rcases List.mem_cons.mp hr with rfl | hr
      · exact howned
      · exact hall r hr
    · rw [happended', happended, List.append_assoc]
      rfl
    · rw [hframe', hframe]

theorem createScheduleTx_ok {request : NewSchedule} {id : ℕ}
    (h : createScheduleTx request now db = .ok (id, db')) :
    ∃ rows, id = db.schedules.next ∧ (request.row request.name.asStr now id).Sound ∧
      List.Forall₂ (StoredInput id now) request.inputs.zipIdx rows ∧
      (∀ row ∈ rows, row.scheduleId = id) ∧
      db'.scheduleInputs.rows = db.scheduleInputs.rows ++ rows ∧
      db' = { db with
        schedules := db.schedules.insertNew (request.row request.name.asStr now)
        scheduleInputs := db'.scheduleInputs } := by
  unfold createScheduleTx at h
  simp only [Tx.bind_ok, lift_ok] at h
  obtain ⟨name, _, ⟨hname, rfl⟩, _, _, ⟨-, rfl⟩, _, _, ⟨-, rfl⟩, id', db₁, hinsert, _, db₂, hinputs,
    hret⟩ := h
  cases hret
  obtain rfl := JobName.stored hname
  obtain ⟨rfl, hid, hchecks, rfl⟩ := insertSchedule_ok.mp hinsert
  obtain ⟨rows, hrows, hall, happended, hframe⟩ := insertScheduleInputs_ok hinputs
  exact ⟨rows, rfl, ⟨hchecks, ⟨_, decodeJobName_asStr _⟩, db.schedules.positive, hid⟩, hrows, hall,
    happended, hframe⟩

theorem createScheduleTx_plans {request : NewSchedule} {id : ℕ} (hmakes : makes request)
    (hvalid : request.validate = .ok ())
    (h : createScheduleTx request now db = .ok (id, db')) : db.Plans makes edits runs db' := by
  obtain ⟨rows, rfl, hsound, hrows, hall, happended, hframe⟩ := createScheduleTx_ok h
  have hoccurrences : db'.scheduleOccurrences = db.scheduleOccurrences := by rw [hframe]
  have hget : ∀ j, db'.schedules.get? j = if j = db.schedules.next then
      some (request.row request.name.asStr now db.schedules.next) else db.schedules.get? j := by
    intro j
    rw [hframe]
    exact Table.get?_insertNew _ _ (by intro n; rfl) j
  intro j
  by_cases hj : j = db.schedules.next
  · subst hj
    have hown : rows.filter (fun i => i.scheduleId == db.schedules.next) = rows := by
      rw [List.filter_eq_self]
      intro i hi
      simp [hall i hi]
    refine .created request now (request.row request.name.asStr now db.schedules.next) rows hmakes
      hvalid (Table.get?_next _) ((hget _).trans (if_pos rfl)) rfl hsound hrows ?_ ?_
    · change db'.inputRowsOf _ = db.inputRowsOf _ ++ rows
      rw [Db.inputRowsOf, happended, List.filter_append, hown]
      rfl
    · change db'.occurrencesOf _ = db.occurrencesOf _
      rw [Db.occurrencesOf, hoccurrences]
      rfl
  · have hnone : rows.filter (fun i => i.scheduleId == j) = [] := by
      rw [List.filter_eq_nil_iff]
      intro i hi
      simpa [hall i hi] using fun h => hj h.symm
    refine .stay ?_
    unfold Db.scheduleView Db.inputRowsOf Db.occurrencesOf
    rw [hget j, if_neg hj, happended, List.filter_append, hnone, List.append_nil, hoccurrences]

theorem createSchedule_plans {request : NewSchedule} (hmakes : makes request) :
    Session.Moves (Db.Plans makes edits runs) (createSchedule request now) db := by
  refine Session.moves_lift_bind (.refl db) fun _ hvalid => ?_
  refine Session.moves_bind_read (Session.moves_commit (.refl db) ?_) ?_
  · intro id db' h
    exact createScheduleTx_plans hmakes hvalid h
  · intro id db'
    rfl

/-- A schedule that was created is stored. -/
theorem createSchedule_ok {request : NewSchedule} {id : ScheduleId}
    (h : createSchedule request now db = (.ok id, db')) :
    db'.schedules.get? id.get = some (request.row request.name.asStr now id.get) := by
  unfold createSchedule at h
  obtain ⟨_, -, h⟩ := Session.lift_bind_ok.mp h
  rw [Session.bind_run] at h
  rcases commit_cases (createScheduleTx request now) db with ⟨n, db₁, htx, hc⟩ | ⟨e, -, hc⟩
  · rw [hc] at h
    have hdecode : (decodeScheduleId n, db₁) = (.ok id, db') :=
      (Session.liftExcept_run _ _).symm.trans h
    obtain ⟨hid, rfl⟩ := Prod.mk.inj hdecode
    rw [decodeScheduleId_ok] at hid
    obtain ⟨rows, rfl, -, -, -, -, hframe⟩ := createScheduleTx_ok htx
    rw [hid, hframe]
    exact (Table.get?_insertNew _ _ (by intro n; rfl) _).trans (if_pos rfl)
  · rw [hc] at h
    cases h

/-! ### Edits -/

theorem validateScheduleFields_ok {intervalSeconds maxWidth jpegQuality inputCount : ℕ}
    {u : Unit} :
    validateScheduleFields intervalSeconds maxWidth jpegQuality inputCount = .ok u ↔
      (60 ≤ intervalSeconds ∧ intervalSeconds ≤ 31536000) ∧ (1 ≤ maxWidth ∧ maxWidth ≤ 8192) ∧
        (1 ≤ jpegQuality ∧ jpegQuality ≤ 100) ∧ 1 ≤ inputCount ∧ inputCount ≤ 10 := by
  unfold validateScheduleFields minScheduleIntervalSeconds maxScheduleIntervalSeconds
    maxOutputWidth maxFilesPerJob
  by_cases hinterval : 60 ≤ intervalSeconds ∧ intervalSeconds ≤ 31536000
  · simp only [if_neg (not_not.mpr hinterval)]
    by_cases hsettings : maxWidth = 0 ∨ 8192 < maxWidth ∨ ¬(1 ≤ jpegQuality ∧ jpegQuality ≤ 100)
    · simp only [if_pos hsettings]
      constructor
      · intro h
        cases h
      · omega
    · simp only [if_neg hsettings]
      by_cases hcount : inputCount = 0 ∨ 10 < inputCount
      · simp only [if_pos hcount]
        constructor
        · intro h
          cases h
        · omega
      · simp only [if_neg hcount]
        constructor
        · intro _
          omega
        · intro _
          rfl
  · simp only [if_pos hinterval]
    constructor
    · intro h
      cases h
    · exact fun h => absurd h.1 hinterval

theorem ScheduleRow.Sound.edited {s : ScheduleRow} {request : UpdateSchedule} {next : ℤ}
    (h : s.Sound) (hvalid : request.validate = .ok ()) :
    (s.edited request request.name.asStr next now).Sound := by
  obtain ⟨hinterval, hwidth, hquality, -⟩ := validateScheduleFields_ok.mp hvalid
  refine ⟨?_, ⟨_, decodeJobName_asStr _⟩, h.id⟩
  have hname : btrimLengthBetween 100 request.name.asStr = true := request.name.btrim
  simp [holdsAll, ScheduleRow.checks, ScheduleRow.edited, hname, hinterval, hwidth, hquality]

theorem updateScheduleTx_ok {id : ScheduleId} {request : UpdateSchedule} {next : ℤ}
    {owner : Option ℕ} {n : ℕ} (h : updateScheduleTx id request next owner now db = .ok (n, db')) :
    db' = db ∨ ∃ s, db.schedules.get? id.get = some s ∧
      (owner.all fun u => s.ownerUserId == u) = true ∧
      db' = db.setSchedule (s.edited request request.name.asStr next now) := by
  unfold updateScheduleTx at h
  simp only [Tx.bind_ok, lift_ok] at h
  obtain ⟨name, _, ⟨hname, rfl⟩, _, _, ⟨-, rfl⟩, _, _, ⟨-, rfl⟩, h⟩ := h
  obtain rfl := JobName.stored hname
  have hpin : ∀ r : ScheduleRow, (r.id == id.get && owner.all fun u => r.ownerUserId == u) = true →
      r.id = id.get := by
    intro r hr
    rw [Bool.and_eq_true, beq_iff_eq] at hr
    exact hr.1
  rcases updateSchedules_cases hpin h with ⟨-, rfl, -⟩ | ⟨-, s, hs, hp, rfl⟩
  · exact Or.inl rfl
  · exact Or.inr ⟨s, hs, (Bool.and_eq_true_iff.mp hp).2, rfl⟩

theorem setSchedule_view_of_ne {s : ScheduleRow} {id : ℕ} (h : s.id ≠ id) :
    (db.setSchedule s).scheduleView id = db.scheduleView id := by
  have hget : (db.schedules.put s).get? id = db.schedules.get? id := Table.get?_put_of_ne h
  unfold Db.scheduleView Db.setSchedule
  simp only [hget, Db.inputRowsOf, Db.occurrencesOf]

/-- The UPDATE of an edit runs and finds its row: the settings are valid, there is a slot after the
clock value, and the schedule is one that the caller may edit. -/
structure UpdateSchedule.Applies (request : UpdateSchedule) (db : Db) (id : ScheduleId) (asOf : ℤ)
    (owner : Option ℕ) : Prop where
  valid : request.validate = .ok ()
  slot : ∃ next, nextSlotAfter request.anchorAt request.intervalSeconds asOf = .ok next
  row : ∃ s, db.schedules.get? id.get = some s ∧ (owner.all fun u => s.ownerUserId == u) = true

theorem updateScheduleAtWithOwner_plans {id : ScheduleId} {request : UpdateSchedule}
    {owner : Option ℕ} (hsound : ∀ s ∈ db.schedules, s.Sound)
    (hedits : request.Applies db id asOf owner → edits id.get request asOf) :
    Session.Moves (Db.Plans makes edits runs) (updateScheduleAtWithOwner id request asOf owner now)
      db := by
  refine Session.moves_lift_bind (.refl db) fun _ hvalid => ?_
  refine Session.moves_lift_bind (.refl db) fun next hnext => ?_
  refine Session.moves_bind_read (Session.moves_commit (.refl db) ?_) fun _ _ => rfl
  intro n db' h
  rcases updateScheduleTx_ok h with rfl | ⟨s, hs, howner, rfl⟩
  · exact .refl db'
  · have hid : s.id = id.get := Table.key_of_get? hs
    replace hedits := hedits ⟨hvalid, ⟨next, hnext⟩, s, hs, howner⟩
    intro j
    by_cases hj : s.id = j
    · subst hj
      rw [← hid] at hs hedits
      exact .edited request asOf now next s _ hedits hvalid hnext hs (Table.get?_put_self hs rfl)
        ((hsound s (Table.mem_of_get? hs)).edited hvalid) rfl rfl
    · exact .stay (setSchedule_view_of_ne hj)

/-! ### Materializations -/

theorem Materializes.plans {candidate : ScheduleRow} {locked : List ℕ} {scheduledFor next : ℤ}
    {job : Option JobId} {coalesced : ℕ} (hruns : runs asOf)
    (hc : scheduleCandidate db (bindTimestamp asOf) locked = some candidate)
    (h : Materializes db candidate asOf now scheduledFor next job coalesced db₁ db') :
    db.Plans makes edits runs db' := by
  obtain ⟨hmem, -, hdue, -⟩ := scheduleCandidate_spec hc
  obtain ⟨hschedules, hinputs, hoccurrences⟩ := materializeJob_frame h.made
  have hget : db.schedules.get? candidate.id = some candidate := Table.get?_key hmem
  have hrow : ∀ j, (db'.scheduleView j).row =
      (db.schedules.put (candidate.advanced next now)).get? j := by
    intro j
    unfold Db.scheduleView
    rw [h.written, ← hschedules]
  have hsame : ∀ j, (db'.scheduleView j).inputs = db.inputRowsOf j := by
    intro j
    unfold Db.scheduleView Db.inputRowsOf
    rw [h.written, hinputs]
  have hocc : ∀ j, (db'.scheduleView j).occurrences = db.occurrencesOf j ++
      if candidate.id = j then [occurrenceRow candidate.id scheduledFor (job.map JobId.get)
        coalesced now db.scheduleOccurrences.next] else [] := by
    intro j
    unfold Db.scheduleView Db.occurrencesOf
    rw [h.written, ← hoccurrences]
    refine (Table.filter_insertNew _ _ (by intro n; rfl) _).trans ?_
    simp [occurrenceRow]
  intro j
  by_cases hj : candidate.id = j
  · subst hj
    refine .materialized asOf now scheduledFor next candidate
      (occurrenceRow candidate.id scheduledFor (job.map JobId.get) coalesced now
        db.scheduleOccurrences.next) hruns hget hdue h.slot rfl ?_
      ((hrow _).trans (Table.get?_put_self hget rfl)) (hsame _) ((hocc _).trans ?_)
    · intro p hp
      obtain ⟨hp, hid⟩ := mem_occurrencesOf.mp hp
      exact (h.free p hp).resolve_left (not_not.mpr hid)
    · rw [if_pos rfl]
      rfl
  · refine .stay ?_
    have hrow' : (db.schedules.put (candidate.advanced next now)).get? j = db.schedules.get? j :=
      Table.get?_put_of_ne hj
    have hocc' := hocc j
    rw [if_neg hj, List.append_nil] at hocc'
    have hview : db'.scheduleView j = ⟨(db'.scheduleView j).row, (db'.scheduleView j).inputs,
      (db'.scheduleView j).occurrences⟩ := rfl
    rw [hview, hrow j, hrow', hsame j, hocc']
    rfl

theorem materializeNextScheduleAt_plans {locked : List ℕ} (hruns : runs asOf) :
    Session.Moves (Db.Plans makes edits runs) (materializeNextScheduleAt asOf locked now) db := by
  refine materializeNextScheduleAt_moves (.refl db) ?_
  intro candidate scheduledFor next job coalesced db₁ db' hc h
  exact h.plans hruns hc

end Plans

end TaskHarbor
