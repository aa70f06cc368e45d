import TaskHarbor.Lifecycle.Pace
import TaskHarbor.Repository.Readers
import TaskHarbor.System.Cancel

/-! What a job record shows that was read by three statements at three moments of a run. -/
namespace TaskHarbor

open Relational Transaction Runs

/-! ### Decoded rows -/

section Decode

variable {db : Db} {id : ℕ}

theorem ArtifactRecord.tryFrom_shows {a : ArtifactRow} {record : ArtifactRecord}
    (h : ArtifactRecord.tryFrom a = .ok record) :
    record.kind = a.kind ∧ record.id = a.id ∧ record.sourceArtifactId = a.sourceArtifactId ∧
      record.itemIndex = a.itemIndex := by
  unfold ArtifactRecord.tryFrom at h
  obtain ⟨-, h⟩ := except_unless_ok.mp h
  obtain ⟨jobId, -, h⟩ := except_bind_ok.mp h
  cases h
  exact ⟨rfl, rfl, rfl, rfl⟩

theorem AttemptRecord.tryFrom_shows {a : AttemptRow} {name : Option String} {record : AttemptRecord}
    (h : AttemptRecord.tryFrom a name = .ok record) :
    record.status = a.state ∧ record.progressCompleted = a.progressCompleted ∧
      record.progressTotal = a.progressTotal := by
  unfold AttemptRecord.tryFrom at h
  obtain ⟨-, h⟩ := except_unless_ok.mp h
  cases h
  exact ⟨rfl, rfl, rfl⟩

/-- Decoding keeps each kind of artifacts apart, and what the manifest is about. -/
theorem tryFrom_filter_map {rows : List ArtifactRow} {records : List ArtifactRecord}
    (h : List.Forall₂ (fun a record => ArtifactRecord.tryFrom a = .ok record) rows records)
    (kind : ArtifactKind) :
    ((records.filter fun x => x.kind == kind).map fun x => (x.id, x.sourceArtifactId, x.itemIndex))
      = (rows.filter fun a => a.kind == kind).map fun a =>
        (a.id, a.sourceArtifactId, a.itemIndex) := by
  induction h with
  | nil => rfl
  | @cons a record rows records hfirst hrest ih =>
    obtain ⟨hkind, hid, hsource, hindex⟩ := ArtifactRecord.tryFrom_shows hfirst
    simp only [List.filter_cons, hkind]
    split
    · rw [List.map_cons, List.map_cons, ih, hid, hsource, hindex]
    · exact ih

/-- The listed artifacts of one kind are those of the database, in some order. -/
theorem loadArtifacts_perm {artifacts : List ArtifactRecord}
    (h : loadArtifacts db id = .ok artifacts) (kind : ArtifactKind) :
    ((artifacts.filter fun x => x.kind == kind).map fun x =>
      (x.id, x.sourceArtifactId, x.itemIndex)).Perm
    ((db.artifactsOf id kind).map fun a => (a.id, a.sourceArtifactId, a.itemIndex)) := by
  rw [tryFrom_filter_map (except_mapM_ok.mp h) kind]
  have hperm := (List.perm_insertionSort artifactOrder
    (db.artifacts.rows.filter fun a => a.jobId == id)).filter fun a => a.kind == kind
  rw [List.filter_filter] at hperm
  have hsame : (db.artifacts.rows.filter fun a => a.kind == kind && a.jobId == id) =
      db.artifactsOf id kind := by
    unfold Db.artifactsOf
    simp only [Bool.and_comm]
  rw [hsame] at hperm
  exact hperm.map _

theorem loadAttempts_mem {attempts : List AttemptRecord} (h : loadAttempts db id = .ok attempts) :
    (∀ record ∈ attempts, ∃ a ∈ db.attemptsOf id, record.status = a.state ∧
      record.progressCompleted = a.progressCompleted ∧ record.progressTotal = a.progressTotal) ∧
    ∀ a ∈ db.attemptsOf id, ∃ record ∈ attempts, record.status = a.state := by
  have hrows := except_mapM_ok.mp h
  have hmem : ∀ a, a ∈ (db.attemptsOf id).insertionSort attemptOrder ↔ a ∈ db.attemptsOf id :=
    fun a => List.mem_insertionSort attemptOrder
  constructor
  · intro record hrecord
    obtain ⟨a, ha, hdecode⟩ := forall₂_mem_right hrows hrecord
    exact ⟨a, (hmem a).mp ha, AttemptRecord.tryFrom_shows hdecode⟩
  · intro a ha
    obtain ⟨record, hrecord, hdecode⟩ := forall₂_mem_right hrows.flip ((hmem a).mpr ha)
    exact ⟨record, hrecord, (AttemptRecord.tryFrom_shows hdecode).1⟩

end Decode

/-! ### Records -/

def JobRecord.artifactsOf (record : JobRecord) (kind : ArtifactKind) : List ArtifactRecord :=
  record.artifacts.filter fun x => x.kind == kind

/-- One output for each input. -/
def JobRecord.Complete (record : JobRecord) : Prop :=
  ((record.artifactsOf .output).map fun x => (x.sourceArtifactId, x.itemIndex)).Perm
    ((record.artifactsOf .input).map fun x => (some x.id, x.itemIndex))

def JobRecord.Progresses (record : JobRecord) (completed total : ℕ) : Prop :=
  ∀ a ∈ record.attempts, a.status = .running →
    a.progressCompleted = completed ∧ a.progressTotal = total

def JobRecord.Runs (record : JobRecord) : Prop := ∃ a ∈ record.attempts, a.status = .running

/-- The lifecycle rules of one database state. -/
structure JobRecord.Ruled (record : JobRecord) : Prop where
  outputs : record.artifactsOf .output ≠ [] → record.status = .succeeded ∧ record.Complete
  running : record.Runs ↔ record.status.isActive = true
  progress : record.Progresses record.progressCompleted record.progressTotal

/-- A record of a job row of `s`, of artifacts of `t` and of attempts of `u`. -/
structure JobRecord.Assembled (record : JobRecord) (s t u : Db) : Prop where
  row : ∃ r ∈ s.jobs, record.Shows r
  outputs : record.artifactsOf .output ≠ [] → record.Complete ∧
    ∃ r, t.jobs.get? record.id.get = some r ∧ r.state = .succeeded
  attempts : ∃ r, u.jobs.get? record.id.get = some r ∧ (record.Runs ↔ r.state.isActive = true) ∧
    record.Progresses r.progressCompleted r.progressTotal
  terminal : record.status.isTerminal = true → record.Ruled
  still : t.view record.id.get = s.view record.id.get →
    u.view record.id.get = s.view record.id.get → record.Ruled

theorem System.Reachable.paced {s : System} (hs : s.Reachable) (id : ℕ) : (s.db.view id).Paced := by
  obtain ⟨now, hrun⟩ := hs
  have hboth : s.Inv ∧ ∀ id, (s.db.view id).Paced := by
    refine hrun.invariant (P := fun s => s.Inv ∧ ∀ id, (s.db.view id).Paced) ?_ ?_
    · intro s op t hs _ hstep
      refine ⟨hs.1.step hstep, fun id => ?_⟩
      exact ((System.step_db hs.1 hstep).turns id).paced (hs.1.db.lifecycle id) (hs.2 id)
    · refine ⟨System.Inv.initial now, fun id r hr => ?_⟩
      cases hr
  exact hboth.2 id

section Reads

variable {db : Db} {record : JobRecord} {r : JobRow}

theorem JobStatus.Admits.running_iff {state : JobStatus} {attempts : List AttemptRow}
    (h : state.Admits attempts) :
    (∃ a ∈ attempts, a.state = .running) ↔ state.isActive = true := by
  constructor
  · rintro ⟨a, ha, hrun⟩
    obtain ⟨l₁, l₂, hsplit⟩ := List.append_of_mem ha
    exact (h.split hsplit hrun).1
  · intro hactive
    obtain ⟨earlier, a, rfl, -, hrun⟩ := h.of_isActive hactive
    exact ⟨a, by simp, hrun⟩

/-- The outputs in one state are complete. -/
theorem loadArtifacts_complete (hinv : db.Inv) (hr : db.jobs.get? record.id.get = some r)
    (h : loadArtifacts db record.id.get = .ok record.artifacts)
    (hsome : record.artifactsOf .output ≠ []) : record.Complete ∧ r.state = .succeeded := by
  have houtputs := loadArtifacts_perm h .output
  have hinputs := loadArtifacts_perm h .input
  have hmanifested := (hinv.manifest record.id.get).manifested (hinv.lifecycle record.id.get) hr
  have hne : db.artifactsOf record.id.get .output ≠ [] := by
    intro hnil
    rw [hnil, List.map_nil, List.perm_nil, List.map_eq_nil_iff] at houtputs
    exact hsome houtputs
  obtain ⟨hstate, himage⟩ := hmanifested.onlySucceeded hne
  have hshown : r.outputsExpiredAt = none := by
    cases hexpired : r.outputsExpiredAt with
    | none => rfl
    | some e => exact absurd (hmanifested.expired (by rw [hexpired]; rfl)) hne
  have hcomplete := hmanifested.complete hstate himage hshown
  have houts := houtputs.map fun x : ℕ × Option ℕ × ℕ => (x.2.1, x.2.2)
  have hins := hinputs.map fun x : ℕ × Option ℕ × ℕ => (some x.1, x.2.2)
  rw [List.map_map, List.map_map] at houts hins
  exact ⟨houts.trans (hcomplete.trans hins.symm), hstate⟩

/-- The attempts in one state stand in step with the job in that state. -/
theorem loadAttempts_inStep (hinv : db.Inv) (hpaced : (db.view record.id.get).Paced)
    (hr : db.jobs.get? record.id.get = some r)
    (h : loadAttempts db record.id.get = .ok record.attempts) :
    (record.Runs ↔ r.state.isActive = true) ∧
      record.Progresses r.progressCompleted r.progressTotal := by
  obtain ⟨hdecoded, hlisted⟩ := loadAttempts_mem h
  have hadmits := ((hinv.lifecycle record.id.get).course r hr).admits
  constructor
  · refine Iff.trans ?_ hadmits.running_iff
    constructor
    · rintro ⟨x, hx, hrun⟩
      obtain ⟨a, ha, hstate, -⟩ := hdecoded x hx
      exact ⟨a, ha, hstate.symm.trans hrun⟩
    · rintro ⟨a, ha, hrun⟩
      obtain ⟨x, hx, hstate⟩ := hlisted a ha
      exact ⟨x, hx, hstate.trans hrun⟩
  · intro x hx hrun
    obtain ⟨a, ha, hstate, hcompleted, htotal⟩ := hdecoded x hx
    obtain ⟨hpace, hpace'⟩ := hpaced r hr a ha (hstate.symm.trans hrun)
    exact ⟨hcompleted.trans hpace, htotal.trans hpace'⟩

theorem readJobAcross_shows {t u : Db} (h : readJobAcross t u r = .ok record) :
    record.Shows r ∧ loadArtifacts t record.id.get = .ok record.artifacts ∧
      loadAttempts u record.id.get = .ok record.attempts := by
  obtain ⟨artifacts, hartifacts, h⟩ := except_bind_ok.mp h
  obtain ⟨attempts, hattempts, h⟩ := except_bind_ok.mp h
  obtain ⟨hshows, rfl, rfl⟩ := JobRow.tryIntoRecord_shows h
  rw [hshows.id]
  exact ⟨hshows, hartifacts, hattempts⟩

end Reads

section Assembled

variable {s t u : System} {ok : System → Op → Prop} {record : JobRecord} {r : JobRow}

/-- A job stays. -/
theorem job_run {id : ℕ} (hinv : s.Inv) (hrun : Run System.step ok s t)
    (hr : s.db.jobs.get? id = some r) : ∃ r', t.db.jobs.get? id = some r' := by
  induction hrun with
  | refl => exact ⟨r, hr⟩
  | tail op hrun _ hstep ih =>
    obtain ⟨r', hr'⟩ := ih
    have hmid := hinv.run hrun
    obtain ⟨r'', hr'', -⟩ := ((System.step_db hmid hstep).turns id).keeps.job r' hr'
    exact ⟨r'', hr''⟩

/-- A record whose job has the status and progress of its row in the two later states. -/
theorem JobRecord.ruled_of_rows {rt ru : JobRow} (hshows : record.Shows r)
    (houtputs : record.artifactsOf .output ≠ [] → record.Complete ∧ rt.state = .succeeded)
    (hattempts : (record.Runs ↔ ru.state.isActive = true) ∧
      record.Progresses ru.progressCompleted ru.progressTotal)
    (ht : rt.state = r.state) (hu : ru.state = r.state)
    (hprogress : ru.progressCompleted = r.progressCompleted ∧ ru.progressTotal = r.progressTotal) :
    record.Ruled := by
  refine ⟨fun hsome => ?_, ?_, ?_⟩
  · obtain ⟨hcomplete, hstate⟩ := houtputs hsome
    exact ⟨hshows.status.trans (ht.symm.trans hstate), hcomplete⟩
  · rw [hshows.status, ← hu]
    exact hattempts.1
  · rw [hshows.progress.1, hshows.progress.2, ← hprogress.1, ← hprogress.2]
    exact hattempts.2

theorem readJobAcross_assembled (hs : s.Reachable) (hst : Run System.step ok s t)
    (htu : Run System.step ok t u) (hr : r ∈ s.db.jobs)
    (h : readJobAcross t.db u.db r = .ok record) : record.Assembled s.db t.db u.db := by
  have ht := hs.run hst
  have hu := ht.run htu
  obtain ⟨hshows, hartifacts, hattempts⟩ := readJobAcross_shows h
  have hget : s.db.jobs.get? record.id.get = some r := by
    rw [hshows.id]
    exact Table.get?_key hr
  obtain ⟨rt, hrt⟩ := job_run hs.inv hst hget
  obtain ⟨ru, hru⟩ := job_run ht.inv htu hrt
  have houtputs := loadArtifacts_complete ht.inv.db hrt hartifacts
  have hinStep := loadAttempts_inStep hu.inv.db (hu.paced _) hru hattempts
  refine ⟨⟨r, hr, hshows⟩, ?_, ⟨ru, hru, hinStep⟩, ?_, ?_⟩
  · intro hsome
    exact ⟨(houtputs hsome).1, rt, hrt, (houtputs hsome).2⟩
  · intro hterminal
    rw [hshows.status] at hterminal
    rw [hshows.id] at hget hrt hru
    obtain ⟨⟨e, he⟩, -⟩ := terminal_run hs.inv hget hterminal hst
    obtain ⟨⟨e', he'⟩, -⟩ := terminal_run hs.inv hget hterminal (hst.trans htu)
    obtain rfl := Option.some.inj (hrt.symm.trans he)
    obtain rfl := Option.some.inj (hru.symm.trans he')
    exact JobRecord.ruled_of_rows hshows houtputs hinStep rfl rfl ⟨rfl, rfl⟩
  · intro hstill hstill'
    have hjobt : t.db.jobs.get? record.id.get = s.db.jobs.get? record.id.get :=
      congrArg JobView.job hstill
    have hjobu : u.db.jobs.get? record.id.get = s.db.jobs.get? record.id.get :=
      congrArg JobView.job hstill'
    obtain rfl : rt = r := Option.some.inj (hrt.symm.trans (hjobt.trans hget))
    obtain rfl : ru = rt := Option.some.inj (hru.symm.trans (hjobu.trans hget))
    exact JobRecord.ruled_of_rows hshows houtputs hinStep rfl rfl ⟨rfl, rfl⟩

end Assembled

/-- What `get` and `list` return, when each of their statements sees its own moment of a run. -/
theorem readers_assemble {moment : ℕ → System} (hs : (moment 0).Reachable)
    (hrun : ∀ k, Run System.step Always (moment k) (moment (k + 1))) (owner : Option ℕ) :
    (∀ id record, getWithOwnerAcross id owner (fun k => (moment k).db) = .ok (some record) →
      record.Assembled (moment 0).db (moment 1).db (moment 2).db) ∧
    ∀ records, listWithOwner owner (fun k => (moment k).db) = .ok records →
      ∀ record ∈ records, ∃ i,
        record.Assembled (moment 0).db (moment (i + 1)).db (moment (i + 2)).db := by
  have hruns : ∀ k, Run System.step Always (moment 0) (moment k) := by
    intro k
    induction k with
    | zero => exact .refl _
    | succ k ih => exact ih.trans (hrun k)
  constructor
  · intro id record h
    obtain ⟨r, hr, -, -, hread⟩ := getWithOwnerAcross_some h
    exact readJobAcross_assembled hs (hruns 1) (hrun 1) hr hread
  · intro records h record hrecord
    obtain ⟨r, hr, -, i, hread⟩ := listWithOwner_mem h hrecord
    exact ⟨i, readJobAcross_assembled hs (hruns (i + 1)) (hrun (i + 1)) hr hread⟩

/-! A completion between the first two statements of `get`. -/

/-- The moments of a reader whose first statement sees `s`. -/
def momentsOf (s t : System) : ℕ → System
  | 0 => s
  | _ + 1 => t

def showsRunningOutputs (s t : System) : Bool :=
  match getWithOwnerAcross jobOne none (fun k => (momentsOf s t k).db) with
  | .ok (some record) => record.status == .running && !(record.artifactsOf .output).isEmpty
  | _ => false

theorem running_with_outputs : ∃ s t : System, s.Reachable ∧ Run System.step Always s t ∧
    ∃ record, getWithOwnerAcross jobOne none (fun k => (momentsOf s t k).db) = .ok (some record) ∧
      record.status = .running ∧ record.artifactsOf .output ≠ [] := by
  have hrun : (exec System.step (System.initial 0) sampleImageOps).any (fun s =>
      s.claims.any fun claimed =>
        (s.step (.completeImageJob claimed 3 sampleOutputs)).any fun t =>
          showsRunningOutputs s t) = true := by
    decide +kernel
  obtain ⟨s, hexec, hrest⟩ := (Option.any_eq_true _ _).mp hrun
  obtain ⟨claimed, -, hrest⟩ := List.any_eq_true.mp hrest
  obtain ⟨t, hstep, hshown⟩ := (Option.any_eq_true _ _).mp hrest
  refine ⟨s, t, reachable_of_exec hexec, .single _ trivial hstep, ?_⟩
  unfold showsRunningOutputs at hshown
  rcases hread : getWithOwnerAcross jobOne none (fun k => (momentsOf s t k).db) with e | _ | record
  · rw [hread] at hshown
    cases hshown
  · rw [hread] at hshown
    cases hshown
  · rw [hread] at hshown
    obtain ⟨hstatus, houtputs⟩ := Bool.and_eq_true_iff.mp hshown
    exact ⟨record, rfl, by simpa using hstatus, by simpa using houtputs⟩

theorem momentsOf_run {s t : System} (h : Run System.step Always s t) (k : ℕ) :
    Run System.step Always (momentsOf s t k) (momentsOf s t (k + 1)) := by
  cases k with
  | zero => exact h
  | succ k => exact .refl t

theorem readers_assemble_torn : ∃ (moment : ℕ → System) (record : JobRecord),
    record.status = .running ∧ record.artifactsOf .output ≠ [] ∧
    record.Assembled (moment 0).db (moment 1).db (moment 2).db := by
  obtain ⟨s, t, hs, hrun, record, hread, hstatus, houtputs⟩ := running_with_outputs
  have hassembled := @readers_assemble (momentsOf s t) hs (momentsOf_run hrun)
  exact ⟨momentsOf s t, record, hstatus, houtputs,
    (hassembled none).1 jobOne record hread⟩

/-- Not every record obeys the rules of one state. -/
theorem torn_record : ¬∀ moment : ℕ → System, (moment 0).Reachable →
    (∀ k, Run System.step Always (moment k) (moment (k + 1))) → ∀ id owner record,
      getWithOwnerAcross id owner (fun k => (moment k).db) = .ok (some record) → record.Ruled := by
  obtain ⟨s, t, hs, hrun, record, hread, hstatus, houtputs⟩ := running_with_outputs
  intro hclaim
  have hruled := hclaim (momentsOf s t) hs (momentsOf_run hrun) jobOne none record hread
  cases hstatus.symm.trans (hruled.outputs houtputs).1

end TaskHarbor
