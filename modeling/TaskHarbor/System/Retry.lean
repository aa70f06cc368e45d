import TaskHarbor.System.Cancel
import TaskHarbor.System.Stock

/-! Chains of manual retries, at any distance in time. The settings of the first job and its inputs
reach the last job, but for the checksums: the copy of the inputs leaves that column out, while the
copy of a schedule's inputs carries it. -/
namespace TaskHarbor

open Relational Transaction Runs

/-! ### Snapshots -/

/-- What a retry has to run like the job it repeats. -/
structure JobSnapshot where
  name : String
  jobType : JobType
  maxWidth : Option ℕ
  jpegQuality : Option ℕ
  delayMs : ℕ
  priority : JobPriority
  maxAttempts : ℕ
  ownerUserId : ℕ
  progressTotal : ℕ

def JobRow.snapshot (r : JobRow) : JobSnapshot where
  name := r.name
  jobType := r.jobType
  maxWidth := r.maxWidth
  jpegQuality := r.jpegQuality
  delayMs := r.delayMs
  priority := r.priority
  maxAttempts := r.maxAttempts
  ownerUserId := r.ownerUserId
  progressTotal := r.progressTotal

/-- The data of an input file, wherever its row is. -/
structure InputItem where
  itemIndex : ℕ
  storageKey : String
  displayName : String
  mediaType : String
  byteSize : ℕ
  width : ℕ
  height : ℕ
  checksumSha256 : Option (List UInt8)

def ArtifactRow.item (a : ArtifactRow) : InputItem where
  itemIndex := a.itemIndex
  storageKey := a.storageKey
  displayName := a.displayName
  mediaType := a.mediaType
  byteSize := a.byteSize
  width := a.width
  height := a.height
  checksumSha256 := a.checksumSha256

def ScheduleInputRow.item (i : ScheduleInputRow) : InputItem where
  itemIndex := i.itemIndex
  storageKey := i.storageKey
  displayName := i.displayName
  mediaType := i.mediaType
  byteSize := i.byteSize
  width := i.width
  height := i.height
  checksumSha256 := i.checksumSha256

theorem JobRow.snapshot_of_template {r r' : JobRow} (h : r'.template = r.template) :
    r'.snapshot = r.snapshot := by
  have hsame : r'.template.snapshot = r.template.snapshot := by rw [h]
  exact hsame

theorem retryCopy_item (a : ArtifactRow) (jobId : ℕ) (now : ℤ) (id : ℕ) :
    (a.retryCopy jobId now id).item = { a.item with checksumSha256 := none } := rfl

/-- The copy of a retry is the copy of an occurrence exactly when there is no checksum to lose. -/
theorem retryCopy_eq_artifact {a : ArtifactRow} (hkind : a.kind = .input) {i : ScheduleInputRow}
    (hitem : i.item = a.item) (jobId : ℕ) (now : ℤ) (id : ℕ) :
    a.retryCopy jobId now id = i.artifact jobId now id ↔ a.checksumSha256 = none := by
  obtain ⟨hindex, hkey, hname, htype, hsize, hwidth, hheight, hsum⟩ :=
    (InputItem.mk.injEq ..).mp hitem
  constructor
  · intro h
    have hnone : (none : Option (List UInt8)) = i.checksumSha256 :=
      congrArg ArtifactRow.checksumSha256 h
    rw [← hsum, ← hnone]
  · intro hnone
    rw [hnone] at hsum
    unfold ArtifactRow.retryCopy ScheduleInputRow.artifact
    rw [hindex, hkey, hname, htype, hsize, hwidth, hheight, hsum, hkind]

/-! ### One retry -/

section Step

variable {now : ℤ} {db db' : Db} {id : JobId} {owner : Option ℕ} {newId : ℕ}

/-- What a manual retry leaves: the copied job and its copied inputs, and every other row. -/
structure Retried (db : Db) (id newId : ℕ) (db' : Db) : Prop where
  source : ∃ r, db.jobs.get? id = some r ∧ (r.state = .failed ∨ r.state = .cancelled) ∧
    ∃ r', db'.jobs.get? newId = some r' ∧ r'.snapshot = r.snapshot ∧ r'.state = .queued ∧
      r'.scheduleId = none ∧ r'.scheduledFor = none
  attempts : db'.attemptsOf newId = []
  outputs : db'.artifactsOf newId .output = []
  inputs : (db'.artifactsOf newId .input).map ArtifactRow.item =
    (db.artifactsOf id .input).map fun a => { a.item with checksumSha256 := none }
  others : ∀ j, j ≠ newId → db'.view j = db.view j

theorem manualRetryTx_retried (hinv : db.Inv)
    (h : manualRetryTx id owner now db = .ok (some newId, db')) :
    Retried db id.get newId db' := by
  rcases manualRetryTx_ok h with ⟨-, hnone, -⟩ |
    ⟨source, newId', db₁, rows, hget, -, hended, hnew, hinsert, happended, hrows⟩
  · cases hnone
  cases hnew
  have hid : source.id = id.get := Table.key_of_get? hget
  have hothers : ∀ j, newId ≠ j → db'.view j = db.view j :=
    fun _ => view_created_of_ne hinsert happended
  obtain ⟨rfl, -, -, -, rfl⟩ := insertJob_ok.mp hinsert
  have hempty := (hinv.lifecycle db.jobs.next).absent (Table.get?_next _)
  refine ⟨⟨source, hget, hended, source.retryCopy now db.jobs.next, ?_, rfl, rfl, rfl, rfl⟩, ?_, ?_,
    ?_, ?_⟩
  · rw [happended.jobs]
    exact (Table.get?_insertNew _ _ (by intro n; rfl) _).trans (if_pos rfl)
  · rw [Db.attemptsOf, happended.jobAttempts]
    exact hempty.1
  · rw [happended.artifactsOf_of_ne (Or.inr (by decide))]
    exact hempty.2.2
  · have hold : db.artifactsOf db.jobs.next .input = [] := hempty.2.1
    rw [happended.artifactsOf]
    show (db.artifactsOf db.jobs.next .input ++ rows).map ArtifactRow.item = _
    rw [hold, List.nil_append, ← hid]
    refine map_eq_of_forall₂ hrows ?_
    rintro a b ⟨i, rfl⟩
    exact retryCopy_item a _ _ i
  · exact fun j hj => hothers j hj.symm

end Step

/-! ### Chains -/

/-- Manual retries in a row from job `first` in state `s`: each of the job that the one before made,
at any later time. The list holds each retried job with the state it was retried in. -/
inductive Retries (s : System) (first : ℕ) : List (System × ℕ) → System → ℕ → Prop
  | none : Retries s first [] s first
  | more {sources : List (System × ℕ)} {t : System} {id : ℕ} (u : System) (jobId : JobId)
      (owner : Option ℕ) (newId : ℕ) (db' : Db) (before : Retries s first sources t id)
      (later : Run System.step Always t u) (source : jobId.get = id)
      (retried : manualRetryTx jobId owner u.now u.db = .ok (some newId, db')) :
      Retries s first (sources ++ [(u, id)]) (u.apply (.manualRetry jobId owner)) newId

/-- What the chain promises of its last job, and of every job that was retried on the way. -/
structure SnapshotKept (s : System) (first : ℕ) (sources : List (System × ℕ)) (t : System)
    (last : ℕ) : Prop where
  job : ∃ r r', s.db.jobs.get? first = some r ∧ t.db.jobs.get? last = some r' ∧
    r'.snapshot = r.snapshot ∧ r'.state = .queued ∧ r'.scheduleId = none ∧ r'.scheduledFor = none
  attempts : t.db.attemptsOf last = []
  outputs : t.db.artifactsOf last .output = []
  inputs : ((t.db.artifactsOf last .input).map ArtifactRow.item).Perm
    ((s.db.artifactsOf first .input).map ArtifactRow.item)
  retried : ∀ p ∈ sources, ∃ r, p.1.db.jobs.get? p.2 = some r ∧
    (∃ e, t.db.jobs.get? p.2 = some { r with outputsExpiredAt := e }) ∧
    t.db.attemptsOf p.2 = p.1.db.attemptsOf p.2 ∧
    t.db.artifactsOf p.2 .input = p.1.db.artifactsOf p.2 .input
  copies : ∀ a ∈ s.db.artifactsOf first .input, ∀ i : ScheduleInputRow, i.item = a.item →
    ∀ jobId now id, a.retryCopy jobId now id = i.artifact jobId now id

section Chain

variable {s t u : System} {first last : ℕ} {sources : List (System × ℕ)} {jobId : JobId}
  {owner : Option ℕ} {newId : ℕ} {db' : Db}

theorem apply_manualRetry_db
    (h : manualRetryTx jobId owner u.now u.db = .ok (some newId, db')) :
    (u.apply (.manualRetry jobId owner)).db = db' := by
  show (manualRetry jobId owner u.now u.db).2 = db'
  unfold manualRetry
  rw [Session.commit_bind_ok h]
  simp only [Session.bind_run, Session.liftExcept_run]
  cases decodeJobId newId <;> rfl

theorem step_manualRetry (u : System) (jobId : JobId) (owner : Option ℕ) :
    u.step (.manualRetry jobId owner) = some (u.apply (.manualRetry jobId owner)) :=
  System.step_eq_some.mpr ⟨rfl, rfl⟩

theorem Retries.run (h : Retries s first sources t last) : Run System.step Always s t := by
  induction h with
  | none => exact .refl s
  | more u jobId owner newId db' before later source retried ih =>
    exact (ih.trans later).trans (.single _ trivial (step_manualRetry u jobId owner))

/-- The fixed columns and the inputs of a job that is there stay over a run. -/
theorem snapshot_run (hinv : s.Inv) (hrun : Run System.step Always s t) {id : ℕ} {r : JobRow}
    (hr : s.db.jobs.get? id = some r) :
    (∃ r', t.db.jobs.get? id = some r' ∧ r'.template = r.template) ∧
      t.db.artifactsOf id .input = s.db.artifactsOf id .input := by
  refine (hrun.invariant (P := fun t => t.Inv ∧
    (∃ r', t.db.jobs.get? id = some r' ∧ r'.template = r.template) ∧
      t.db.artifactsOf id .input = s.db.artifactsOf id .input) ?_ ⟨hinv, ⟨r, hr, rfl⟩, rfl⟩).2
  rintro u op v ⟨hinv, ⟨r', hr', htemplate⟩, hinputs⟩ - he
  have hkeeps := ((System.step_db hinv he).turns id).keeps
  obtain ⟨r'', hr'', htemplate'⟩ := hkeeps.job r' hr'
  refine ⟨hinv.step he, ⟨r'', hr'', htemplate'.trans htemplate⟩, ?_⟩
  refine (hkeeps.inputs ?_).trans hinputs
  show (u.db.jobs.get? id).isSome = true
  rw [hr']
  rfl

def ArtifactRow.blank (a : ArtifactRow) : InputItem := { a.item with checksumSha256 := none }

/-- Blanking the checksums of items twice is blanking them once. -/
theorem map_blank {l l' : List ArtifactRow}
    (h : l.map ArtifactRow.item = l'.map ArtifactRow.blank) :
    l.map ArtifactRow.blank = l'.map ArtifactRow.blank := by
  have hmap := congrArg (List.map fun x : InputItem => { x with checksumSha256 := none }) h
  rw [List.map_map, List.map_map] at hmap
  exact hmap

/-- Every job of the chain shows the first one, up to the checksums. -/
theorem Retries.shows (hs : s.Reachable) {r : JobRow} (hr : s.db.jobs.get? first = some r)
    (h : Retries s first sources t last) :
    (∃ r', t.db.jobs.get? last = some r' ∧ r'.snapshot = r.snapshot) ∧
      (t.db.artifactsOf last .input).map ArtifactRow.blank =
        (s.db.artifactsOf first .input).map ArtifactRow.blank := by
  induction h with
  | none => exact ⟨⟨r, hr, rfl⟩, rfl⟩
  | more u jobId owner newId db' before later source retried ih =>
    subst source
    obtain ⟨⟨r₁, hr₁, hsnapshot⟩, hinputs⟩ := ih
    have hreachable := hs.run before.run
    obtain ⟨⟨r₂, hr₂, htemplate⟩, hkept⟩ := snapshot_run hreachable.inv later hr₁
    have hstep := manualRetryTx_retried (hreachable.run later).inv.db retried
    obtain ⟨r₃, hr₃, -, r', hr', hcopied, -⟩ := hstep.source
    obtain rfl : r₂ = r₃ := Option.some.inj (hr₂.symm.trans hr₃)
    rw [apply_manualRetry_db retried]
    refine ⟨⟨r', hr', ?_⟩, ?_⟩
    · rw [hcopied, JobRow.snapshot_of_template htemplate, hsnapshot]
    · rw [map_blank hstep.inputs, hkept, hinputs]

/-- Each retried job was over when it was retried. -/
theorem Retries.over (hs : s.Reachable) (h : Retries s first sources t last) :
    ∀ p ∈ sources, p.1.Reachable ∧ Run System.step Always p.1 t ∧
      ∃ r, p.1.db.jobs.get? p.2 = some r ∧ r.state.isTerminal = true := by
  induction h with
  | none => simp
  | more u jobId owner newId db' before later source retried ih =>
    subst source
    have hreachable := (hs.run before.run).run later
    have hlast : Run System.step Always u (u.apply (.manualRetry jobId owner)) :=
      .single _ trivial (step_manualRetry u jobId owner)
    intro p hp
    rcases List.mem_append.mp hp with hp | hp
    · obtain ⟨hp, hrun, hover⟩ := ih p hp
      exact ⟨hp, (hrun.trans later).trans hlast, hover⟩
    · rw [List.mem_singleton.mp hp]
      obtain ⟨r, hr, hended, -⟩ := (manualRetryTx_retried hreachable.inv.db retried).source
      refine ⟨hreachable, hlast, r, hr, ?_⟩
      rcases hended with hended | hended <;> rw [hended] <;> rfl

/-- The items of the last job are those of the first job without their checksums. -/
theorem retries_ends (hs : s.Reachable) {r : JobRow} (hr : s.db.jobs.get? first = some r)
    (h : Retries s first sources t last) (hsome : sources ≠ []) :
    (∃ r', t.db.jobs.get? last = some r' ∧ r'.snapshot = r.snapshot ∧ r'.state = .queued ∧
      r'.scheduleId = none ∧ r'.scheduledFor = none) ∧
    t.db.attemptsOf last = [] ∧ t.db.artifactsOf last .output = [] ∧
    (t.db.artifactsOf last .input).map ArtifactRow.item =
      (s.db.artifactsOf first .input).map ArtifactRow.blank := by
  have hshows := h.shows hs hr
  cases h with
  | none => exact absurd rfl hsome
  | more u jobId owner newId db' before later source retried =>
    subst source
    have hreachable := hs.run before.run
    have hstep := manualRetryTx_retried (hreachable.run later).inv.db retried
    obtain ⟨r₃, -, -, r', hr', -, hqueued, hschedule, hslot⟩ := hstep.source
    rw [apply_manualRetry_db retried] at hshows ⊢
    obtain ⟨⟨r'', hr'', hsnapshot⟩, hinputs⟩ := hshows
    obtain rfl : r' = r'' := Option.some.inj (hr'.symm.trans hr'')
    refine ⟨⟨r', hr', hsnapshot, hqueued, hschedule, hslot⟩, hstep.attempts, hstep.outputs, ?_⟩
    have hsame : (db'.artifactsOf last .input).map ArtifactRow.item =
        (db'.artifactsOf last .input).map ArtifactRow.blank :=
      hstep.inputs.trans (map_blank hstep.inputs).symm
    rw [hsame, hinputs]

theorem blank_eq_item {a : ArtifactRow} : a.blank = a.item ↔ a.checksumSha256 = none := by
  constructor
  · intro h
    exact (congrArg InputItem.checksumSha256 h).symm
  · intro h
    unfold ArtifactRow.blank ArtifactRow.item
    rw [h]

end Chain

/-- A chain of retries keeps the snapshot of its first job exactly when no input of that job has a
checksum; in any case a retry leaves the rows of every other job. -/
theorem retries_keep_snapshot {s t : System} {first last : ℕ} {sources : List (System × ℕ)}
    {r : JobRow} (hs : s.Reachable) (hr : s.db.jobs.get? first = some r)
    (h : Retries s first sources t last) (hsome : sources ≠ []) :
    (SnapshotKept s first sources t last ↔
      ∀ a ∈ s.db.artifactsOf first .input, a.checksumSha256 = none) ∧
    ∀ (u : System) (jobId : JobId) (owner : Option ℕ) (newId : ℕ) (db' : Db), u.Reachable →
      manualRetryTx jobId owner u.now u.db = .ok (some newId, db') →
        ∀ j, j ≠ newId → db'.view j = u.db.view j := by
  obtain ⟨⟨r', hr', hlast⟩, hattempts, houtputs, hitems⟩ := retries_ends hs hr h hsome
  refine ⟨⟨fun hkept a ha => ?_, fun hnone => ?_⟩, fun u jobId owner newId db' hu hretry => ?_⟩
  · have hmem : a.item ∈ (t.db.artifactsOf last .input).map ArtifactRow.item :=
      hkept.inputs.mem_iff.mpr (List.mem_map_of_mem ha)
    rw [hitems] at hmem
    obtain ⟨b, -, hb⟩ := List.mem_map.mp hmem
    exact (congrArg InputItem.checksumSha256 hb).symm
  · refine ⟨⟨r, r', hr, hr', hlast⟩, hattempts, houtputs, ?_, ?_, ?_⟩
    · have hsame : (s.db.artifactsOf first .input).map ArtifactRow.blank =
          (s.db.artifactsOf first .input).map ArtifactRow.item :=
        List.map_congr_left fun a ha => blank_eq_item.mpr (hnone a ha)
      rw [hitems, hsame]
    · intro p hp
      obtain ⟨hreachable, hrun, q, hq, hterminal⟩ := h.over hs p hp
      have hid : q.id = p.2 := Table.key_of_get? hq
      obtain ⟨⟨e, he⟩, hattempts⟩ := terminal_run hreachable.inv (hid ▸ hq) hterminal hrun
      have hrow : t.db.jobs.get? p.2 = some { q with outputsExpiredAt := e } := by
        rw [← hid]
        exact he
      rw [hid] at hattempts
      exact ⟨q, hq, ⟨e, hrow⟩, hattempts, (snapshot_run hreachable.inv hrun hq).2⟩
    · intro a ha i hitem jobId now id
      exact (retryCopy_eq_artifact (mem_artifactsOf.mp ha).2.2 hitem jobId now id).mpr (hnone a ha)
  · exact (manualRetryTx_retried hu.inv.db hretry).others

/-! A cancelled demo job, and a cancelled upload: each is retried once. -/

theorem retries_keep_snapshot_demo : ∃ (s t : System) (sources : List (System × ℕ)) (last : ℕ),
    s.Reachable ∧ Retries s 1 sources t last ∧ SnapshotKept s 1 sources t last := by
  have hrun : (exec System.step (System.initial 0)
      [.create sampleName, .requestCancel jobOne none]).any (fun s =>
        (s.db.jobs.get? 1).isSome &&
        (s.db.artifactsOf 1 .input).isEmpty &&
        (manualRetryTx jobOne none s.now s.db).toOption.any fun r => r.1.isSome) = true := by
    decide +kernel
  obtain ⟨s, hexec, htests⟩ := (Option.any_eq_true _ _).mp hrun
  simp only [Bool.and_eq_true, List.isEmpty_iff] at htests
  obtain ⟨⟨hjob, hnone⟩, hretry⟩ := htests
  obtain ⟨r, hr⟩ := Option.isSome_iff_exists.mp hjob
  have hs := reachable_of_exec hexec
  obtain ⟨⟨found, db'⟩, htx, hfound⟩ := except_any_eq_true.mp hretry
  obtain ⟨newId, rfl⟩ := Option.isSome_iff_exists.mp hfound
  have hchain : Retries s 1 ([] ++ [(s, 1)]) (s.apply (.manualRetry jobOne none)) newId :=
    .more s jobOne none newId db' .none (.refl s) rfl htx
  refine ⟨s, _, _, newId, hs, hchain, ?_⟩
  refine (retries_keep_snapshot hs hr hchain (by simp)).1.mpr ?_
  rw [hnone]
  simp

/-- The checksum of the uploaded file is not in the retried job. -/
theorem retry_drops_checksum :
    ∃ (s t : System) (sources : List (System × ℕ)) (last : ℕ) (r : JobRow), s.Reachable ∧
    s.db.jobs.get? 1 = some r ∧ r.state = .cancelled ∧ sources ≠ [] ∧
    Retries s 1 sources t last ∧ ¬SnapshotKept s 1 sources t last := by
  have hrun : (exec System.step (System.initial 0)
      [.createImageJob sampleImageJob, .requestCancel jobOne none]).any (fun s =>
        ((s.db.jobs.get? 1).any fun r => r.state == .cancelled) &&
        (s.db.artifactsOf 1 .input).any (fun a => a.checksumSha256.isSome) &&
        (manualRetryTx jobOne none s.now s.db).toOption.any fun r => r.1.any fun newId =>
          ((s.apply (.manualRetry jobOne none)).db.artifactsOf newId .input).all fun a =>
            a.checksumSha256.isNone) = true := by
    decide +kernel
  obtain ⟨s, hexec, htests⟩ := (Option.any_eq_true _ _).mp hrun
  simp only [Bool.and_eq_true] at htests
  obtain ⟨⟨hjob, hsome⟩, hretry⟩ := htests
  obtain ⟨r, hr, hcancelled⟩ := (Option.any_eq_true _ _).mp hjob
  rw [beq_iff_eq] at hcancelled
  obtain ⟨⟨found, db'⟩, htx, hfound⟩ := except_any_eq_true.mp hretry
  obtain ⟨newId, rfl, hall⟩ := (Option.any_eq_true _ _).mp hfound
  have hchain : Retries s 1 ([] ++ [(s, 1)]) (s.apply (.manualRetry jobOne none)) newId :=
    .more s jobOne none newId db' .none (.refl s) rfl htx
  refine ⟨s, _, _, newId, r, reachable_of_exec hexec, hr, hcancelled, by simp, hchain, ?_⟩
  intro hkept
  obtain ⟨a, ha, hsum⟩ := List.any_eq_true.mp hsome
  have hmem := hkept.inputs.mem_iff.mpr (List.mem_map_of_mem ha)
  obtain ⟨b, hb, hitem⟩ := List.mem_map.mp hmem
  have hnone := List.all_eq_true.mp hall b hb
  have hsame : b.checksumSha256 = a.checksumSha256 := congrArg InputItem.checksumSha256 hitem
  rw [hsame, Option.isNone_iff_eq_none] at hnone
  rw [hnone] at hsum
  cases hsum

end TaskHarbor
