import TaskHarbor.Storage.Process
import TaskHarbor.Storage.Protection
import TaskHarbor.Storage.Sharing
import TaskHarbor.System.Publishing

/-! What the other parties do to the files of an attempt. `run_maintenance` reads the references and
the prefixes of the running attempts in two queries, and the system goes on before it sweeps; the
sweep reads the metadata of a file, and the system goes on before it removes the file. -/
namespace TaskHarbor

open Interleaving Relational Transaction Runs

/-! ### A sweep -/

/-- The rule of `run_maintenance`, from what its two queries read. -/
def maintenanceRule (references running : Db) (cutoff : ℤ) : CleanupRule where
  referencedKeys := storageReferences references
  protectedPrefixes := activeAttemptOutputPrefixes running
  olderThan := cutoff

/-- A sweep: the system at its two queries, its cutoff, and the files whose metadata it has read. -/
structure Sweep where
  references : System
  running : System
  cutoff : ℤ
  seen : List StoredFile

def Sweep.rule (sweep : Sweep) : CleanupRule :=
  maintenanceRule sweep.references.db sweep.running.db sweep.cutoff

/-- The queries were made one after the other, and before now. -/
structure Sweep.Before (sweep : Sweep) (s : System) : Prop where
  reachable : sweep.references.Reachable
  queries : Run System.step Always sweep.references sweep.running
  since : Run System.step Always sweep.running s

/-- Files go only where the metadata were such that the rule removes them. -/
def CleanupRule.Clears (rule : CleanupRule) (seen : List StoredFile) (st st' : Storage) : Prop :=
  ∀ path, st'.read? path = st.read? path ∨
    st'.read? path = none ∧ ∃ f ∈ seen, f.path = path ∧ f.swept rule = true

/-- The sweep cannot take the attempt by surprise: the files that it saw of it are younger than the
cutoff, or it had begun by the second query and did not publish between the two. -/
inductive Sweep.Heeds (sweep : Sweep) (claimed : ClaimedJob) : Prop
  | young (younger : ∀ f ∈ sweep.seen,
      attemptPath claimed.jobId.get claimed.attemptId <+: f.path → sweep.cutoff < f.modified)
  | known (begun : sweep.running.db.jobAttempts.get? claimed.attemptId ≠ none)
      (undivided : sweep.running.db.publishedBy claimed.attemptId ⊆
        sweep.references.db.publishedBy claimed.attemptId)

/-- The attempt has succeeded, and its outputs have expired. -/
structure Withdrawn (id : ℕ) (s : System) : Prop where
  reachable : s.Reachable
  closed : ∃ b, s.db.jobAttempts.get? id = some b ∧ b.state = .succeeded
  rows : s.db.publishedBy id = []

/-- What the others do to the files of an attempt: nothing, or they remove some of an attempt that
is over and shows none, or they sweep. -/
inductive Upkeep (claimed : ClaimedJob) (s : System) (st st' : Storage) : Prop
  | elsewhere (same : ∀ path, attemptPath claimed.jobId.get claimed.attemptId <+: path →
      st'.read? path = st.read? path)
  | discarded (a : AttemptRow) (row : s.db.jobAttempts.get? claimed.attemptId = some a)
      (closed : a.state ≠ .running) (unshown : s.db.publishedBy claimed.attemptId = [])
      (fewer : ∀ path, attemptPath claimed.jobId.get claimed.attemptId <+: path →
        st'.read? path = none ∨ st'.read? path = st.read? path)
  | swept (sweep : Sweep) (before : sweep.Before s) (heeds : sweep.Heeds claimed)
      (clears : sweep.rule.Clears sweep.seen st st')

section Sweeps

variable {s t : System} {a : AttemptRow} {id : ℕ} {st st' : Storage} {rule : CleanupRule}
  {f : StoredFile} {seen : List StoredFile}

/-- An attempt stays with its job. -/
theorem attempt_run (hs : s.Reachable) (hrun : Run System.step Always s t)
    (ha : s.db.jobAttempts.get? id = some a) :
    ∃ b, t.db.jobAttempts.get? id = some b ∧ b.jobId = a.jobId := by
  refine (hrun.invariant (P := fun u => u.Inv ∧ ∃ b, u.db.jobAttempts.get? id = some b ∧
    b.jobId = a.jobId) ?_ ⟨hs.inv, a, ha, rfl⟩).2
  rintro u op v ⟨hinv, b, hb, hjob⟩ - hstep
  obtain rfl : b.id = id := Table.key_of_get? hb
  obtain ⟨c, hc, hbecomes⟩ := ((System.step_db hinv hstep).turns b.jobId).keeps.attempts b
    (mem_attemptsOf.mpr ⟨Table.mem_of_get? hb, rfl⟩)
  obtain ⟨hmem, hsame⟩ := mem_attemptsOf.mp hc
  have hid : c.id = b.id := (congrArg AttemptRow.id hbecomes.template :)
  refine ⟨hinv.step hstep, c, ?_, hsame.trans hjob⟩
  rw [← hid]
  exact Table.get?_key hmem

/-- A closed attempt stays as it is and shows no more rows. -/
theorem closed_run (hs : s.Reachable) (hrun : Run System.step Always s t)
    (ha : s.db.jobAttempts.get? id = some a) (hclosed : a.state ≠ .running) :
    t.db.jobAttempts.get? id = some a ∧ t.db.publishedBy id ⊆ s.db.publishedBy id := by
  obtain rfl : a.id = id := Table.key_of_get? ha
  refine (hrun.invariant (P := fun u => u.Reachable ∧ u.db.jobAttempts.get? a.id = some a ∧
    u.db.publishedBy a.id ⊆ s.db.publishedBy a.id) ?_ ⟨hs, ha, List.Subset.refl _⟩).2
  rintro u op v ⟨hu, hget, hrows⟩ - hstep
  refine ⟨hu.run (Run.single op trivial hstep : Run System.step Always u v),
    closed_step hu.inv hstep hget hclosed, fun row hrow => ?_⟩
  rcases hu.publishes hstep hrow with hold | ⟨b, -, hb, -, hrunning, -⟩
  · exact hrows hold
  · obtain rfl : a = b := Option.some.inj (hget.symm.trans hb)
    exact absurd hrunning hclosed

theorem swept_unprotected (h : f.swept rule = true) :
    rule.isProtected (relativeText f.path) = false ∧ f.modified ≤ rule.olderThan := by
  simpa [StoredFile.swept, CleanupRule.removes] using h

/-- A file that the rule does not remove stays. -/
theorem CleanupRule.Clears.kept (h : rule.Clears seen st st') {path : Path}
    (hkept : ∀ f ∈ seen, f.path = path → f.swept rule = false) :
    st'.read? path = st.read? path := by
  rcases h path with hsame | ⟨-, f, hf, hpath, hswept⟩
  · exact hsame
  · rw [hkept f hf hpath] at hswept
    cases hswept

/-- A removed file is gone. -/
theorem removeFile_none (st : Storage) (path : Path) : (st.removeFile path).read? path = none := by
  unfold Storage.read? Storage.removeFile
  rw [Option.map_eq_none_iff, List.find?_eq_none]
  intro f hf heq
  rw [beq_iff_eq] at heq
  simp [heq] at hf

theorem removeFile_read? (st : Storage) (path p : Path) :
    (st.removeFile path).read? p = none ∨ (st.removeFile path).read? p = st.read? p := by
  by_cases hp : p = path
  · left
    subst hp
    exact removeFile_none st p
  · exact Or.inr (SameBut.read? ((writesAt_sameBut path).removeFile st) hp)

/-- One removal of a sweep. -/
theorem CleanupRule.clears_removeFile (hf : f ∈ seen) (hswept : f.swept rule = true)
    (st : Storage) : rule.Clears seen st (st.removeFile f.path) := by
  intro path
  by_cases hpath : path = f.path
  · subst hpath
    exact Or.inr ⟨removeFile_none st f.path, f, hf, rfl, hswept⟩
  · exact Or.inl (SameBut.read? ((writesAt_sameBut f.path).removeFile st) hpath)

end Sweeps

/-! ### The cleanup is a sweep -/

/-- The storage, and the files whose metadata a cleanup has read. -/
structure Sighted where
  storage : Storage
  seen : List StoredFile

/-- A call of the cleanup; the metadata of a file are kept. -/
structure Sighted.Calls (w : Sighted) (q : WalkRequest) (r : q.Reply) (w' : Sighted) : Prop where
  answer : ∃ entries failure, w.storage.answer entries failure q = (r, w'.storage)
  seen : w'.seen = w.seen ++ w.storage.files.filter fun f => q = .symlinkMetadata f.path

/-- Between the calls the others do anything. -/
def Sighted.Waits (w w' : Sighted) : Prop := w'.seen = w.seen

theorem Sighted.Waits.trans (u v w : Sighted) (h : u.Waits v) (h' : v.Waits w) : u.Waits w :=
  Eq.trans h' h

/-- The cleanup has read metadata of the path for which the rule removes it. -/
def Sighted.Saw (rule : CleanupRule) (path : Path) (w : Sighted) : Prop :=
  ∃ f ∈ w.seen, f.path = path ∧ f.swept rule = true

/-- A removal comes after the metadata. -/
def Sighted.Safe (rule : CleanupRule) (q : WalkRequest) (w : Sighted) : Prop :=
  ∀ p, q = .removeFile p → w.Saw rule p

theorem Sighted.marks (rule : CleanupRule) :
    rule.Marks Sighted.Waits Sighted.Calls (Sighted.Safe rule) (Sighted.Saw rule) where
  refl := fun _ => rfl
  stays := by
    rintro p w w' hwaits ⟨f, hf, hsees⟩
    exact ⟨f, by rwa [hwaits], hsees⟩
  seen := by
    intro p metadata w w' hcalls hfile hrule
    obtain ⟨entries, failure, hanswer⟩ := hcalls.answer
    obtain ⟨-, f, hf, rfl, hmodified⟩ := Storage.answer_metadata hanswer hfile
    rw [hmodified] at hrule
    refine ⟨f, ?_, rfl, hrule⟩
    rw [hcalls.seen]
    exact List.mem_append_right _ (List.mem_filter.mpr ⟨hf, by simp⟩)
  removal := by
    rintro p w hsaw q hq
    cases hq
    exact hsaw
  other := fun _ _ hq p hp => absurd hp (hq p)

/-- Every call keeps all files but the one that it removes. -/
theorem Storage.answer_files {st st' : Storage} {entries : Entries} {failure : Option StorageError}
    {q : WalkRequest} {r : q.Reply} (h : st.answer entries failure q = (r, st')) :
    st'.files = st.files ∨ ∃ p, q = .removeFile p ∧ st' = st.removeFile p := by
  cases failure with
  | some e =>
    cases h
    exact Or.inl rfl
  | none =>
    obtain rfl : (st.serve (fun _ => entries) q).2 = st' := congrArg Prod.snd h
    cases q with
    | removeFile p =>
      by_cases hp : p ∈ st.paths
      · exact Or.inr ⟨p, rfl, by simp [Storage.serve, hp]⟩
      · exact Or.inl (by simp [Storage.serve, hp])
    | removeDirectory p =>
      left
      by_cases hp : p ∈ st.directories ∧ st.entryNames p = []
      · simp [Storage.serve, hp, Storage.removeDirectory]
      · simp [Storage.serve, hp]
    | _ => exact Or.inl rfl

/-- Whatever happens between its calls, each call of `cleanup_unreferenced` is a step of a sweep. -/
theorem cleanupUnreferenced_clears {rule : CleanupRule} {depth : ℕ} {st : Storage}
    {q : WalkRequest} {k : q.Reply → WalkProgram (Except StorageError CleanupReport)}
    {r : q.Reply} {v v' : Sighted}
    (hrun : Relation.ReflTransGen (Step Sighted.Waits Sighted.Calls)
      ((cleanupUnreferenced depth rule).run, ⟨st, []⟩) (.call q k, v)) (hcall : v.Calls q r v') :
    rule.Clears v.seen v.storage v'.storage := by
  have hmarks := Sighted.marks rule
  have hcareful := hmarks.cleanupUnreferenced depth ⟨st, []⟩
  have hreach := Meets.reach hmarks.refl Sighted.Waits.trans hcareful hrun
  have hsafe : Sighted.Safe rule q v := (hreach v rfl).1
  obtain ⟨entries, failure, hanswer⟩ := hcall.answer
  rcases Storage.answer_files hanswer with hfiles | ⟨p, rfl, hstorage⟩
  · intro path
    left
    unfold Storage.read?
    rw [hfiles]
  · obtain ⟨f, hf, rfl, hswept⟩ := hsafe p rfl
    rw [hstorage]
    exact CleanupRule.clears_removeFile hf hswept v.storage

/-! ### What is left -/

section Leaves

variable {claimed : ClaimedJob} {s : System} {st st' : Storage} {sweep : Sweep}

/-- A sweep leaves all files of the attempt, or the attempt was over before it, with its rows. -/
theorem Sweep.spares (before : sweep.Before s) (heeds : sweep.Heeds claimed)
    (clears : sweep.rule.Clears sweep.seen st st') (held : claimed.HeldIn s) :
    (∀ path, attemptPath claimed.jobId.get claimed.attemptId <+: path →
      st'.read? path = st.read? path) ∨
    claimed.Lost s.db s.now ∧ s.db.publishedBy claimed.attemptId ⊆
      sweep.references.db.publishedBy claimed.attemptId := by
  have hrunning : sweep.running.Reachable := before.reachable.run before.queries
  obtain ⟨a, ha, hjob, -⟩ := held.issued.attempt
  cases heeds with
  | young younger =>
    refine Or.inl fun path hpath => clears.kept fun f hf hsame => ?_
    rw [← Bool.not_eq_true]
    intro hswept
    subst hsame
    exact absurd (swept_unprotected hswept).2 (not_le.mpr (younger f hf hpath))
  | known begun undivided =>
    obtain ⟨b, hread⟩ := Option.ne_none_iff_exists'.mp begun
    obtain ⟨a', ha', hsame⟩ := attempt_run hrunning before.since hread
    obtain rfl : a = a' := Option.some.inj (ha.symm.trans ha')
    by_cases hstate : b.state = .running
    · refine Or.inl fun path hpath => clears.kept fun f hf hat => ?_
      rw [← Bool.not_eq_true]
      intro hswept
      subst hat
      have hlisted : attemptOutputPrefix claimed.jobId.get claimed.attemptId ∈
          sweep.rule.protectedPrefixes := by
        refine List.mem_map.mpr ⟨b, List.mem_filter.mpr ⟨Table.mem_of_get? hread, ?_⟩, ?_⟩
        · simp [hstate]
        · rw [← hsame, hjob, show b.id = claimed.attemptId from Table.key_of_get? hread]
      have hprotected := CleanupRule.protects_below hlisted hpath
      rw [(swept_unprotected hswept).1] at hprotected
      cases hprotected
    · obtain ⟨hget, hrows⟩ := closed_run hrunning before.since hread hstate
      exact Or.inr ⟨ClaimedJob.ClosedAs.lost ⟨b, hget, rfl⟩ hstate _,
        List.Subset.trans hrows undivided⟩

variable (held : claimed.HeldIn s) (h : Upkeep claimed s st st')

include held h

/-- The files of a live claim stay. -/
theorem Upkeep.running (live : ¬claimed.Lost s.db s.now) (path : Path)
    (hpath : attemptPath claimed.jobId.get claimed.attemptId <+: path) :
    st'.read? path = st.read? path := by
  cases h with
  | elsewhere same => exact same path hpath
  | discarded a row closed unshown fewer =>
    exact absurd (ClaimedJob.ClosedAs.lost ⟨a, row, rfl⟩ closed _) live
  | swept sweep before heeds clears =>
    rcases sweep.spares before heeds clears held with hsame | ⟨hlost, -⟩
    · exact hsame path hpath
    · exact absurd hlost live

/-- The files of published outputs stay. -/
theorem Upkeep.published {row : ArtifactRow} (hrow : row ∈ s.db.publishedBy claimed.attemptId)
    {id : ℕ} (hkey : row.storageKey = outputKey claimed.jobId.get claimed.attemptId id) :
    st'.read? (outputPath claimed.jobId.get claimed.attemptId id) =
      st.read? (outputPath claimed.jobId.get claimed.attemptId id) := by
  have hbelow : attemptPath claimed.jobId.get claimed.attemptId <+:
      outputPath claimed.jobId.get claimed.attemptId id := attemptPath_under_iff.mpr ⟨rfl, rfl⟩
  cases h with
  | elsewhere same => exact same _ hbelow
  | discarded a row' closed unshown fewer =>
    rw [unshown] at hrow
    cases hrow
  | swept sweep before heeds clears =>
    rcases sweep.spares before heeds clears held with hsame | ⟨-, hrows⟩
    · exact hsame _ hbelow
    · refine clears.kept fun f hf hat => ?_
      rw [← Bool.not_eq_true]
      intro hswept
      have hlisted : row.storageKey ∈ sweep.rule.referencedKeys :=
        List.mem_append_left _ (List.mem_map_of_mem (mem_publishedBy.mp (hrows hrow)).1)
      have hprotected : sweep.rule.isProtected (relativeText f.path) = true := by
        rw [hat, relativeText_outputPath, ← hkey]
        exact (CleanupRule.isProtected_iff _).mpr (Or.inl hlisted)
      rw [(swept_unprotected hswept).1] at hprotected
      cases hprotected

omit held in
/-- No file of the attempt comes from the others. -/
theorem Upkeep.adds (path : Path)
    (hpath : attemptPath claimed.jobId.get claimed.attemptId <+: path)
    (hnone : st.read? path = none) : st'.read? path = none := by
  cases h with
  | elsewhere same => exact (same path hpath).trans hnone
  | discarded a row closed unshown fewer =>
    rcases fewer path hpath with hgone | hsame
    · exact hgone
    · exact hsame.trans hnone
  | swept sweep before heeds clears =>
    rcases clears path with hsame | ⟨hgone, -⟩
    · exact hsame.trans hnone
    · exact hgone

end Leaves

end TaskHarbor
