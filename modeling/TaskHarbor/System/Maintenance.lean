import TaskHarbor.Api.Batch
import TaskHarbor.Library.Runs
import TaskHarbor.Storage.Protection
import TaskHarbor.Storage.Sharing

/-! One cleanup, and uploads and image attempts that use the storage while it runs, one call at a
time; `create_dir_all` counts as one call, which makes a directory with its missing ancestors. The
batch directories are newer than the cutoff and the attempts' prefixes are protected, but the
cleanup removes an empty directory without looking at either. -/
namespace TaskHarbor

open Interleaving Transaction Runs

/-! ### The machine -/

structure CleanupSystem where
  storage : Storage
  now : ℤ
  cleanup : WalkProgram (Except StorageError CleanupReport)
  uploads : List Uuid
  attempts : List (ℕ × ℕ)
  created : List Path
  lost : List Path

def CleanupSystem.initial (rule : CleanupRule) (depth : ℕ) (storage : Storage) (now : ℤ) :
    CleanupSystem where
  storage
  now
  cleanup := (cleanupUnreferenced depth rule).run
  uploads := []
  attempts := []
  created := []
  lost := []

inductive CleanupOp where
  | cleanup (entries : Entries) (failure : Option StorageError)
  | beginUpload (batch : Uuid)
  | createFile (batch id : Uuid)
  | write (path : Path) (offset : ℕ) (chunk : List UInt8)
  | createOutputDirectory (jobId attemptId inputId : ℕ)
  | createOutput (jobId attemptId inputId : ℕ)
  | tick (now : ℤ)

def uploadPath (batch : Uuid) : Path := ["inputs", uuidText batch]

/-- The directories of the work in progress. -/
def CleanupSystem.watched (s : CleanupSystem) : List Path :=
  s.uploads.map uploadPath ++ s.attempts.map fun a => attemptPath a.1 a.2

/-- Only a missing directory fails a creation. -/
def CleanupSystem.disk (s : CleanupSystem) : Disk where
  faults
    | .createFile path => if path.dropLast ∈ s.storage.folders then none else some .io
    | _ => none
  modified := fun _ => s.now

/-- A creation that succeeds is recorded, and one that fails is lost. -/
def CleanupSystem.record {α : Type} (s : CleanupSystem) (path : Path)
    (result : Except StorageError α × Storage) : CleanupSystem :=
  match result.1 with
  | .ok _ => { s with storage := result.2, created := path :: s.created }
  | .error _ => { s with storage := result.2, lost := path :: s.lost }

/-- A write moves the modification time. -/
def Storage.touch (st : Storage) (path : Path) (now : ℤ) : Storage :=
  { st with files := st.files.map fun f => if f.path = path then { f with modified := now } else f }

def CleanupSystem.step (rule : CleanupRule) (s : CleanupSystem) : CleanupOp → Option CleanupSystem
  | .cleanup entries failure =>
      match s.cleanup with
      | .done _ => none
      | .call q k =>
          let answer := s.storage.answer entries failure q
          some { s with storage := answer.2, cleanup := k answer.1 }
  | .beginUpload batch =>
      if rule.olderThan < s.now then
        some { s with
          storage := (beginUpload s.disk batch s.storage).2, uploads := batch :: s.uploads }
      else none
  | .createFile batch id =>
      let path := uploadPath batch ++ [uuidText id]
      if batch ∈ s.uploads ∧ path ∉ s.storage.paths then
        some (s.record path
          ((⟨"inputs/" ++ uuidText batch⟩ : UploadBatch).createFile s.disk id s.storage))
      else none
  | .write path offset chunk =>
      if path ∈ s.created then
        some { s with
          storage := (writeAll s.disk path offset chunk s.storage).2.touch path s.now }
      else none
  | .createOutputDirectory jobId attemptId inputId =>
      if attemptOutputPrefix jobId attemptId ∈ rule.protectedPrefixes then
        some { s with
          storage := (createOutputDirectory s.disk (outputPath jobId attemptId inputId)
            s.storage).2
          attempts := (jobId, attemptId) :: s.attempts }
      else none
  | .createOutput jobId attemptId inputId =>
      if (jobId, attemptId) ∈ s.attempts then
        some (s.record (outputPath jobId attemptId inputId)
          (createOutput s.disk (outputPath jobId attemptId inputId) s.storage))
      else none
  | .tick now => if s.now ≤ now then some { s with now } else none

/-- When the cleanup is about to remove a directory of work in progress, a file has been created
there before. -/
def CleanupSystem.begun (s : CleanupSystem) : CleanupOp → Bool
  | .cleanup _ _ =>
      match s.cleanup with
      | .call (.removeDirectory d) _ =>
          !s.watched.contains d || s.created.any fun c => c.dropLast == d
      | _ => true
  | _ => true

/-! ### Calls on the storage -/

section Calls

variable {rule : CleanupRule} {s t : CleanupSystem} {st st' : Storage} {path d : Path}
variable {entries : Entries} {failure : Option StorageError} {q : WalkRequest}

/-- What a call of the cleanup changes. -/
theorem Storage.answer_cases (st : Storage) (entries : Entries) (failure : Option StorageError)
    (q : WalkRequest) : (st.answer entries failure q).2 = st ∨
      (∃ d, q = .removeDirectory d ∧ st.entryNames d = [] ∧
        (st.answer entries failure q).2 = st.removeDirectory d) ∨
      ∃ p, q = .removeFile p ∧ (st.answer entries failure q).2 = st.removeFile p := by
  cases failure with
  | some e => exact Or.inl rfl
  | none =>
    cases q with
    | readDirectory p => exact Or.inl rfl
    | symlinkMetadata p => exact Or.inl rfl
    | isEmpty p => exact Or.inl rfl
    | removeDirectory d =>
      by_cases h : d ∈ st.directories ∧ st.entryNames d = []
      · exact Or.inr (Or.inl ⟨d, rfl, h.2, congrArg Prod.snd (if_pos h)⟩)
      · exact Or.inl (congrArg Prod.snd (if_neg h))
    | removeFile p =>
      by_cases h : p ∈ st.paths
      · exact Or.inr (Or.inr ⟨p, rfl, congrArg Prod.snd (if_pos h)⟩)
      · exact Or.inl (congrArg Prod.snd (if_neg h))

theorem createDirAll_directories (hne : path ≠ []) : path ∈ (st.createDirAll path).directories := by
  unfold Storage.createDirAll
  by_cases h : path ∈ st.directories
  · exact List.mem_append_left _ h
  · refine List.mem_append_right _ (List.mem_filter.mpr ⟨?_, ?_⟩)
    · exact (List.mem_inits _ _).mpr (List.prefix_refl _)
    · simp [hne, h]

theorem touch_paths (st : Storage) (path : Path) (now : ℤ) :
    (st.touch path now).paths = st.paths := by
  unfold Storage.paths Storage.touch
  rw [List.map_map]
  refine List.map_congr_left fun f _ => ?_
  simp only [Function.comp_apply]
  split <;> rfl

/-- A file after a write has a file before it with the same path, and its time is that file's or
the time of the write. -/
theorem touch_append (st : Storage) {bytes : List UInt8} {now : ℤ} {f : StoredFile}
    (hf : f ∈ ((st.append path bytes).touch path now).files) :
    ∃ g ∈ st.files, f.path = g.path ∧ (f.modified = g.modified ∨ f.modified = now) := by
  obtain ⟨f', hf', rfl⟩ := List.mem_map.mp hf
  obtain ⟨g, hg, rfl⟩ := List.mem_map.mp hf'
  refine ⟨g, hg, ?_⟩
  by_cases hpath : g.path = path
  · simp [hpath]
  · simp [hpath]

theorem beginUpload_eq (s : CleanupSystem) (batch : Uuid) (st : Storage) :
    (beginUpload s.disk batch st).2 = st.createDirAll (uploadPath batch) := by
  have hresolve : resolveKey ("inputs/" ++ uuidText batch) = .ok (uploadPath batch) :=
    FreshIds.resolve_batch ⟨batch, fun _ => 0⟩
  unfold beginUpload
  rw [Session.bind_run, Session.liftExcept_run, hresolve]
  rfl

theorem createOutputDirectory_eq (s : CleanupSystem) (jobId attemptId inputId : ℕ) (st : Storage) :
    (createOutputDirectory s.disk (outputPath jobId attemptId inputId) st).2 =
      st.createDirAll (attemptPath jobId attemptId) := by
  unfold createOutputDirectory
  rw [Session.bind_run, Session.liftExcept_run]
  rfl

/-- A creation succeeds when its directory is there. -/
theorem createFile_eq (batch id : Uuid) (h : uploadPath batch ∈ s.storage.directories) :
    s.record (uploadPath batch ++ [uuidText id])
        ((⟨"inputs/" ++ uuidText batch⟩ : UploadBatch).createFile s.disk id s.storage) =
      { s with
        storage := s.storage.createFile (uploadPath batch ++ [uuidText id]) s.now
        created := (uploadPath batch ++ [uuidText id]) :: s.created } := by
  have hresolve : resolveKey ("inputs/" ++ uuidText batch ++ "/" ++ uuidText id) =
      .ok (uploadPath batch ++ [uuidText id]) :=
    FreshIds.resolve_file ⟨batch, fun _ => id⟩ 0
  have hattempt : s.disk.attempt (.createFile (uploadPath batch ++ [uuidText id])) = .ok () := by
    have hfault : s.disk.faults (.createFile (uploadPath batch ++ [uuidText id])) = none :=
      if_pos (List.mem_cons_of_mem _ h)
    rw [Disk.attempt, hfault]
  unfold UploadBatch.createFile
  rw [Session.bind_run, Session.liftExcept_run]
  simp only [hresolve]
  rw [Session.bind_run, Session.liftExcept_run, hattempt]
  rfl

theorem createOutput_eq (jobId attemptId inputId : ℕ)
    (h : attemptPath jobId attemptId ∈ s.storage.directories) :
    s.record (outputPath jobId attemptId inputId)
        (createOutput s.disk (outputPath jobId attemptId inputId) s.storage) =
      { s with
        storage := s.storage.createFile (outputPath jobId attemptId inputId) s.now
        created := outputPath jobId attemptId inputId :: s.created } := by
  have hattempt : s.disk.attempt (.createFile (outputPath jobId attemptId inputId)) = .ok () := by
    have hfault : s.disk.faults (.createFile (outputPath jobId attemptId inputId)) = none :=
      if_pos (List.mem_cons_of_mem _ h)
    rw [Disk.attempt, hfault]
  unfold createOutput
  rw [Session.bind_run, Session.liftExcept_run, hattempt]
  rfl

end Calls

/-! ### The invariant -/

def CleanupSystem.shared (s : CleanupSystem) : Shared := ⟨s.storage, s.created⟩

structure CleanupSystem.Inv (rule : CleanupRule) (s : CleanupSystem) : Prop where
  present : ∀ d ∈ s.watched, d ∈ s.storage.directories
  lost : s.lost = []
  late : ∀ batch ∈ s.uploads, rule.olderThan < s.now
  protects : ∀ a ∈ s.attempts, attemptOutputPrefix a.1 a.2 ∈ rule.protectedPrefixes
  recent : ∀ c ∈ s.created, rule.isProtected (relativeText c) = true ∨ rule.olderThan < s.now
  spared : s.shared.Spared rule
  harmless : Harmless rule s.cleanup s.shared

section Steps

variable {rule : CleanupRule} {s t : CleanupSystem} {path : Path}

theorem StoredFile.not_swept {f : StoredFile}
    (h : rule.isProtected (relativeText f.path) = true ∨ rule.olderThan < f.modified) :
    f.swept rule = false := by
  rw [← Bool.not_eq_true]
  intro hswept
  simp only [StoredFile.swept, CleanupRule.removes, Bool.and_eq_true, Bool.not_eq_true',
    Option.any_some, decide_eq_true_eq] at hswept
  rcases h with h | h
  · rw [hswept.1] at h
    cases h
  · omega

theorem StoredFile.kept_of {f : StoredFile} (h : f.swept rule = false) :
    rule.isProtected (relativeText f.path) = true ∨ rule.olderThan < f.modified := by
  by_contra hnot
  simp only [not_or, not_lt, Bool.not_eq_true] at hnot
  have hswept : f.swept rule = true := by
    simp [StoredFile.swept, CleanupRule.removes, hnot]
  rw [h] at hswept
  cases hswept

/-- A new file is spared, and the others act as they may. -/
theorem Shared.created_spared {w : Shared} {now : ℤ} (h : w.Spared rule)
    (hpath : rule.isProtected (relativeText path) = true ∨ rule.olderThan < now) :
    (⟨w.storage.createFile path now, path :: w.created⟩ : Shared).Spared rule where
  paths := by
    intro c hc
    rcases List.mem_cons.mp hc with rfl | hc
    · exact createFile_paths _ _ _
    · exact (writesBelow_paths path).createFile (List.prefix_refl path) _ _ (h.paths hc)
  files := by
    intro f hf hc
    rcases List.mem_append.mp hf with hf | hf
    · obtain ⟨hf, hne⟩ := List.mem_filter.mp hf
      rcases List.mem_cons.mp hc with rfl | hc
      · simp at hne
      · exact h.files f hf hc
    · rw [List.mem_singleton.mp hf]
      exact StoredFile.not_swept hpath

theorem Shared.created_grows {w : Shared} {now : ℤ}
    (hpath : path ∉ w.storage.paths ∨ rule.isProtected (relativeText path) = true) :
    Shared.Grows rule w ⟨w.storage.createFile path now, path :: w.created⟩ where
  paths := (writesBelow_paths path).createFile (List.prefix_refl path) _ _
  created := by
    intro c hc
    rcases List.mem_cons.mp hc with rfl | hc
    · exact Or.inr hpath
    · exact Or.inl hc

/-- A file created in a directory of work in progress. -/
theorem CleanupSystem.Inv.create (h : s.Inv rule)
    (hpath : rule.isProtected (relativeText path) = true ∨ rule.olderThan < s.now)
    (hnew : path ∉ s.storage.paths ∨ rule.isProtected (relativeText path) = true) :
    CleanupSystem.Inv rule { s with
      storage := s.storage.createFile path s.now, created := path :: s.created } where
  present := h.present
  lost := h.lost
  late := h.late
  protects := h.protects
  recent := by
    intro c hc
    rcases List.mem_cons.mp hc with rfl | hc
    · exact hpath
    · exact h.recent c hc
  spared := Shared.created_spared h.spared hpath
  harmless := h.harmless.stays (Shared.created_grows hnew)

/-- The files stay as they are when a directory is created. -/
theorem CleanupSystem.Inv.enter (h : s.Inv rule) {d : Path} {uploads : List Uuid}
    {attempts : List (ℕ × ℕ)} (hne : d ≠ [])
    (hwatched : ∀ e ∈ uploads.map uploadPath ++ attempts.map (fun a => attemptPath a.1 a.2),
      e = d ∨ e ∈ s.watched)
    (hlate : ∀ batch ∈ uploads, rule.olderThan < s.now)
    (hprotects : ∀ a ∈ attempts, attemptOutputPrefix a.1 a.2 ∈ rule.protectedPrefixes) :
    CleanupSystem.Inv rule { s with storage := s.storage.createDirAll d, uploads, attempts } where
  present := by
    intro e he
    rcases hwatched e he with rfl | he
    · exact createDirAll_directories hne
    · exact List.mem_append_left _ (h.present e he)
  lost := h.lost
  late := hlate
  protects := hprotects
  recent := h.recent
  spared := ⟨h.spared.paths, h.spared.files⟩
  harmless := h.harmless.stays ⟨List.Subset.refl _, fun _ hc => Or.inl hc⟩

theorem CleanupSystem.Inv.write (h : s.Inv rule) {st : Storage}
    (hpaths : st.paths = s.storage.paths)
    (hdirectories : st.directories = s.storage.directories)
    (hfiles : ∀ f ∈ st.files, ∃ g ∈ s.storage.files, f.path = g.path ∧
      (f.modified = g.modified ∨ f.modified = s.now)) :
    CleanupSystem.Inv rule { s with storage := st } where
  present := by
    intro d hd
    show d ∈ st.directories
    rw [hdirectories]
    exact h.present d hd
  lost := h.lost
  late := h.late
  protects := h.protects
  recent := h.recent
  spared := by
    constructor
    · show s.created ⊆ st.paths
      rw [hpaths]
      exact h.spared.paths
    · intro f hf hc
      obtain ⟨g, hg, hpath, htime⟩ := hfiles f hf
      apply StoredFile.not_swept
      rcases htime with htime | htime
      · rw [hpath, htime]
        exact StoredFile.kept_of (h.spared.files g hg (hpath ▸ hc))
      · rw [htime]
        exact h.recent f.path hc
  harmless := by
    refine h.harmless.stays ⟨?_, fun _ hc => Or.inl hc⟩
    show s.storage.paths ⊆ st.paths
    rw [hpaths]
    exact List.Subset.refl _

theorem CleanupSystem.mem_watched_ne {d : Path} (hd : d ∈ s.watched) : d ≠ [] := by
  rcases List.mem_append.mp hd with hd | hd
  · obtain ⟨batch, -, rfl⟩ := List.mem_map.mp hd
    exact List.cons_ne_nil _ _
  · obtain ⟨a, -, rfl⟩ := List.mem_map.mp hd
    exact List.cons_ne_nil _ _

/-- A call of the cleanup. The first file of a directory keeps it from being empty. -/
theorem CleanupSystem.Inv.call (h : s.Inv rule) {q : WalkRequest}
    {k : q.Reply → WalkProgram (Except StorageError CleanupReport)} {entries : Entries}
    {failure : Option StorageError} (hcleanup : s.cleanup = .call q k)
    (hbegun : s.begun (.cleanup entries failure) = true) :
    CleanupSystem.Inv rule { s with
      storage := (s.storage.answer entries failure q).2
      cleanup := k (s.storage.answer entries failure q).1 } := by
  have hcalls : Shared.Calls rule s.shared q (s.storage.answer entries failure q).1
      ⟨(s.storage.answer entries failure q).2, s.created⟩ :=
    ⟨h.spared, ⟨entries, failure, rfl⟩, rfl⟩
  have hprogram := h.harmless
  rw [hcleanup] at hprogram
  obtain ⟨hsafe, hrest⟩ := hprogram.called hcalls
  rcases Storage.answer_cases s.storage entries failure q with
    hsame | ⟨d, rfl, hempty, hremoved⟩ | ⟨p, rfl, hremoved⟩
  · refine ⟨fun e he => ?_, h.lost, h.late, h.protects, h.recent, ?_, hrest⟩
    · show e ∈ (s.storage.answer entries failure q).2.directories
      rw [hsame]
      exact h.present e he
    · show Shared.Spared rule ⟨(s.storage.answer entries failure q).2, s.created⟩
      rw [hsame]
      exact h.spared
  · have hgone : d ∉ s.watched := by
      intro hd
      have hb := hbegun
      simp only [CleanupSystem.begun, hcleanup, List.contains_iff_mem.mpr hd, Bool.not_true,
        Bool.false_or, List.any_eq_true, beq_iff_eq] at hb
      obtain ⟨c, hc, hparent⟩ := hb
      have hne : c ≠ [] := by
        rintro rfl
        exact CleanupSystem.mem_watched_ne hd hparent.symm
      have hpath : d ++ [c.getLast hne] = c := by
        rw [← hparent]
        exact List.dropLast_concat_getLast hne
      have hnode : d ++ [c.getLast hne] ∈ s.storage.nodes := by
        rw [hpath]
        exact List.mem_append_left _ (h.spared.paths hc)
      have hentry := Storage.mem_entryNames.mpr hnode
      rw [hempty] at hentry
      exact absurd hentry List.not_mem_nil
    refine ⟨fun e he => ?_, h.lost, h.late, h.protects, h.recent, ?_, hrest⟩
    · show e ∈ (s.storage.answer entries failure (.removeDirectory d)).2.directories
      rw [hremoved]
      refine List.mem_filter.mpr ⟨h.present e he, ?_⟩
      rw [bne_iff_ne]
      rintro rfl
      exact hgone he
    · show Shared.Spared rule ⟨(s.storage.answer entries failure (.removeDirectory d)).2, s.created⟩
      rw [hremoved]
      exact ⟨h.spared.paths, h.spared.files⟩
  · have hforeign : p ∉ s.created := hsafe p rfl
    refine ⟨fun e he => ?_, h.lost, h.late, h.protects, h.recent, ?_, hrest⟩
    · show e ∈ (s.storage.answer entries failure (.removeFile p)).2.directories
      rw [hremoved]
      exact h.present e he
    · show Shared.Spared rule ⟨(s.storage.answer entries failure (.removeFile p)).2, s.created⟩
      rw [hremoved]
      constructor
      · intro c hc
        obtain ⟨f, hf, rfl⟩ := List.mem_map.mp (h.spared.paths hc)
        refine List.mem_map_of_mem (List.mem_filter.mpr ⟨hf, ?_⟩)
        rw [bne_iff_ne]
        intro hpath
        exact hforeign (hpath ▸ hc)
      · exact fun f hf hc => h.spared.files f (List.mem_filter.mp hf).1 hc

theorem CleanupSystem.Inv.step (h : s.Inv rule) {op : CleanupOp} (hbegun : s.begun op = true)
    (hstep : s.step rule op = some t) : t.Inv rule := by
  cases op with
  | cleanup entries failure =>
    cases hcleanup : s.cleanup with
    | done r =>
      simp only [CleanupSystem.step, hcleanup] at hstep
      cases hstep
    | call q k =>
      simp only [CleanupSystem.step, hcleanup] at hstep
      cases hstep
      exact h.call hcleanup hbegun
  | beginUpload batch =>
    obtain ⟨hlate, heq⟩ := Option.ite_none_right_eq_some.mp hstep
    cases heq
    rw [beginUpload_eq]
    refine h.enter (List.cons_ne_nil _ _) (fun e he => ?_) (fun _ _ => hlate) h.protects
    exact List.mem_cons.mp he
  | createFile batch id =>
    obtain ⟨⟨hbatch, hnew⟩, heq⟩ := Option.ite_none_right_eq_some.mp hstep
    have hd := h.present _ (List.mem_append_left _ (List.mem_map_of_mem hbatch))
    cases heq
    rw [createFile_eq batch id hd]
    exact h.create (Or.inr (h.late batch hbatch)) (Or.inl hnew)
  | write path offset chunk =>
    obtain ⟨-, heq⟩ := Option.ite_none_right_eq_some.mp hstep
    cases heq
    have hwrite :
        (writeAll s.disk path offset chunk s.storage).2 = s.storage.append path chunk := rfl
    rw [hwrite]
    refine h.write ?_ rfl fun f hf => touch_append _ hf
    rw [touch_paths, append_paths]
  | createOutputDirectory jobId attemptId inputId =>
    obtain ⟨hlisted, heq⟩ := Option.ite_none_right_eq_some.mp hstep
    cases heq
    rw [createOutputDirectory_eq]
    refine h.enter (List.cons_ne_nil _ _) (fun e he => ?_) h.late fun a ha => ?_
    · rcases List.mem_append.mp he with he | he
      · exact Or.inr (List.mem_append_left _ he)
      · exact (List.mem_cons.mp he).imp id (List.mem_append_right _)
    · rcases List.mem_cons.mp ha with rfl | ha
      · exact hlisted
      · exact h.protects a ha
  | createOutput jobId attemptId inputId =>
    obtain ⟨hattempt, heq⟩ := Option.ite_none_right_eq_some.mp hstep
    have hd : attemptPath jobId attemptId ∈ s.storage.directories :=
      h.present _ (List.mem_append_right _ (List.mem_map_of_mem hattempt))
    have hlisted := h.protects (jobId, attemptId) hattempt
    have hprotected : rule.isProtected (relativeText (outputPath jobId attemptId inputId)) = true :=
      CleanupRule.protects_output hlisted
    cases heq
    rw [createOutput_eq jobId attemptId inputId hd]
    exact h.create (Or.inl hprotected) (Or.inr hprotected)
  | tick now =>
    obtain ⟨hle, heq⟩ := Option.ite_none_right_eq_some.mp hstep
    cases heq
    refine ⟨h.present, h.lost, fun batch hb => lt_of_lt_of_le (h.late batch hb) hle, h.protects,
      fun c hc => (h.recent c hc).imp id fun hlt => lt_of_lt_of_le hlt hle, h.spared, h.harmless⟩

theorem CleanupSystem.Inv.initial (rule : CleanupRule) (depth : ℕ) (st : Storage) (now : ℤ) :
    (CleanupSystem.initial rule depth st now).Inv rule where
  present := fun _ hd => absurd hd List.not_mem_nil
  lost := rfl
  late := fun _ hb => absurd hb List.not_mem_nil
  protects := fun _ ha => absurd ha List.not_mem_nil
  recent := fun _ hc => absurd hc List.not_mem_nil
  spared := ⟨List.nil_subset _, fun _ _ hf => absurd hf List.not_mem_nil⟩
  harmless := cleanupUnreferenced_harmless depth _

end Steps

/-- Cleanup and work in progress: in every run in which the cleanup comes to remove a batch
directory or an attempt directory only after a file has been created there, these directories stay
and no creation fails for want of its directory. -/
theorem work_in_progress_stays {rule : CleanupRule} {depth : ℕ} {st : Storage} {start : ℤ}
    {s : CleanupSystem}
    (hrun : Run (CleanupSystem.step rule) (fun s op => s.begun op = true)
      (.initial rule depth st start) s) :
    (∀ d ∈ s.watched, d ∈ s.storage.directories) ∧ s.lost = [] := by
  have hinv : s.Inv rule :=
    hrun.invariant (fun _ _ _ h hbegun hstep => h.step hbegun hstep) (.initial rule depth st start)
  exact ⟨hinv.present, hinv.lost⟩

/-! An upload begins, and the cleanup comes to its batch directory. -/

def sampleGrace : CleanupRule := ⟨[], [], 0⟩

def sampleDirectories : Storage := ⟨[], [["inputs"], ["outputs"]]⟩

/-- The cleanup lists the root, its first directory and the batch there, which is empty. -/
def sampleVisit : List CleanupOp :=
  [.cleanup [.ok "inputs", .ok "outputs"] none, .cleanup [] none,
    .cleanup [.ok (uuidText 1)] none, .cleanup [] none, .cleanup [] none, .cleanup [] none,
    .cleanup [] none]

theorem work_in_progress_stays_sample : ∃ s : CleanupSystem,
    Run (CleanupSystem.step sampleGrace) (fun s op => s.begun op = true)
      (.initial sampleGrace 4 sampleDirectories 10) s ∧
    s.created.length = 1 ∧ (∀ d ∈ s.watched, d ∈ s.storage.directories) ∧ s.lost = [] := by
  have hreplay : (exec (guarded (CleanupSystem.step sampleGrace) CleanupSystem.begun)
      (.initial sampleGrace 4 sampleDirectories 10)
      ([.beginUpload 1, .createFile 1 2] ++ sampleVisit)).any
        (fun s => decide (s.created.length = 1)) = true := by
    decide +kernel
  obtain ⟨s, hexec, htest⟩ := (Option.any_eq_true _ _).mp hreplay
  have hrun : Run (CleanupSystem.step sampleGrace) (fun s op => s.begun op = true)
      (.initial sampleGrace 4 sampleDirectories 10) s :=
    run_of_guarded (fun _ _ h => h) hexec
  exact ⟨s, hrun, of_decide_eq_true htest, work_in_progress_stays hrun⟩

/-- An upload whose first file comes late loses its batch directory. -/
theorem cleanup_removes_new_batch : ¬∀ (rule : CleanupRule) (depth : ℕ) (st : Storage) (start : ℤ)
    (s : CleanupSystem), Run (CleanupSystem.step rule) Always (.initial rule depth st start) s →
    (∀ d ∈ s.watched, d ∈ s.storage.directories) ∧ s.lost = [] := by
  intro hclaim
  have hreplay : (exec (CleanupSystem.step sampleGrace)
      (.initial sampleGrace 4 sampleDirectories 10)
      ([.beginUpload 1] ++ sampleVisit ++ [.createFile 1 2])).any
        (fun s => decide (s.lost.length = 1)) = true := by
    decide +kernel
  obtain ⟨s, hexec, htest⟩ := (Option.any_eq_true _ _).mp hreplay
  have hrun : Run (CleanupSystem.step sampleGrace) Always
      (.initial sampleGrace 4 sampleDirectories 10) s :=
    run_of_exec (fun _ _ _ => trivial) hexec
  have hlost := (hclaim sampleGrace 4 sampleDirectories 10 s hrun).2
  rw [hlost] at htest
  cases htest

end TaskHarbor
