import TaskHarbor.Storage.Protection
import TaskHarbor.Storage.Usage

/-! `cleanup_unreferenced` on a tree that nobody else touches: which files and directories it
removes, what it reports, and what `directory_usage` says before and after. -/
namespace TaskHarbor

open Transaction

section Cleanup

variable {listing : Listing} {st : Storage} {rule : CleanupRule} {e : Path} {f : StoredFile}

/-- The recursion is as deep as the tree. -/
theorem exists_depth (paths : List Path) : ∃ bound, ∀ e ∈ paths, e.length < bound := by
  induction paths with
  | nil => exact ⟨0, fun e he => absurd he List.not_mem_nil⟩
  | cons p paths ih =>
    obtain ⟨bound, hbound⟩ := ih
    refine ⟨max bound (p.length + 1), fun e he => ?_⟩
    rcases List.mem_cons.mp he with rfl | he
    · omega
    · have h := hbound e he
      omega

/-- The keys of a plain rule resolve. -/
theorem CleanupRule.Plain.resolves (plain : rule.Plain) :
    ∃ paths, (rule.referencedKeys ++ rule.protectedPrefixes).mapM resolveKey =
      (.ok paths : Except StorageError (List Path)) := by
  refine except_mapM_exists fun key hkey => ?_
  rcases List.mem_append.mp hkey with h | h
  · exact (plain.referenced key h).resolves
  · exact (plain.protecteds key h).resolves

/-- `cleanup_unreferenced` sweeps the whole tree. -/
theorem cleanupUnreferenced_alone (listing : Listing) (tree : st.Tree) (plain : rule.Plain)
    (hbytes : st.bytes ≤ u64Max) {depth : ℕ} (hdepth : ∀ e ∈ st.folders, e.length < depth) :
    ∃ report, (cleanupUnreferenced depth rule).alone listing st =
        (.ok report, st.sweep rule (below [])) ∧
      Tallied {} report st (st.sweep rule (below [])) := by
  obtain ⟨paths, hpaths⟩ := plain.resolves
  have hkeys : (liftM ((rule.referencedKeys ++ rule.protectedPrefixes).mapM resolveKey :
      Except StorageError (List Path)) : Walk (List Path)).alone listing st = (.ok paths, st) := by
    rw [hpaths]
    exact Walk.alone_lift _
  obtain ⟨report, hrun, htally⟩ := (cleanupDirectory_alone rule listing depth tree
    (d := []) List.mem_cons_self hbytes (by simpa using hdepth)).run
  refine ⟨report, ?_, htally⟩
  unfold cleanupUnreferenced
  rw [Walk.alone_bind_ok hkeys]
  exact hrun

/-- What the rule removes, said on components. -/
theorem StoredFile.swept_iff :
    f.swept rule = true ↔ relativeText f.path ∉ rule.referencedKeys ∧
      (∀ key ∈ rule.protectedPrefixes, ¬components key <+: components (relativeText f.path)) ∧
      f.modified ≤ rule.olderThan := by
  simp only [StoredFile.swept, CleanupRule.removes, Bool.and_eq_true, Bool.not_eq_true',
    ← Bool.not_eq_true, CleanupRule.isProtected_iff, Option.any_some, decide_eq_true_eq, not_or,
    not_exists, not_and, and_assoc]

theorem Storage.Tree.below_root (tree : st.Tree) {p : Path} (hp : p ∈ st.nodes) :
    below [] p = true :=
  below_iff.mpr ⟨List.nil_prefix, tree.named p hp⟩

/-- A file stays unless the rule removes it. -/
theorem Storage.Tree.mem_swept (tree : st.Tree) :
    f ∈ (st.sweep rule (below [])).files ↔ f ∈ st.files ∧ ¬f.swept rule = true := by
  rw [Storage.mem_sweep_files, Bool.not_eq_true]
  exact and_congr_right fun hf => by simp [tree.below_root (Storage.file_node hf)]

/-- The removed directories lie below the first level and hold nothing. -/
theorem Storage.Tree.removed_directory (tree : st.Tree) (he : e ∈ st.directories)
    (hgone : e ∉ (st.sweep rule (below [])).directories) :
    1 < e.length ∧ ∀ p ∈ (st.sweep rule (below [])).nodes, ¬e <+: p := by
  have hdropped : 1 < e.length ∧ ¬st.keeps rule e = true := by
    by_contra hstays
    refine hgone (Storage.mem_sweep_directories.mpr ⟨he, fun _ hlength => ?_⟩)
    by_contra hkeeps
    exact hstays ⟨hlength, hkeeps⟩
  refine ⟨hdropped.1, fun p hp hunder => hdropped.2 ?_⟩
  rcases Storage.mem_nodes.mp hp with ⟨f, hf, rfl⟩ | hp
  · obtain ⟨hf, hs⟩ := tree.mem_swept.mp hf
    exact Storage.keeps_iff.mpr ⟨f, hf, hunder, Bool.not_eq_true _ ▸ hs⟩
  · obtain ⟨hd, hkeeps⟩ := Storage.mem_sweep_directories.mp hp
    have hlength := hunder.length_le
    obtain ⟨f, hf, hpf, hs⟩ := Storage.keeps_iff.mp
      (hkeeps (tree.below_root (Storage.directory_node hd)) (by omega))
    exact Storage.keeps_iff.mpr ⟨f, hf, hunder.trans hpf, hs⟩

theorem Storage.Tree.swept_files (tree : st.Tree) :
    (st.sweep rule (below [])).files = st.files.filter fun f => !f.swept rule := by
  refine List.filter_congr fun f hf => ?_
  rw [tree.below_root (Storage.file_node hf), Bool.true_and]

/-- The report counts the files that are gone. -/
theorem Storage.Tree.report_eq (tree : st.Tree) {report : CleanupReport}
    (h : Tallied {} report st (st.sweep rule (below []))) :
    report.filesRemoved =
        (st.files.filter fun f => f ∉ (st.sweep rule (below [])).files).length ∧
      report.bytesRemoved = ((st.files.filter fun f =>
        f ∉ (st.sweep rule (below [])).files).map fun f => f.content.length).sum := by
  have hgone : (st.files.filter fun f => f ∉ (st.sweep rule (below [])).files) =
      st.files.filter (StoredFile.swept rule) := by
    refine List.filter_congr fun f hf => ?_
    rw [Bool.eq_iff_iff, decide_eq_true_eq, tree.mem_swept]
    simp [hf]
  have hperm := List.filter_append_perm (StoredFile.swept rule) st.files
  have hlength := hperm.length_eq
  have hsum := (hperm.map fun f => f.content.length).sum_nat
  have hfiles := h.files
  have hbytes := h.bytes
  rw [List.length_append] at hlength
  rw [List.map_append, List.sum_append_nat] at hsum
  rw [tree.swept_files] at hfiles
  unfold Storage.bytes at hbytes
  rw [tree.swept_files] at hbytes
  rw [hgone]
  dsimp only at hfiles hbytes
  constructor
  · omega
  · omega

end Cleanup

/-! ### The whole cleanup -/

/-- `cleanup_unreferenced` removes the old files that are neither referenced nor at or below a
protected prefix, and no others; it counts them, and directories go only when they are empty. A
backslash in a name is read as a slash. The running attempts protect exactly their own outputs. -/
theorem cleanup_removes_exactly (listing : Listing) {st : Storage} (tree : st.Tree)
    {rule : CleanupRule} (plain : rule.Plain) (hbytes : st.bytes ≤ u64Max) :
    (∃ bound, ∀ depth ≥ bound, ∀ steps ≥ bound, ∃ report st' usage,
      (cleanupUnreferenced depth rule).alone listing st = (.ok report, st') ∧
      (∀ f, f ∈ st'.files ↔ f ∈ st.files ∧ ¬(relativeText f.path ∉ rule.referencedKeys ∧
        (∀ key ∈ rule.protectedPrefixes, ¬components key <+: components (relativeText f.path)) ∧
        f.modified ≤ rule.olderThan)) ∧
      st'.directories ⊆ st.directories ∧
      (∀ e ∈ st.directories, e ∉ st'.directories →
        1 < e.length ∧ ∀ p ∈ st'.nodes, ¬e <+: p) ∧
      report.filesRemoved = (st.files.filter fun f => f ∉ st'.files).length ∧
      report.bytesRemoved =
        ((st.files.filter fun f => f ∉ st'.files).map fun f => f.content.length).sum ∧
      (directoryUsage steps).alone listing st = (.ok (usage + report.bytesRemoved), st) ∧
      (directoryUsage steps).alone listing st' = (.ok usage, st')) ∧
    (∀ p ∈ st.nodes, (∀ name ∈ p, '\\' ∉ name.toList) →
      relativeText p = keyOf p ∧ components (relativeText p) = p) ∧
    ∀ (db : Db) (jobId attemptId inputId : ℕ), ∃ path : Path,
      resolveKey (outputKey jobId attemptId inputId) = .ok path ∧
      ((⟨[], activeAttemptOutputPrefixes db, rule.olderThan⟩ : CleanupRule).isProtected
          (relativeText path) = true ↔
        ∃ a ∈ db.jobAttempts.rows, a.state = .running ∧ a.jobId = jobId ∧ a.id = attemptId) := by
  refine ⟨?_, fun p hp hname => ?_, fun db jobId attemptId inputId => ?_⟩
  · obtain ⟨deep, hdeep⟩ := exists_depth st.folders
    refine ⟨deep + st.directories.length + 2, fun depth hdepth steps hsteps => ?_⟩
    have hbelow : ∀ e ∈ st.folders, e.length < depth := by
      intro e he
      have h := hdeep e he
      omega
    obtain ⟨report, hrun, htally⟩ := cleanupUnreferenced_alone listing tree plain hbytes hbelow
    obtain ⟨hfiles, hremoved⟩ := tree.report_eq htally
    have htotal := htally.bytes
    have htree := tree.sweep rule (below_downward [])
    have hfewer : (st.sweep rule (below [])).directories.length ≤ st.directories.length :=
      List.length_filter_le _ _
    have husage : st.bytes = (st.sweep rule (below [])).bytes + report.bytesRemoved := by
      dsimp only at htotal
      omega
    refine ⟨report, _, (st.sweep rule (below [])).bytes, hrun, fun f => ?_,
      List.filter_subset_self _, fun e he hgone => tree.removed_directory he hgone, hfiles,
      hremoved, ?_, ?_⟩
    · rw [tree.mem_swept, StoredFile.swept_iff]
    · rw [directoryUsage_alone listing tree (by omega), if_pos hbytes, husage]
    · rw [directoryUsage_alone listing htree (by omega), if_pos (by omega)]
  · rw [relativeText_eq_keyOf hname]
    exact ⟨rfl, components_keyOf (tree.named p hp) (tree.separated p hp)⟩
  · refine ⟨outputPath jobId attemptId inputId, ?_, ?_⟩
    · rw [outputKey_eq]
      exact resolveKey_keyOf (List.cons_ne_nil _ _) outputPath_plain
    · rw [relativeText_outputPath]
      exact outputKey_isProtected db rule.olderThan jobId attemptId inputId

/-- `read_dir` in the order of the table. -/
def Listing.inOrder : Listing := ⟨Storage.entryNames, fun _ _ => .refl _⟩

/-- A referenced input, an orphan, and an output of each of two attempts. -/
def sampleFiles : Storage where
  files := [⟨["inputs", "referenced", "source.png"], [1, 2, 3], 10⟩,
    ⟨["inputs", "orphan", "source.png"], [4, 5], 10⟩,
    ⟨["outputs", "job-2", "attempt-8", "partial.jpg"], [6], 10⟩,
    ⟨["outputs", "job-1", "attempt-3", "old.jpg"], [7, 8], 10⟩]
  directories := [["inputs"], ["outputs"], ["inputs", "referenced"], ["inputs", "orphan"],
    ["outputs", "job-2"], ["outputs", "job-2", "attempt-8"], ["outputs", "job-1"],
    ["outputs", "job-1", "attempt-3"]]

def sampleRule : CleanupRule where
  referencedKeys := [keyOf ["inputs", "referenced", "source.png"]]
  protectedPrefixes := [attemptOutputPrefix 2 8]
  olderThan := 20

theorem sampleFiles_tree : sampleFiles.Tree where
  distinct := by decide +kernel
  named := by decide +kernel
  parent := by decide +kernel
  separated := by decide +kernel

theorem sampleRule_plain : sampleRule.Plain where
  referenced := by
    intro key hkey
    refine ⟨["inputs", "referenced", "source.png"], by simp, fun part hpart => ?_,
      List.mem_singleton.mp hkey⟩
    simp only [List.mem_cons, List.not_mem_nil, or_false] at hpart
    rcases hpart with rfl | rfl | rfl <;> exact plain_of_mem (by decide) (by decide)
  protecteds := by
    intro key hkey
    exact ⟨_, List.cons_ne_nil _ _, attemptPath_plain,
      (List.mem_singleton.mp hkey).trans attemptOutputPrefix_eq⟩

theorem cleanup_removes_exactly_sample :
    ∃ depth report st', (cleanupUnreferenced depth sampleRule).alone .inOrder sampleFiles =
        (.ok report, st') ∧
      (⟨["inputs", "orphan", "source.png"], [4, 5], 10⟩ : StoredFile) ∉ st'.files ∧
      (⟨["outputs", "job-2", "attempt-8", "partial.jpg"], [6], 10⟩ : StoredFile) ∈ st'.files := by
  obtain ⟨⟨bound, hbound⟩, -⟩ :=
    cleanup_removes_exactly .inOrder sampleFiles_tree sampleRule_plain (by decide)
  obtain ⟨report, st', -, hrun, hfiles, -⟩ := hbound bound le_rfl bound le_rfl
  refine ⟨bound, report, st', hrun, fun h => ((hfiles _).mp h).2 ?_, (hfiles _).mpr ⟨?_, ?_⟩⟩
  · decide +kernel
  · decide +kernel
  · decide +kernel

/-! ### A backslash in a name -/

def sampleSlashed : Storage where
  files := [⟨["inputs", uuidText 1 ++ "\\" ++ uuidText 2], [], 10⟩]
  directories := [["inputs"], ["outputs"]]

def sampleSlashedRule : CleanupRule where
  referencedKeys := [keyOf ["inputs", uuidText 1, uuidText 2]]
  protectedPrefixes := []
  olderThan := 20

/-- A file that is not referenced stays, as its name reads like a referenced path. -/
theorem backslash_name_stays :
    sampleSlashed.Tree ∧ sampleSlashedRule.Plain ∧ ∃ f ∈ sampleSlashed.files,
      keyOf f.path ∉ sampleSlashedRule.referencedKeys ∧
      (∀ key ∈ sampleSlashedRule.protectedPrefixes, ¬components key <+: f.path) ∧
      f.modified ≤ sampleSlashedRule.olderThan ∧
      ∃ report st', (cleanupUnreferenced 2 sampleSlashedRule).alone .inOrder sampleSlashed =
          (.ok report, st') ∧ f ∈ st'.files := by
  have tree : sampleSlashed.Tree :=
    ⟨by decide +kernel, by decide +kernel, by decide +kernel, by decide +kernel⟩
  have plain : sampleSlashedRule.Plain := by
    constructor
    · intro key hkey
      refine ⟨["inputs", uuidText 1, uuidText 2], by simp, fun part hpart => ?_,
        List.mem_singleton.mp hkey⟩
      simp only [List.mem_cons, List.not_mem_nil, or_false] at hpart
      rcases hpart with rfl | rfl | rfl
      · exact inputs_plain
      · exact uuidText_plain 1
      · exact uuidText_plain 2
    · intro key hkey
      exact absurd hkey List.not_mem_nil
  refine ⟨tree, plain, _, List.mem_singleton_self _, by decide +kernel, by decide, by decide, ?_⟩
  have hdepth : ∀ e ∈ sampleSlashed.folders, e.length < 2 := by decide
  obtain ⟨report, hrun, -⟩ := cleanupUnreferenced_alone .inOrder tree plain (by decide) hdepth
  refine ⟨report, _, hrun, tree.mem_swept.mpr ⟨List.mem_singleton_self _, ?_⟩⟩
  decide +kernel

end TaskHarbor
