import TaskHarbor.Storage.Tree

/-! What `cleanup_directory` does to a tree that nobody else touches: the files that the rule
removes are gone, with every directory below the first level that holds no other file. -/
namespace TaskHarbor

open Interleaving Transaction

/-! ### Regions of a tree -/

/-- The paths at or below one of `roots`. -/
def within (roots : List Path) (p : Path) : Bool := roots.any fun q => q.isPrefixOf p

/-- The paths strictly below `d`. -/
def below (d p : Path) : Bool := d.isPrefixOf p && p != d

theorem within_iff {roots : List Path} {p : Path} :
    within roots p = true ↔ ∃ q ∈ roots, q <+: p := by
  simp [within, List.any_eq_true, List.isPrefixOf_iff_prefix]

theorem below_iff {d p : Path} : below d p = true ↔ d <+: p ∧ p ≠ d := by
  simp [below, List.isPrefixOf_iff_prefix]

theorem below_eq_within {e p : Path} (hne : p ≠ e) : below e p = within [e] p := by
  rw [Bool.eq_iff_iff, below_iff, within_iff]
  simp [hne]

theorem within_self (e : Path) : within [e] e = true :=
  within_iff.mpr ⟨e, List.mem_singleton_self e, List.prefix_refl e⟩

/-- A region holds all that lies below its paths. -/
def Downward (region : Path → Bool) : Prop :=
  ∀ p q, p <+: q → region p = true → region q = true

theorem within_downward (roots : List Path) : Downward (within roots) := by
  intro p q hpq hp
  obtain ⟨r, hr, hrp⟩ := within_iff.mp hp
  exact within_iff.mpr ⟨r, hr, hrp.trans hpq⟩

theorem below_downward (d : Path) : Downward (below d) := by
  intro p q hpq hp
  obtain ⟨hdp, hne⟩ := below_iff.mp hp
  refine below_iff.mpr ⟨hdp.trans hpq, ?_⟩
  rintro rfl
  exact hne (hpq.eq_of_length (Nat.le_antisymm hpq.length_le hdp.length_le))

/-- The entries of a directory cover what is below it. -/
theorem Storage.Tree.within_entries {st : Storage} (tree : st.Tree) {d p : Path}
    {names : List String} (hnames : names.Perm (st.entryNames d)) (hp : p ∈ st.nodes) :
    within (names.map fun name => d ++ [name]) p = below d p := by
  rw [Bool.eq_iff_iff, within_iff, below_iff]
  constructor
  · rintro ⟨q, hq, hunder⟩
    obtain ⟨name, -, rfl⟩ := List.mem_map.mp hq
    refine ⟨(List.prefix_append _ _).trans hunder, ?_⟩
    rintro rfl
    have hlength := hunder.length_le
    rw [List.length_append, List.length_singleton] at hlength
    omega
  · rintro ⟨hunder, hne⟩
    obtain ⟨name, hname, hentry⟩ := tree.exists_entry hp hunder hne
    exact ⟨d ++ [name], List.mem_map_of_mem (hnames.symm.subset hname), hentry⟩

/-! ### The sweep of a region -/

def StoredFile.swept (rule : CleanupRule) (f : StoredFile) : Bool :=
  rule.removes f.path (some f.modified)

/-- A file below `e` stays. -/
def Storage.keeps (rule : CleanupRule) (st : Storage) (e : Path) : Bool :=
  st.files.any fun f => e.isPrefixOf f.path && !f.swept rule

def Storage.sweep (rule : CleanupRule) (region : Path → Bool) (st : Storage) : Storage where
  files := st.files.filter fun f => !(region f.path && f.swept rule)
  directories := st.directories.filter fun e =>
    !(region e && decide (1 < e.length) && !st.keeps rule e)

/-- The report grew by what left the storage. -/
structure Tallied (report report' : CleanupReport) (st st' : Storage) : Prop where
  files : report'.filesRemoved + st'.files.length = report.filesRemoved + st.files.length
  bytes : report'.bytesRemoved + st'.bytes = report.bytesRemoved + st.bytes

section Sweep

variable {rule : CleanupRule} {region region' : Path → Bool} {st st' st'' : Storage}
variable {e p : Path} {f : StoredFile} {report report' report'' : CleanupReport}

theorem Storage.keeps_iff :
    st.keeps rule e = true ↔ ∃ f ∈ st.files, e <+: f.path ∧ f.swept rule = false := by
  simp [Storage.keeps, List.any_eq_true, List.isPrefixOf_iff_prefix]

theorem Storage.mem_sweep_files :
    f ∈ (st.sweep rule region).files ↔
      f ∈ st.files ∧ (region f.path = true → f.swept rule = false) := by
  simp only [Storage.sweep, List.mem_filter, Bool.not_eq_true', Bool.and_eq_false_imp]

theorem Storage.mem_sweep_directories :
    e ∈ (st.sweep rule region).directories ↔ e ∈ st.directories ∧
      (region e = true → 1 < e.length → st.keeps rule e = true) := by
  simp only [Storage.sweep, List.mem_filter, Bool.not_eq_true', Bool.and_eq_false_imp,
    Bool.and_eq_true, decide_eq_true_eq, Bool.not_eq_false', and_imp]

/-- What stays is not touched by a sweep elsewhere. -/
theorem Storage.keeps_sweep : (st.sweep rule region).keeps rule e = st.keeps rule e := by
  rw [Bool.eq_iff_iff, Storage.keeps_iff, Storage.keeps_iff]
  constructor
  · rintro ⟨f, hf, he, hs⟩
    exact ⟨f, (Storage.mem_sweep_files.mp hf).1, he, hs⟩
  · rintro ⟨f, hf, he, hs⟩
    exact ⟨f, Storage.mem_sweep_files.mpr ⟨hf, fun _ => hs⟩, he, hs⟩

/-- Only the paths that can go matter. -/
theorem Storage.sweep_congr (hfiles : ∀ f ∈ st.files, region f.path = region' f.path)
    (hdirectories : ∀ e ∈ st.directories, 1 < e.length → st.keeps rule e = false →
      region e = region' e) :
    st.sweep rule region = st.sweep rule region' := by
  unfold Storage.sweep
  congr 1
  · exact List.filter_congr fun f hf => by rw [hfiles f hf]
  · refine List.filter_congr fun e he => ?_
    by_cases hlength : 1 < e.length
    · cases hkeeps : st.keeps rule e with
      | true => simp
      | false => rw [hdirectories e he hlength hkeeps]
    · simp [hlength]

theorem Storage.sweep_sweep :
    (st.sweep rule region).sweep rule region' =
      st.sweep rule fun p => region p || region' p := by
  have hkeeps : ∀ e, (st.sweep rule region).keeps rule e = st.keeps rule e :=
    fun e => Storage.keeps_sweep
  rw [Storage.sweep]
  simp only [hkeeps]
  unfold Storage.sweep
  simp only [List.filter_filter]
  congr 1
  · refine List.filter_congr fun f _ => ?_
    cases region f.path <;> cases region' f.path <;> cases f.swept rule <;> rfl
  · refine List.filter_congr fun e _ => ?_
    cases region e <;> cases region' e <;> cases st.keeps rule e <;>
      cases decide (1 < e.length) <;> rfl

theorem Storage.sweep_nodes : (st.sweep rule region).nodes.Sublist st.nodes :=
  (List.filter_sublist.map StoredFile.path).append List.filter_sublist

/-- A sweep of a whole region leaves a tree. -/
theorem Storage.Tree.sweep (tree : st.Tree) (rule : CleanupRule) (hregion : Downward region) :
    (st.sweep rule region).Tree where
  distinct := tree.distinct.sublist Storage.sweep_nodes
  named := fun p hp => tree.named p (Storage.sweep_nodes.subset hp)
  separated := fun p hp => tree.separated p (Storage.sweep_nodes.subset hp)
  parent := by
    intro p hp
    have hparent := tree.parent p (Storage.sweep_nodes.subset hp)
    rcases List.mem_cons.mp hparent with hroot | hd
    · rw [hroot]
      exact List.mem_cons_self
    · refine List.mem_cons_of_mem _ (Storage.mem_sweep_directories.mpr ⟨hd, fun hr hl => ?_⟩)
      have hunder : p.dropLast <+: p := p.dropLast_prefix
      have hrp := hregion _ _ hunder hr
      rcases Storage.mem_nodes.mp hp with ⟨f, hf, rfl⟩ | hp
      · obtain ⟨hf, hs⟩ := Storage.mem_sweep_files.mp hf
        exact Storage.keeps_iff.mpr ⟨f, hf, hunder, hs hrp⟩
      · have hlong : 1 < p.length := by
          have h : p.dropLast.length = p.length - 1 := List.length_dropLast
          omega
        have hkeeps := (Storage.mem_sweep_directories.mp hp).2 hrp hlong
        obtain ⟨f, hf, hpf, hs⟩ := Storage.keeps_iff.mp hkeeps
        exact Storage.keeps_iff.mpr ⟨f, hf, hunder.trans hpf, hs⟩

/-- A directory that keeps no file is empty once all below it is swept. -/
theorem Storage.Tree.emptied (tree : st.Tree) (rule : CleanupRule) (he : e ∈ st.directories) :
    ((st.sweep rule (below e)).entryNames e).isEmpty = !st.keeps rule e := by
  have htree := tree.sweep rule (below_downward e)
  have hne := tree.named e (Storage.directory_node he)
  have hlength := List.length_pos_of_ne_nil hne
  rw [Bool.eq_iff_iff, List.isEmpty_iff, Bool.not_eq_true', ← Bool.not_eq_true]
  constructor
  · intro hempty hkeeps
    obtain ⟨f, hf, hef, hs⟩ := Storage.keeps_iff.mp hkeeps
    have hkept : f ∈ (st.sweep rule (below e)).files :=
      Storage.mem_sweep_files.mpr ⟨hf, fun _ => hs⟩
    obtain ⟨name, hname, -⟩ :=
      htree.exists_entry (Storage.file_node hkept) hef (tree.file_ne hf he).symm
    rw [hempty] at hname
    exact absurd hname List.not_mem_nil
  · intro hkeeps
    refine List.eq_nil_iff_forall_not_mem.mpr fun name hname => hkeeps ?_
    have hbelow : below e (e ++ [name]) = true :=
      below_iff.mpr ⟨List.prefix_append _ _, step_ne e name⟩
    rcases Storage.mem_nodes.mp (Storage.mem_entryNames.mp hname) with ⟨f, hf, hpath⟩ | hd
    · obtain ⟨hf, hs⟩ := Storage.mem_sweep_files.mp hf
      rw [← hpath] at hbelow
      exact Storage.keeps_iff.mpr ⟨f, hf, (below_iff.mp hbelow).1, hs hbelow⟩
    · have hlong : 1 < (e ++ [name]).length := by
        rw [List.length_append, List.length_singleton]
        omega
      obtain ⟨f, hf, hpf, hs⟩ :=
        Storage.keeps_iff.mp ((Storage.mem_sweep_directories.mp hd).2 hbelow hlong)
      exact Storage.keeps_iff.mpr ⟨f, hf, (List.prefix_append _ _).trans hpf, hs⟩

theorem Tallied.refl (report : CleanupReport) (st : Storage) : Tallied report report st st :=
  ⟨rfl, rfl⟩

theorem Tallied.trans (h : Tallied report report' st st') (h' : Tallied report' report'' st' st'') :
    Tallied report report'' st st'' :=
  ⟨h'.files.trans h.files, h'.bytes.trans h.bytes⟩

/-- Directories do not count. -/
theorem Tallied.of_files (h : Tallied report report' st st') (hfiles : st'.files = st''.files) :
    Tallied report report' st st'' where
  files := hfiles ▸ h.files
  bytes := by
    rw [Storage.bytes, ← hfiles]
    exact h.bytes

/-- A child's report is added to the loop's. -/
theorem Tallied.add (h : Tallied {} report' st st') :
    Tallied report ⟨report.filesRemoved + report'.filesRemoved,
      report.bytesRemoved + report'.bytesRemoved⟩ st st' where
  files := by
    have hfiles := h.files
    dsimp only at hfiles ⊢
    omega
  bytes := by
    have hbytes := h.bytes
    dsimp only at hbytes ⊢
    omega

/-- Nothing in the region can go. -/
theorem Storage.sweep_eq_self (hfiles : ∀ f ∈ st.files, region f.path = true → f.swept rule = false)
    (hdirectories : ∀ e ∈ st.directories, region e = false) : st.sweep rule region = st := by
  unfold Storage.sweep
  congr 1
  · refine List.filter_eq_self.mpr fun f hf => ?_
    simpa only [Bool.not_eq_true', Bool.and_eq_false_imp] using hfiles f hf
  · refine List.filter_eq_self.mpr fun e he => ?_
    rw [hdirectories e he]
    rfl

end Sweep

/-! ### The walk -/

/-- What a call for one directory does. -/
structure Cleans (rule : CleanupRule) (listing : Listing) (child : Path → Walk CleanupReport)
    (st : Storage) (d : Path) : Prop where
  run : ∃ report, (child d).alone listing st = (.ok report, st.sweep rule (below d)) ∧
    Tallied {} report st (st.sweep rule (below d))

section Walks

variable {rule : CleanupRule} {listing : Listing} {child : Path → Walk CleanupReport}
variable {st : Storage} {d e : Path} {name : String} {f : StoredFile} {report : CleanupReport}

theorem addLength_ok {total len : ℕ} (h : total + len ≤ u64Max) :
    addLength total len = .ok (total + len) :=
  if_neg (by omega)

theorem Storage.Tree.within_file (tree : st.Tree) (hf : f ∈ st.files) {p : Path}
    (hp : p ∈ st.nodes) (h : within [f.path] p = true) : p = f.path := by
  obtain ⟨q, hq, hunder⟩ := within_iff.mp h
  rw [List.mem_singleton.mp hq] at hunder
  exact tree.file_bottom hf hp hunder

theorem Storage.Tree.within_directory (tree : st.Tree) (hf : f ∈ st.files)
    (he : e ∈ st.directories) : within [f.path] e = false := by
  rw [← Bool.not_eq_true]
  intro h
  exact tree.file_ne hf he (tree.within_file hf (Storage.directory_node he) h)

/-- Removing a file sweeps its path. -/
theorem Storage.Tree.removeFile_eq (tree : st.Tree) (hf : f ∈ st.files)
    (hs : f.swept rule = true) : st.removeFile f.path = st.sweep rule (within [f.path]) := by
  unfold Storage.removeFile Storage.sweep
  congr 1
  · refine List.filter_congr fun g hg => ?_
    by_cases hpath : g.path = f.path
    · rw [tree.file_unique hg hf hpath, hs, within_self]
      simp
    · have hout : within [f.path] g.path = false := by
        rw [← Bool.not_eq_true]
        exact fun h => hpath (tree.within_file hf (Storage.file_node hg) h)
      rw [hout]
      simpa using hpath
  · refine (List.filter_eq_self.mpr fun e he => ?_).symm
    rw [tree.within_directory hf he]
    rfl

/-- One file less. -/
theorem Storage.Tree.removeFile_perm (tree : st.Tree) (hf : f ∈ st.files) :
    st.files.Perm (f :: (st.removeFile f.path).files) := by
  have hnodup : st.files.Nodup := (List.nodup_append.mp tree.distinct).1.of_map
  have hsame : (st.removeFile f.path).files = st.files.erase f := by
    rw [hnodup.erase_eq_filter]
    refine List.filter_congr fun g hg => ?_
    rw [Bool.eq_iff_iff, bne_iff_ne, bne_iff_ne, not_iff_not]
    constructor
    · exact tree.file_unique hg hf
    · exact congrArg StoredFile.path
  rw [hsame]
  exact List.perm_cons_erase hf

theorem Storage.Tree.removeFile_bytes (tree : st.Tree) (hf : f ∈ st.files) :
    f.content.length + (st.removeFile f.path).bytes = st.bytes := by
  have hsum := ((tree.removeFile_perm hf).map fun g => g.content.length).sum_nat
  rw [List.map_cons, List.sum_cons] at hsum
  exact hsum.symm

theorem Storage.Tree.removeFile_tallied (tree : st.Tree) (hf : f ∈ st.files) :
    Tallied report ⟨report.filesRemoved + 1, report.bytesRemoved + f.content.length⟩ st
      (st.removeFile f.path) where
  files := by
    have hlength := (tree.removeFile_perm hf).length_eq
    rw [List.length_cons] at hlength
    dsimp only
    omega
  bytes := by
    have hbytes := tree.removeFile_bytes hf
    dsimp only
    omega

section Steps

variable (rule listing)

/-- `cleanupFile` sweeps the path of the file. -/
theorem cleanupFile_alone (tree : st.Tree) (hf : f ∈ st.files)
    (hbytes : report.bytesRemoved + st.bytes ≤ u64Max) :
    ∃ report', (cleanupFile rule f.path ⟨.file, f.content.length, some f.modified⟩ report).alone
        listing st = (.ok report', st.sweep rule (within [f.path])) ∧
      Tallied report report' st (st.sweep rule (within [f.path])) := by
  unfold cleanupFile
  cases hs : f.swept rule with
  | true =>
    have hbytes' := tree.removeFile_bytes hf
    have hrule : rule.removes f.path (some f.modified) = true := hs
    have hremove : (Walk.removeFile f.path).alone listing st = (.ok (), st.removeFile f.path) :=
      Walk.removeFile_alone (List.mem_map_of_mem hf)
    have hadd : (liftM (addLength report.bytesRemoved f.content.length) : Walk ℕ).alone listing
        (st.removeFile f.path) =
          (.ok (report.bytesRemoved + f.content.length), st.removeFile f.path) := by
      rw [Walk.alone_lift, addLength_ok (by omega)]
    refine ⟨⟨report.filesRemoved + 1, report.bytesRemoved + f.content.length⟩, ?_, ?_⟩
    · simp only [hrule, if_true]
      rw [Walk.alone_bind_ok hremove, Walk.alone_bind_ok hadd, Walk.alone_pure,
        tree.removeFile_eq hf hs]
    · rw [← tree.removeFile_eq hf hs]
      exact tree.removeFile_tallied hf
  | false =>
    have hsame : st.sweep rule (within [f.path]) = st := by
      refine Storage.sweep_eq_self (fun g hg h => ?_) fun e he => tree.within_directory hf he
      have hpath := tree.within_file hf (Storage.file_node hg) h
      rw [tree.file_unique hg hf hpath, hs]
    refine ⟨report, ?_, ?_⟩
    · have hrule : rule.removes f.path (some f.modified) = false := hs
      simp only [hrule, Bool.false_eq_true, if_false]
      rw [Walk.alone_pure, hsame]
    · rw [hsame]
      exact .refl report st

/-- The directory itself goes when it is below the first level and keeps no file. -/
theorem removeIfEmpty_alone (tree : st.Tree) (he : d ++ [name] ∈ st.directories) :
    (removeIfEmpty d (d ++ [name])).alone listing (st.sweep rule (below (d ++ [name]))) =
      (.ok (), st.sweep rule (within [d ++ [name]])) := by
  have hfiles : ∀ f ∈ st.files, below (d ++ [name]) f.path = within [d ++ [name]] f.path :=
    fun f hf => below_eq_within (tree.file_ne hf he).symm
  by_cases hd : d = []
  · have hsame : st.sweep rule (below (d ++ [name])) = st.sweep rule (within [d ++ [name]]) := by
      refine Storage.sweep_congr hfiles fun e _ hlength _ => below_eq_within ?_
      rintro rfl
      simp [hd] at hlength
    rw [removeIfEmpty, if_pos hd, Walk.alone_pure, hsame]
  · have hkept : d ++ [name] ∈ (st.sweep rule (below (d ++ [name]))).directories := by
      refine Storage.mem_sweep_directories.mpr ⟨he, fun h => ?_⟩
      exact absurd rfl (below_iff.mp h).2
    have hempty := tree.emptied rule he
    rw [removeIfEmpty, if_neg hd, Walk.alone_bind_ok (Walk.isEmpty_alone hkept), hempty]
    cases hkeeps : st.keeps rule (d ++ [name]) with
    | true =>
      have hsame : st.sweep rule (below (d ++ [name])) = st.sweep rule (within [d ++ [name]]) := by
        refine Storage.sweep_congr hfiles fun e _ _ hgone => below_eq_within ?_
        rintro rfl
        rw [hkeeps] at hgone
        cases hgone
      simp only [Bool.not_true, Bool.false_eq_true, if_false]
      rw [Walk.alone_pure, hsame]
    | false =>
      have hnone : (st.sweep rule (below (d ++ [name]))).entryNames (d ++ [name]) = [] := by
        rw [← List.isEmpty_iff, hempty, hkeeps]
        rfl
      simp only [Bool.not_false, if_true]
      rw [Walk.removeDirectory_alone hkept hnone]
      congr 1
      unfold Storage.removeDirectory Storage.sweep
      congr 1
      · exact List.filter_congr fun f hf => by rw [hfiles f hf]
      · rw [List.filter_filter]
        refine List.filter_congr fun e _ => ?_
        by_cases hpath : e = d ++ [name]
        · have hlength : 1 < (d ++ [name]).length := by
            have hpos := List.length_pos_of_ne_nil hd
            rw [List.length_append, List.length_singleton]
            omega
          rw [hpath, within_self, hkeeps, decide_eq_true hlength]
          simp
        · rw [below_eq_within hpath]
          simp [hpath]

end Steps

/-- One entry of the loop sweeps what is at or below it. -/
theorem cleanupEntry_alone (tree : st.Tree) (hnode : d ++ [name] ∈ st.nodes)
    (hbytes : report.bytesRemoved + st.bytes ≤ u64Max)
    (hchild : d ++ [name] ∈ st.directories → Cleans rule listing child st (d ++ [name]))
    (entries : Entries) :
    ∃ report', (cleanupEntries rule child d (.ok name :: entries) report).alone listing st =
        (cleanupEntries rule child d entries report').alone listing
          (st.sweep rule (within [d ++ [name]])) ∧
      Tallied report report' st (st.sweep rule (within [d ++ [name]])) := by
  have hname : (liftM (Except.ok name : Except StorageError String) : Walk String).alone listing
      st = (.ok name, st) := Walk.alone_lift _
  rw [cleanupEntries, Walk.alone_bind_ok hname]
  dsimp only
  rcases Storage.mem_nodes.mp hnode with ⟨f, hf, hpath⟩ | hd
  · have hmetadata := Walk.metadata_file listing tree hf
    obtain ⟨report', hrun, htally⟩ := cleanupFile_alone rule listing tree hf hbytes
    rw [hpath] at hmetadata hrun htally
    refine ⟨report', ?_, htally⟩
    rw [Walk.alone_bind_ok hmetadata, if_neg (by simp), Walk.alone_bind_ok hrun]
  · obtain ⟨report', hrun, htally⟩ := (hchild hd).run
    have hremove := removeIfEmpty_alone rule listing tree hd
    refine ⟨⟨report.filesRemoved + report'.filesRemoved,
      report.bytesRemoved + report'.bytesRemoved⟩, ?_, ?_⟩
    · rw [Walk.alone_bind_ok (Walk.metadata_directory tree hd), if_pos rfl,
        Walk.alone_bind_ok hrun, Walk.alone_bind_ok hremove]
    · have hfiles : (st.sweep rule (below (d ++ [name]))).files =
          (st.sweep rule (within [d ++ [name]])).files :=
        List.filter_congr fun f hf => by rw [below_eq_within (tree.file_ne hf hd).symm]
      exact htally.add.of_files hfiles

/-- One entry of the loop, and the rest of it. -/
theorem cleanupEntries_alone (child : Path → Walk CleanupReport) (names : List String) :
    ∀ {st : Storage} (report : CleanupReport), st.Tree → names.Nodup →
      (∀ name ∈ names, d ++ [name] ∈ st.nodes) →
      report.bytesRemoved + st.bytes ≤ u64Max →
      (∀ st' : Storage, st'.Tree → st'.directories ⊆ st.directories → st'.bytes ≤ u64Max →
        ∀ name, d ++ [name] ∈ st'.directories → Cleans rule listing child st' (d ++ [name])) →
      ∃ report', (cleanupEntries rule child d (names.map .ok) report).alone listing st =
          (.ok report', st.sweep rule (within (names.map fun name => d ++ [name]))) ∧
        Tallied report report' st (st.sweep rule (within (names.map fun name => d ++ [name]))) := by
  induction names with
  | nil =>
    intro st report _ _ _ _ _
    have hsame : st.sweep rule (within []) = st :=
      Storage.sweep_eq_self (fun _ _ h => absurd h Bool.false_ne_true) fun _ _ => rfl
    simp only [List.map_nil, hsame]
    exact ⟨report, rfl, .refl report st⟩
  | cons name names ih =>
    intro st report tree hnodup hnames hbytes hchild
    obtain ⟨hfresh, hnodup⟩ := List.nodup_cons.mp hnodup
    obtain ⟨report', hrun, htally⟩ := cleanupEntry_alone tree (hnames name List.mem_cons_self)
      hbytes (hchild st tree (List.Subset.refl _) (by omega) name) (names.map .ok)
    have htree := tree.sweep rule (within_downward [d ++ [name]])
    have hbytes' := htally.bytes
    have hstay : ∀ other ∈ names, d ++ [other] ∈ (st.sweep rule (within [d ++ [name]])).nodes := by
      intro other hother
      have hout : within [d ++ [name]] (d ++ [other]) = true → False := by
        intro h
        obtain ⟨q, hq, hunder⟩ := within_iff.mp h
        rw [List.mem_singleton.mp hq] at hunder
        exact hfresh (step_unique hunder (List.prefix_refl _) ▸ hother)
      rcases Storage.mem_nodes.mp (hnames other (List.mem_cons_of_mem _ hother)) with
        ⟨f, hf, hpath⟩ | hd
      · refine Storage.mem_nodes.mpr (Or.inl ⟨f, Storage.mem_sweep_files.mpr ⟨hf, ?_⟩, hpath⟩)
        rw [hpath]
        exact fun h => (hout h).elim
      · exact Storage.directory_node
          (Storage.mem_sweep_directories.mpr ⟨hd, fun h => (hout h).elim⟩)
    obtain ⟨report'', hrun', htally'⟩ := ih report' htree hnodup hstay (by omega)
      fun st' ht hsub => hchild st' ht (List.Subset.trans hsub (List.filter_subset_self _))
    have hjoin : (st.sweep rule (within [d ++ [name]])).sweep rule
        (within (names.map fun name => d ++ [name])) =
          st.sweep rule (within ((name :: names).map fun name => d ++ [name])) := by
      rw [Storage.sweep_sweep]
      congr 1
      funext p
      simp [within]
    rw [hjoin] at hrun' htally'
    exact ⟨report'', hrun.trans hrun', htally.trans htally'⟩

/-- `cleanup_directory` sweeps all that lies below its directory. -/
theorem cleanupDirectory_alone (rule : CleanupRule) (listing : Listing) (depth : ℕ) :
    ∀ {st : Storage} {d : Path}, st.Tree → d ∈ st.folders → st.bytes ≤ u64Max →
      (∀ e ∈ st.folders, e.length < d.length + depth) →
      Cleans rule listing (cleanupDirectory rule depth) st d := by
  induction depth with
  | zero =>
    intro st d _ hd _ hdepth
    exact absurd (hdepth d hd) (by omega)
  | succ depth ih =>
    intro st d tree hd hbytes hdepth
    have hperm := listing.complete st d
    have hnames : ∀ name ∈ listing.names st d, d ++ [name] ∈ st.nodes :=
      fun name h => Storage.mem_entryNames.mp (hperm.subset h)
    have hchild : ∀ st' : Storage, st'.Tree → st'.directories ⊆ st.directories →
        st'.bytes ≤ u64Max → ∀ name, d ++ [name] ∈ st'.directories →
          Cleans rule listing (cleanupDirectory rule depth) st' (d ++ [name]) := by
      intro st' htree hsub hbytes' name hname
      refine ih htree (List.mem_cons_of_mem _ hname) hbytes' fun e he => ?_
      have h := hdepth e (List.cons_subset_cons _ hsub he)
      rw [List.length_append, List.length_singleton]
      omega
    obtain ⟨report, hrun, htally⟩ := cleanupEntries_alone (cleanupDirectory rule depth)
      (listing.names st d) {} tree (hperm.nodup_iff.mpr (tree.entryNames_nodup d)) hnames
      (by simpa using hbytes) hchild
    have hregion : st.sweep rule (within ((listing.names st d).map fun name => d ++ [name])) =
        st.sweep rule (below d) := by
      exact Storage.sweep_congr
        (fun f hf => tree.within_entries hperm (Storage.file_node hf))
        fun e he _ _ => tree.within_entries hperm (Storage.directory_node he)
    rw [hregion] at hrun htally
    refine ⟨report, ?_, htally⟩
    unfold cleanupDirectory
    rw [Walk.alone_bind_ok (Walk.readDirectory_alone hd)]
    exact hrun

end Walks

end TaskHarbor
