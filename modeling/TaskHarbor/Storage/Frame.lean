import TaskHarbor.Storage.Images

/-! Storage outside a directory. What a request writes below its batch directory leaves the other
files as they were, so removing that directory takes every trace away. -/
namespace TaskHarbor

open Transaction

/-- No file and no directory at or below `p`. -/
structure Storage.Free (st : Storage) (p : Path) : Prop where
  files : ∀ f ∈ st.files, ¬p <+: f.path
  directories : ∀ d ∈ st.directories, ¬p <+: d

/-- The files outside `p` are the same. -/
def SameOutside (p : Path) (st st' : Storage) : Prop :=
  (st'.removeTree p).files = (st.removeTree p).files

/-- The files are the same, and nothing is left at or below `p`. -/
structure Restored (p : Path) (st st' : Storage) : Prop where
  files : st'.files = st.files
  free : st'.Free p

theorem outside_iff {p path : Path} : (!p.isPrefixOf path) = true ↔ ¬p <+: path := by
  rw [Bool.not_eq_true', ← Bool.not_eq_true, List.isPrefixOf_iff_prefix]

section Frame

variable {p path : Path} {st st' st'' : Storage}

theorem SameOutside.refl (p : Path) (st : Storage) : SameOutside p st st := rfl

theorem SameOutside.trans (h : SameOutside p st st') (h' : SameOutside p st' st'') :
    SameOutside p st st'' := Eq.trans h' h

theorem Storage.Free.restored (h : st.Free p) : Restored p st st := ⟨rfl, h⟩

/-- Removing the tree leaves nothing of it. -/
theorem removeTree_free (st : Storage) (p : Path) : (st.removeTree p).Free p where
  files := by
    intro f hf
    exact outside_iff.mp (List.mem_filter.mp hf).2
  directories := by
    intro d hd
    exact outside_iff.mp (List.mem_filter.mp hd).2

theorem Storage.Free.removeTree_files (h : st.Free p) : (st.removeTree p).files = st.files := by
  exact List.filter_eq_self.mpr fun f hf => outside_iff.mpr (h.files f hf)

/-- Where the tree was free before, removing it restores the storage. -/
theorem SameOutside.restored (h : SameOutside p st st') (hfree : st.Free p) :
    Restored p st (st'.removeTree p) :=
  ⟨Eq.trans h hfree.removeTree_files, removeTree_free st' p⟩

/-- The file system refuses no removal below `p`. -/
def Disk.Removes (disk : Disk) (p : Path) : Prop :=
  ∀ path, p <+: path → disk.faults (.removeEntry path) = none

/-- Whatever it refuses, a removal leaves what is outside. -/
theorem Disk.removeTree_outside (disk : Disk) (p : Path) (st : Storage) :
    SameOutside p st (disk.removeTree p st) := by
  unfold SameOutside Disk.removeTree Storage.removeTree
  simp only [List.filter_filter]
  refine List.filter_congr fun f _ => ?_
  cases p.isPrefixOf f.path <;> rfl

/-- It leaves a path as it is, or takes its file. -/
theorem Disk.removeTree_shrinks (disk : Disk) (p : Path) (st : Storage) (q : Path) :
    (disk.removeTree p st).read? q = none ∨ (disk.removeTree p st).read? q = st.read? q := by
  unfold Disk.removeTree Storage.read?
  rw [List.find?_filter]
  cases hkept : !p.isPrefixOf q || (disk.faults (.removeEntry q)).isSome with
  | false =>
    left
    rw [Option.map_eq_none_iff, List.find?_eq_none]
    intro f _ hboth
    simp only [decide_eq_true_eq, beq_iff_eq] at hboth
    obtain ⟨hstays, rfl⟩ := hboth
    rw [hkept] at hstays
    cases hstays
  | true =>
    right
    congr 2
    funext f
    rcases eq_or_ne f.path q with rfl | hf
    · simp only [hkept, beq_self_eq_true, and_self, decide_true]
    · simp [hf]

/-- Without a refusal the whole tree is gone. -/
theorem Disk.removeTree_unrefused {disk : Disk} (h : disk.refusal p st = none) :
    disk.removeTree p st = st.removeTree p := by
  have hentry : ∀ q ∈ st.files.map StoredFile.path ++ st.directories,
      (!p.isPrefixOf q || (disk.faults (.removeEntry q)).isSome) = !p.isPrefixOf q := by
    intro q hq
    cases hp : p.isPrefixOf q with
    | false => rfl
    | true =>
      rw [List.findSome?_eq_none_iff.mp h q (List.mem_filter.mpr ⟨hq, hp⟩)]
      rfl
  unfold Disk.removeTree Storage.removeTree
  congr 1
  · exact List.filter_congr fun f hf => hentry _ (List.mem_append_left _ (List.mem_map_of_mem hf))
  · exact List.filter_congr fun d hd => hentry _ (List.mem_append_right _ hd)

theorem Disk.Removes.refusal {disk : Disk} (h : disk.Removes p) (st : Storage) :
    disk.refusal p st = none := by
  refine List.findSome?_eq_none_iff.mpr fun q hq => h q ?_
  exact List.isPrefixOf_iff_prefix.mp (List.mem_filter.mp hq).2

theorem Disk.Removes.removeTree {disk : Disk} (h : disk.Removes p) (st : Storage) :
    disk.removeTree p st = st.removeTree p := Disk.removeTree_unrefused (h.refusal st)

theorem removeTree_run (disk : Disk) {key : String} (hkey : resolveKey key = .ok p)
    (st : Storage) : TaskHarbor.removeTree disk key st =
      ((disk.refusal p st).elim (.ok ()) .error, disk.removeTree p st) := by
  unfold TaskHarbor.removeTree
  rw [Session.bind_run, Session.liftExcept_run, hkey]
  dsimp only
  rw [Session.bind_run, query_run]
  dsimp only
  rw [Session.bind_run, Session.modify_run]
  cases disk.refusal p st <;> rfl

theorem Restored.usage (h : Restored p st st') (disk : Disk) :
    (usageBytes disk st').1 = (usageBytes disk st).1 := by
  have hbytes : st'.bytes = st.bytes := by rw [Storage.bytes, Storage.bytes, h.files]
  unfold usageBytes
  rw [Session.bind_run, Session.bind_run, Session.liftExcept_run, Session.liftExcept_run]
  cases disk.attempt .usage with
  | error e => rfl
  | ok u => simp only [query_run, hbytes]

/-! ### Writes below a directory -/

theorem createFile_outside (h : p <+: path) (modified : ℤ) :
    SameOutside p st (st.createFile path modified) := by
  have hinside : p.isPrefixOf path = true := List.isPrefixOf_iff_prefix.mpr h
  unfold SameOutside Storage.removeTree Storage.createFile
  simp only [List.filter_append, List.filter_filter]
  rw [List.filter_cons_of_neg (by simp [hinside]), List.filter_nil, List.append_nil]
  refine List.filter_congr fun f _ => ?_
  rcases eq_or_ne f.path path with hf | hf
  · simp [hf, hinside]
  · simp [hf]

theorem append_outside (h : p <+: path) (bytes : List UInt8) :
    SameOutside p st (st.append path bytes) := by
  have hinside : p.isPrefixOf path = true := List.isPrefixOf_iff_prefix.mpr h
  unfold SameOutside Storage.removeTree Storage.append
  induction st.files with
  | nil => rfl
  | cons f files ih =>
    simp only at ih
    simp only [List.map_cons, List.filter_cons, ih]
    rcases eq_or_ne f.path path with hf | hf
    · simp [hf, hinside]
    · simp [hf]

theorem createDirAll_outside (st : Storage) (path : Path) :
    SameOutside p st (st.createDirAll path) := rfl

/-- A relation that every write below `p` respects. -/
structure WritesBelow (p : Path) (R : Storage → Storage → Prop) : Prop where
  refl : ∀ st, R st st
  trans : ∀ s t u, R s t → R t u → R s u
  createFile : ∀ {path}, p <+: path → ∀ st modified, R st (st.createFile path modified)
  append : ∀ {path}, p <+: path → ∀ st bytes, R st (st.append path bytes)

theorem writesBelow_outside (p : Path) : WritesBelow p (SameOutside p) where
  refl := .refl p
  trans := fun _ _ _ => .trans
  createFile := fun h _ => createFile_outside h
  append := fun h _ => append_outside h

def Storage.paths (st : Storage) : List Path := st.files.map StoredFile.path

theorem createFile_paths (st : Storage) (path : Path) (modified : ℤ) :
    path ∈ (st.createFile path modified).paths := by
  simp [Storage.paths, Storage.createFile]

theorem append_paths (st : Storage) (path : Path) (bytes : List UInt8) :
    (st.append path bytes).paths = st.paths := by
  unfold Storage.paths Storage.append
  rw [List.map_map]
  refine List.map_congr_left fun f _ => ?_
  simp only [Function.comp_apply]
  split <;> rfl

/-- Writes remove no file. -/
theorem writesBelow_paths (p : Path) : WritesBelow p fun st st' => st.paths ⊆ st'.paths where
  refl := fun st => List.Subset.refl st.paths
  trans := fun _ _ _ => List.Subset.trans
  createFile := by
    intro path _ st modified q hq
    rcases eq_or_ne q path with rfl | hne
    · exact createFile_paths st q modified
    · obtain ⟨f, hf, rfl⟩ := List.mem_map.mp hq
      refine List.mem_map.mpr ⟨f, List.mem_append_left _ ?_, rfl⟩
      exact List.mem_filter.mpr ⟨hf, by simpa using hne⟩
  append := by
    intro path _ st bytes
    rw [append_paths]
    exact List.Subset.refl _

/-! ### Operations of the storage -/

theorem inspect_reads (images : ImageService) (key : String) (st : Storage) :
    (inspect images key st).2 = st := by
  unfold inspect
  rw [Session.bind_run, Session.liftExcept_run]
  cases (resolveKey key).mapError ImageError.storage with
  | error e => rfl
  | ok path =>
    dsimp only
    cases images.faults path with
    | some e => rfl
    | none =>
      show ((query _ >>= fun bytes => liftM (inspectPath images bytes)) st).2 = st
      rw [Session.bind_run, query_run]
      cases st.read? path with
      | none => rfl
      | some bytes =>
        show ((liftM (inspectPath images bytes) : Transaction.Session _ _ _) st).2 = st
        rw [Session.liftExcept_run]

theorem writeAll_moves {R : Storage → Storage → Prop} (hR : WritesBelow p R) (disk : Disk)
    (h : p <+: path) (offset : ℕ) (chunk : List UInt8) :
    Session.Moves R (writeAll disk path offset chunk) st :=
  Session.moves_lift_bind (hR.refl st) fun _ _ => hR.append h st chunk

end Frame

end TaskHarbor
