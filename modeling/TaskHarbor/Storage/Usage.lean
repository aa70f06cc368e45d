import TaskHarbor.Storage.Sweep

/-! `directory_usage`: the stack of pending directories always accounts for every byte that the
total does not have yet, so the walk ends with the bytes of all files. -/
namespace TaskHarbor

open Interleaving Transaction

/-! ### Weights of regions -/

/-- The sum of `w` over the `xs` whose key is in the region. -/
def weight {α : Type} (xs : List α) (key : α → Path) (w : α → ℕ) (region : Path → Bool) : ℕ :=
  ((xs.filter fun x => region (key x)).map w).sum

section Weight

variable {α : Type} {xs : List α} {key : α → Path} {w : α → ℕ} {region region' : Path → Bool}

theorem weight_congr (h : ∀ x ∈ xs, region (key x) = region' (key x)) :
    weight xs key w region = weight xs key w region' := by
  unfold weight
  rw [List.filter_congr h]

theorem weight_or (h : ∀ x ∈ xs, region (key x) = true → region' (key x) = false) :
    weight xs key w (fun p => region p || region' p) =
      weight xs key w region + weight xs key w region' := by
  unfold weight
  induction xs with
  | nil => rfl
  | cons x xs ih =>
    have hrest := ih fun y hy => h y (List.mem_cons_of_mem _ hy)
    have hx := h x List.mem_cons_self
    cases hr : region (key x) with
    | true =>
      simp only [List.filter_cons, hr, hx hr, Bool.true_or, if_true, Bool.false_eq_true, if_false,
        List.map_cons, List.sum_cons, hrest]
      omega
    | false =>
      cases hr' : region' (key x) with
      | true =>
        simp only [List.filter_cons, hr, hr', Bool.false_or, if_true, Bool.false_eq_true, if_false,
          List.map_cons, List.sum_cons, hrest]
        omega
      | false =>
        simp only [List.filter_cons, hr, hr', Bool.or_self, Bool.false_eq_true, if_false, hrest]

/-- Regions with nothing in common add up. -/
theorem weight_within {paths : List Path}
    (h : paths.Pairwise fun p q => ∀ r, ¬(p <+: r ∧ q <+: r)) :
    (paths.map fun p => weight xs key w (within [p])).sum = weight xs key w (within paths) := by
  induction paths with
  | nil =>
    unfold weight
    simp [within]
  | cons p paths ih =>
    obtain ⟨hp, hpaths⟩ := List.pairwise_cons.mp h
    have hsplit : within (p :: paths) = fun q => within [p] q || within paths q := by
      funext q
      simp [within]
    rw [List.map_cons, List.sum_cons, ih hpaths, hsplit, weight_or]
    intro x _ hx
    rw [← Bool.not_eq_true]
    intro hx'
    obtain ⟨q, hq, hqx⟩ := within_iff.mp hx
    obtain ⟨q', hq', hqx'⟩ := within_iff.mp hx'
    rw [List.mem_singleton.mp hq] at hqx
    exact hp q' hq' _ ⟨hqx, hqx'⟩

end Weight

/-- The bytes of the files in a region. -/
def Storage.bytesIn (st : Storage) (region : Path → Bool) : ℕ :=
  weight st.files StoredFile.path (fun f => f.content.length) region

/-- The number of directories in a region. -/
def Storage.foldersIn (st : Storage) (region : Path → Bool) : ℕ :=
  weight st.folders id (fun _ => 1) region

/-- The bytes at or below each of the paths. -/
def Storage.load (st : Storage) (paths : List Path) : ℕ :=
  (paths.map fun p => st.bytesIn (within [p])).sum

/-- The directories at or below each of the paths. -/
def Storage.reach (st : Storage) (paths : List Path) : ℕ :=
  (paths.map fun p => st.foldersIn (within [p])).sum

section Load

variable {st : Storage} {d e p : Path} {f : StoredFile} {paths : List Path} {names : List String}

@[simp] theorem Storage.load_nil : st.load [] = 0 := rfl

@[simp] theorem Storage.reach_nil : st.reach [] = 0 := rfl

@[simp] theorem Storage.load_cons :
    st.load (p :: paths) = st.bytesIn (within [p]) + st.load paths := by
  simp [Storage.load]

@[simp] theorem Storage.reach_cons :
    st.reach (p :: paths) = st.foldersIn (within [p]) + st.reach paths := by
  simp [Storage.reach]

theorem within_root (p : Path) : within [[]] p = true :=
  within_iff.mpr ⟨[], List.mem_singleton_self _, List.nil_prefix⟩

theorem Storage.load_root : st.load [[]] = st.bytes := by
  have hall : (st.files.filter fun f => within [[]] f.path) = st.files :=
    List.filter_eq_self.mpr fun f _ => within_root f.path
  simp [Storage.bytesIn, weight, hall, Storage.bytes]

theorem Storage.reach_root : st.reach [[]] = st.directories.length + 1 := by
  have hall : (st.folders.filter fun p => within [[]] p) = st.folders :=
    List.filter_eq_self.mpr fun p _ => within_root p
  have hone : st.foldersIn (within [[]]) = st.folders.length := by
    unfold Storage.foldersIn weight
    simp only [id_eq, hall, List.map_const', List.sum_replicate_nat, Nat.mul_one]
  simp [hone, Storage.folders]

theorem steps_apart (hnodup : names.Nodup) (d : Path) :
    (names.map fun name => d ++ [name]).Pairwise fun p q => ∀ r, ¬(p <+: r ∧ q <+: r) := by
  refine List.pairwise_map.mpr (hnodup.imp ?_)
  intro a b hne r h
  exact hne (step_unique h.1 h.2)

/-- The entries of a directory hold its bytes. -/
theorem Storage.Tree.load_entries (tree : st.Tree) (hd : d ∈ st.folders)
    (hnames : names.Perm (st.entryNames d)) :
    st.load (names.map fun name => d ++ [name]) = st.bytesIn (within [d]) := by
  have hnodup := hnames.nodup_iff.mpr (tree.entryNames_nodup d)
  unfold Storage.load Storage.bytesIn
  rw [weight_within (steps_apart hnodup d)]
  refine weight_congr fun f hf => ?_
  rw [tree.within_entries hnames (Storage.file_node hf)]
  refine below_eq_within ?_
  rintro rfl
  rcases List.mem_cons.mp hd with hroot | hd
  · exact tree.named _ (Storage.file_node hf) hroot
  · exact tree.file_ne hf hd rfl

/-- They hold its directories, itself apart. -/
theorem Storage.Tree.reach_entries (tree : st.Tree) (hd : d ∈ st.folders)
    (hnames : names.Perm (st.entryNames d)) :
    st.reach (names.map fun name => d ++ [name]) < st.foldersIn (within [d]) := by
  have hnodup := hnames.nodup_iff.mpr (tree.entryNames_nodup d)
  have hentries : st.reach (names.map fun name => d ++ [name]) = st.foldersIn (below d) := by
    unfold Storage.reach Storage.foldersIn
    rw [weight_within (steps_apart hnodup d)]
    refine weight_congr fun p hp => ?_
    rcases List.mem_cons.mp hp with rfl | hp
    · have hout : within (names.map fun name => d ++ [name]) (id []) = false := by
        rw [← Bool.not_eq_true]
        intro h
        obtain ⟨q, hq, hunder⟩ := within_iff.mp h
        obtain ⟨name, -, rfl⟩ := List.mem_map.mp hq
        exact List.append_ne_nil_of_right_ne_nil _ (by simp) (List.prefix_nil.mp hunder)
      have hroot : below d (id []) = false := by
        rw [← Bool.not_eq_true]
        intro h
        obtain ⟨hunder, hne⟩ := below_iff.mp h
        exact hne (List.prefix_nil.mp hunder).symm
      rw [hout, hroot]
    · exact tree.within_entries hnames (Storage.directory_node hp)
  have hself : st.foldersIn (within [d]) =
      st.foldersIn (below d) + st.foldersIn fun p => p == d := by
    unfold Storage.foldersIn
    rw [← weight_or fun p _ h => by simpa using (below_iff.mp h).2]
    refine weight_congr fun p _ => ?_
    rcases eq_or_ne p d with rfl | hne
    · simp [within_self]
    · simp [below_eq_within hne, hne]
  have hpos : 0 < st.foldersIn fun p => p == d := by
    unfold Storage.foldersIn weight
    have hmem : d ∈ st.folders.filter fun p => id p == d := List.mem_filter.mpr ⟨hd, by simp⟩
    have hlength := List.length_pos_of_mem hmem
    simpa using hlength
  omega

/-- Of a file there is nothing else. -/
theorem Storage.Tree.bytesIn_file (tree : st.Tree) (hf : f ∈ st.files) :
    st.bytesIn (within [f.path]) = f.content.length := by
  unfold Storage.bytesIn weight
  have hperm := ((tree.removeFile_perm hf).filter fun g => within [f.path] g.path).map
    fun g => g.content.length
  have hnone : ((st.removeFile f.path).files.filter fun g => within [f.path] g.path) = [] := by
    refine List.filter_eq_nil_iff.mpr fun g hg h => ?_
    obtain ⟨hg, hne⟩ := List.mem_filter.mp hg
    rw [tree.within_file hf (Storage.file_node hg) h] at hne
    simp at hne
  rw [hperm.sum_nat, List.filter_cons, if_pos (within_self f.path), hnone]
  simp

theorem Storage.Tree.foldersIn_file (tree : st.Tree) (hf : f ∈ st.files) :
    st.foldersIn (within [f.path]) = 0 := by
  have hnone : (st.folders.filter fun p => within [f.path] p) = [] := by
    refine List.filter_eq_nil_iff.mpr fun p hp => ?_
    rw [Bool.not_eq_true]
    rcases List.mem_cons.mp hp with rfl | hp
    · rw [← Bool.not_eq_true]
      intro h
      obtain ⟨q, hq, hunder⟩ := within_iff.mp h
      rw [List.mem_singleton.mp hq] at hunder
      exact tree.named _ (Storage.file_node hf) (List.prefix_nil.mp hunder)
    · exact tree.within_directory hf hp
  simp [Storage.foldersIn, weight, hnone]

theorem Storage.load_append {paths' : List Path} :
    st.load (paths ++ paths') = st.load paths + st.load paths' := by
  simp [Storage.load]

theorem Storage.reach_append {paths' : List Path} :
    st.reach (paths ++ paths') = st.reach paths + st.reach paths' := by
  simp [Storage.reach]

end Load

/-! ### The walk -/

/-- The inner loop pushes directories and counts files, so that nothing of `work` is lost. -/
structure Counted (st : Storage) (work : List Path) (total : ℕ) (pending : List Path)
    (total' : ℕ) : Prop where
  bytes : total' + st.load pending = total + st.load work
  folders : st.reach pending = st.reach work
  directories : ∀ p ∈ pending, p ∈ st.folders
  bounded : total' ≤ u64Max

section Walks

variable {listing : Listing} {st : Storage} {d : Path}

theorem addLength_overflow {total len : ℕ} (h : u64Max < total + len) :
    addLength total len = .error .usageOverflow :=
  if_pos h

/-- The inner loop ends with all its entries counted, or the bytes are too many. -/
theorem usageEntries_alone (listing : Listing) (tree : st.Tree) (names : List String) :
    ∀ {pending : List Path} {total : ℕ}, (∀ name ∈ names, d ++ [name] ∈ st.nodes) →
      (∀ p ∈ pending, p ∈ st.folders) → total ≤ u64Max →
      (∃ pending' total', (usageEntries d (names.map .ok) pending total).alone listing st =
          (.ok (pending', total'), st) ∧
        Counted st ((names.map fun name => d ++ [name]) ++ pending) total pending' total') ∨
      ((usageEntries d (names.map .ok) pending total).alone listing st =
          (.error .usageOverflow, st) ∧
        u64Max < total + st.load ((names.map fun name => d ++ [name]) ++ pending)) := by
  induction names with
  | nil =>
    intro pending total _ hpending htotal
    exact Or.inl ⟨pending, total, rfl, rfl, rfl, hpending, htotal⟩
  | cons name names ih =>
    intro pending total hnames hpending htotal
    have hrest := fun other hother => hnames other (List.mem_cons_of_mem name hother)
    have hname : (liftM (Except.ok name : Except StorageError String) : Walk String).alone listing
        st = (.ok name, st) := Walk.alone_lift _
    simp only [List.map_cons, List.cons_append, Storage.load_cons]
    rw [usageEntries, Walk.alone_bind_ok hname]
    dsimp only
    rcases Storage.mem_nodes.mp (hnames name List.mem_cons_self) with ⟨f, hf, hpath⟩ | hd
    · have hmetadata := Walk.metadata_file listing tree hf
      have hbytes := tree.bytesIn_file hf
      have hfolders := tree.foldersIn_file hf
      rw [hpath] at hmetadata hbytes hfolders
      rw [Walk.alone_bind_ok hmetadata, hbytes]
      dsimp only
      by_cases hover : u64Max < total + f.content.length
      · right
        constructor
        · rw [addLength_overflow hover]
          exact Walk.alone_bind_error (Walk.alone_lift _)
        · omega
      · have hadd : (liftM (addLength total f.content.length) : Walk ℕ).alone listing st =
            (.ok (total + f.content.length), st) := by
          rw [Walk.alone_lift, addLength_ok (by omega)]
        rw [Walk.alone_bind_ok hadd]
        rcases ih hrest hpending (show total + f.content.length ≤ u64Max by omega) with
          ⟨pending', total', hrun, hcounted⟩ | ⟨hrun, hover⟩
        · refine Or.inl ⟨pending', total', hrun, ?_, ?_, hcounted.directories, hcounted.bounded⟩
          · have h := hcounted.bytes
            rw [Storage.load_cons, hbytes]
            omega
          · have h := hcounted.folders
            rw [Storage.reach_cons, hfolders]
            omega
        · exact Or.inr ⟨hrun, by omega⟩
    · rw [Walk.alone_bind_ok (Walk.metadata_directory tree hd)]
      dsimp only
      have hpending' : ∀ p ∈ (d ++ [name]) :: pending, p ∈ st.folders := by
        intro p hp
        rcases List.mem_cons.mp hp with rfl | hp
        · exact List.mem_cons_of_mem _ hd
        · exact hpending p hp
      rcases ih hrest hpending' htotal with ⟨pending', total', hrun, hcounted⟩ | ⟨hrun, hover⟩
      · refine Or.inl ⟨pending', total', hrun, ?_, ?_, hcounted.directories, hcounted.bounded⟩
        · have h := hcounted.bytes
          rw [Storage.load_append, Storage.load_cons] at h
          rw [Storage.load_cons, Storage.load_append]
          omega
        · have h := hcounted.folders
          rw [Storage.reach_append, Storage.reach_cons] at h
          rw [Storage.reach_cons, Storage.reach_append]
          omega
      · rw [Storage.load_append, Storage.load_cons] at hover
        rw [Storage.load_append]
        exact Or.inr ⟨hrun, by omega⟩

/-- Enough steps empty the stack. -/
theorem usageFrom_alone (listing : Listing) (tree : st.Tree) (steps : ℕ) :
    ∀ {pending : List Path} {total : ℕ}, (∀ p ∈ pending, p ∈ st.folders) →
      st.reach pending < steps → total ≤ u64Max →
      (usageFrom steps pending total).alone listing st =
        (if total + st.load pending ≤ u64Max then .ok (total + st.load pending)
          else .error .usageOverflow, st) := by
  induction steps with
  | zero =>
    intro pending total _ hsteps
    omega
  | succ steps ih =>
    intro pending total hpending hsteps htotal
    cases pending with
    | nil =>
      simp only [Storage.load_nil, Nat.add_zero, htotal, if_true]
      rfl
    | cons directory pending =>
      have hd := hpending directory List.mem_cons_self
      have hperm := listing.complete st directory
      have hload := tree.load_entries hd hperm
      have hreach := tree.reach_entries hd hperm
      have hnodes : ∀ name ∈ listing.names st directory, directory ++ [name] ∈ st.nodes :=
        fun name h => Storage.mem_entryNames.mp (hperm.subset h)
      have hrest : ∀ p ∈ pending, p ∈ st.folders :=
        fun p hp => hpending p (List.mem_cons_of_mem _ hp)
      rw [Storage.reach_cons] at hsteps
      rw [usageFrom, Walk.alone_bind_ok (Walk.readDirectory_alone hd), Storage.load_cons, ← hload]
      rcases usageEntries_alone listing tree _ hnodes hrest htotal with
        ⟨pending', total', hrun, hcounted⟩ | ⟨hrun, hover⟩
      · have hbytes := hcounted.bytes
        have hfolders := hcounted.folders
        rw [Storage.load_append] at hbytes
        rw [Storage.reach_append] at hfolders
        rw [Walk.alone_bind_ok hrun, ← hbytes]
        exact ih hcounted.directories (by omega) hcounted.bounded
      · rw [Storage.load_append] at hover
        rw [Walk.alone_bind_error hrun, if_neg (by omega)]

/-- `directory_usage` is the usage of the files. -/
theorem directoryUsage_alone (listing : Listing) (tree : st.Tree) {steps : ℕ}
    (hsteps : st.directories.length + 1 < steps) :
    (directoryUsage steps).alone listing st =
      (if st.bytes ≤ u64Max then .ok st.bytes else .error .usageOverflow, st) := by
  have hroot : ∀ p ∈ [([] : Path)], p ∈ st.folders := by
    intro p hp
    rw [List.mem_singleton.mp hp]
    exact List.mem_cons_self
  have hreach : st.reach [[]] < steps := by
    rw [Storage.reach_root]
    exact hsteps
  have hrun := usageFrom_alone listing tree steps hroot hreach (Nat.zero_le u64Max)
  rw [Storage.load_root, Nat.zero_add] at hrun
  exact hrun

/-- The walk computes what `usageBytes` says. -/
theorem directoryUsage_eq_usageBytes (listing : Listing) (tree : st.Tree) {steps : ℕ}
    (hsteps : st.directories.length + 1 < steps) {disk : Disk} (hdisk : disk.faults .usage = none) :
    (directoryUsage steps).alone listing st = usageBytes disk st := by
  have hattempt : disk.attempt .usage = .ok () := by rw [Disk.attempt, hdisk]
  rw [directoryUsage_alone listing tree hsteps]
  unfold usageBytes
  rw [Session.bind_run, Session.liftExcept_run, hattempt]
  rfl

end Walks

end TaskHarbor
