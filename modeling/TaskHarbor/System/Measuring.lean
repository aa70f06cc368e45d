import Mathlib.Algebra.Order.BigOperators.Group.List
import Mathlib.Algebra.Order.Ring.Nat
import TaskHarbor.Library.Runs
import TaskHarbor.Storage.Usage

/-! `usage_bytes` while other tasks remove files and directories. The scan fails when the entry that
it is about to look at is gone; as long as that does not happen, it ends between the bytes that are
left and the bytes at its start. -/
namespace TaskHarbor

open Interleaving Transaction Runs

/-! ### The machine -/

structure ScanSystem where
  storage : Storage
  scan : WalkProgram (Except StorageError ℕ)

/-- One more step than there are directories is enough for the walk. -/
def ScanSystem.initial (storage : Storage) : ScanSystem :=
  ⟨storage, (directoryUsage (storage.directories.length + 2)).run⟩

/-- A call of the scan, where `names` is the order in which a directory is listed; a removal of
`remove_file` or of a cleanup; one step of `remove_dir_all`; or `remove_tree` at once. -/
inductive ScanOp where
  | scan (names : List String)
  | removeFile (path : Path)
  | removeDirectory (path : Path)
  | removeTree (path : Path)

/-- The names are those of the directory that the call lists. -/
def Storage.lists (st : Storage) (names : List String) : WalkRequest → Bool
  | .readDirectory d => names.isPerm (st.entryNames d)
  | _ => true

def ScanSystem.step (s : ScanSystem) : ScanOp → Option ScanSystem
  | .scan names =>
      match s.scan with
      | .done _ => none
      | .call q k =>
          if s.storage.lists names q then
            let answer := s.storage.serve (fun _ => names.map .ok) q
            some ⟨answer.2, k answer.1⟩
          else none
  | .removeFile path =>
      if path ∈ s.storage.paths then some { s with storage := s.storage.removeFile path } else none
  | .removeDirectory path =>
      if path ∈ s.storage.directories ∧ s.storage.entryNames path = [] then
        some { s with storage := s.storage.removeDirectory path }
      else none
  | .removeTree path =>
      if path ≠ [] then some { s with storage := s.storage.removeTree path } else none

/-- What a call is about is there. -/
def Storage.finds (st : Storage) : WalkRequest → Bool
  | .readDirectory d => st.folders.contains d
  | .symlinkMetadata p => st.nodes.contains p
  | _ => true

/-- No task has removed the entry that the scan is about to look at. -/
def ScanSystem.undisturbed (s : ScanSystem) : ScanOp → Bool
  | .scan _ =>
      match s.scan with
      | .done _ => true
      | .call q _ => s.storage.finds q
  | _ => true

/-- The scan has not failed, and its result lies between the bytes that are left and those at the
start. -/
structure ScanSystem.Measured (st : Storage) (s : ScanSystem) : Prop where
  between : ∀ r, s.scan = .done r → ∃ v, r = .ok v ∧ s.storage.bytes ≤ v ∧ v ≤ st.bytes

/-! ### Removals -/

section Removals

variable {w w' w'' : Storage} {p : Path} {region : Path → Bool} {paths : List Path}

/-- Entries were removed, and what is left is a tree. -/
structure Storage.Shrinks (w w' : Storage) : Prop where
  files : w'.files.Sublist w.files
  directories : w'.directories.Sublist w.directories
  tree : w.Tree → w'.Tree

theorem Storage.Shrinks.refl (w : Storage) : w.Shrinks w :=
  ⟨List.Sublist.refl _, List.Sublist.refl _, id⟩

theorem Storage.Shrinks.trans (u v w : Storage) (h : u.Shrinks v) (h' : v.Shrinks w) :
    u.Shrinks w :=
  ⟨h'.files.trans h.files, h'.directories.trans h.directories, fun tree => h'.tree (h.tree tree)⟩

theorem Storage.nodes_sublist (hfiles : w'.files.Sublist w.files)
    (hdirectories : w'.directories.Sublist w.directories) : w'.nodes.Sublist w.nodes :=
  (hfiles.map StoredFile.path).append hdirectories

/-- Fewer entries are a tree as long as no directory is removed from above another entry. -/
theorem Storage.shrinks_of_parents (hfiles : w'.files.Sublist w.files)
    (hdirectories : w'.directories.Sublist w.directories)
    (hparents : w.Tree → ∀ q ∈ w'.nodes, q.dropLast ∈ w.directories →
      q.dropLast ∈ w'.directories) :
    w.Shrinks w' := by
  have hnodes := Storage.nodes_sublist hfiles hdirectories
  refine ⟨hfiles, hdirectories, fun tree => ⟨tree.distinct.sublist hnodes,
    fun q hq => tree.named q (hnodes.subset hq), fun q hq => ?_,
    fun q hq => tree.separated q (hnodes.subset hq)⟩⟩
  rcases List.mem_cons.mp (tree.parent q (hnodes.subset hq)) with hroot | hd
  · rw [hroot]
    exact List.mem_cons_self
  · exact List.mem_cons_of_mem _ (hparents tree q hq hd)

theorem Storage.removeFile_shrinks (w : Storage) (p : Path) : w.Shrinks (w.removeFile p) :=
  Storage.shrinks_of_parents List.filter_sublist (List.Sublist.refl _) fun _ _ _ => id

theorem Storage.removeDirectory_shrinks (hempty : w.entryNames p = []) :
    w.Shrinks (w.removeDirectory p) := by
  have hnodes : (w.removeDirectory p).nodes.Sublist w.nodes :=
    Storage.nodes_sublist (List.Sublist.refl _) List.filter_sublist
  refine Storage.shrinks_of_parents (List.Sublist.refl _) List.filter_sublist
    fun tree q hq hd => ?_
  refine List.mem_filter.mpr ⟨hd, ?_⟩
  have hne : q.dropLast ≠ p := by
    rintro rfl
    have hq := hnodes.subset hq
    have hname : q.getLast (tree.named q hq) ∈ w.entryNames q.dropLast := by
      rw [Storage.mem_entryNames, List.dropLast_append_getLast]
      exact hq
    rw [hempty] at hname
    exact List.not_mem_nil hname
  simpa using hne

theorem Storage.removeTree_shrinks (w : Storage) (p : Path) : w.Shrinks (w.removeTree p) := by
  refine Storage.shrinks_of_parents List.filter_sublist List.filter_sublist fun _ q hq hd => ?_
  refine List.mem_filter.mpr ⟨hd, ?_⟩
  have hq : ¬p <+: q := by
    rcases Storage.mem_nodes.mp hq with ⟨f, hf, rfl⟩ | hq
    · simpa [← List.isPrefixOf_iff_prefix] using (List.mem_filter.mp hf).2
    · simpa [← List.isPrefixOf_iff_prefix] using (List.mem_filter.mp hq).2
  have hparent : ¬p <+: q.dropLast := fun h => hq (h.trans q.dropLast_prefix)
  simpa [← List.isPrefixOf_iff_prefix] using hparent

theorem Storage.Shrinks.bytesIn_le (h : w.Shrinks w') (region : Path → Bool) :
    w'.bytesIn region ≤ w.bytesIn region :=
  ((h.files.filter _).map _).sum_le_sum fun _ _ => Nat.zero_le _

theorem Storage.Shrinks.foldersIn_le (h : w.Shrinks w') (region : Path → Bool) :
    w'.foldersIn region ≤ w.foldersIn region :=
  (((h.directories.cons_cons []).filter _).map _).sum_le_sum fun _ _ => Nat.zero_le _

theorem Storage.Shrinks.load_le (h : w.Shrinks w') (paths : List Path) :
    w'.load paths ≤ w.load paths :=
  List.sum_le_sum fun p _ => h.bytesIn_le (within [p])

theorem Storage.Shrinks.reach_le (h : w.Shrinks w') (paths : List Path) :
    w'.reach paths ≤ w.reach paths :=
  List.sum_le_sum fun p _ => h.foldersIn_le (within [p])

end Removals

/-- A region that two others cover weighs no more than they do. -/
theorem weight_le_add {α : Type} {xs : List α} {key : α → Path} {size : α → ℕ}
    {region region₁ region₂ : Path → Bool}
    (h : ∀ x ∈ xs, region (key x) = true → region₁ (key x) = true ∨ region₂ (key x) = true) :
    weight xs key size region ≤ weight xs key size region₁ + weight xs key size region₂ := by
  unfold weight
  induction xs with
  | nil => exact Nat.zero_le _
  | cons x xs ih =>
    have hrest := ih fun y hy => h y (List.mem_cons_of_mem _ hy)
    have hx := h x List.mem_cons_self
    cases hr : region (key x) <;> cases hr₁ : region₁ (key x) <;> cases hr₂ : region₂ (key x) <;>
      simp only [List.filter_cons, hr, hr₁, hr₂, if_true, Bool.false_eq_true, if_false,
        List.map_cons, List.sum_cons] <;> first | omega | simp [hr, hr₁, hr₂] at hx

/-! ### The invariant of the scan -/

/-- The bytes outside the open work are counted, and what is counted and what is left never exceed
`most`. The open work reaches fewer directories than there are steps. -/
structure Scanning (most steps : ℕ) (work : List Path) (total : ℕ) (w : Storage) : Prop where
  tree : w.Tree
  below : total + w.load work ≤ most
  counted : w.bytesIn (fun p => !within work p) ≤ total
  reach : w.reach work < steps

section Scan

variable {most steps total : ℕ} {work pending : List Path} {w w' : Storage} {d p : Path}
  {names : List String} {f : StoredFile}

theorem Scanning.stays (h : Scanning most steps work total w) (hshrinks : w.Shrinks w') :
    Scanning most steps work total w' where
  tree := hshrinks.tree h.tree
  below := (Nat.add_le_add_left (hshrinks.load_le work) total).trans h.below
  counted := (hshrinks.bytesIn_le _).trans h.counted
  reach := lt_of_le_of_lt (hshrinks.reach_le work) h.reach

theorem within_cons (p : Path) (work : List Path) (q : Path) :
    within (p :: work) q = (within [p] q || within work q) := by
  simp [within]

theorem within_append (work pending : List Path) (q : Path) :
    within (work ++ pending) q = (within work q || within pending q) := by
  simp [within]

/-- Listing a directory opens its entries. -/
theorem Scanning.list (h : Scanning most (steps + 1) (d :: pending) total w) (hd : d ∈ w.folders)
    (hnames : names.Perm (w.entryNames d)) :
    Scanning most steps ((names.map fun name => d ++ [name]) ++ pending) total w := by
  have hload := h.tree.load_entries hd hnames
  have hreach := h.tree.reach_entries hd hnames
  have hbelow := h.below
  have hsteps := h.reach
  rw [Storage.load_cons] at hbelow
  rw [Storage.reach_cons] at hsteps
  refine ⟨h.tree, ?_, ?_, ?_⟩
  · rw [Storage.load_append]
    omega
  · refine le_trans (le_of_eq (weight_congr fun f hf => ?_)) h.counted
    have hentries : within (names.map fun name => d ++ [name]) f.path = within [d] f.path := by
      rw [h.tree.within_entries hnames (Storage.file_node hf)]
      refine below_eq_within ?_
      intro hfd
      rcases List.mem_cons.mp hd with hroot | hd
      · exact h.tree.named _ (Storage.file_node hf) (hfd.trans hroot)
      · exact h.tree.file_ne hf hd hfd.symm
    rw [within_append, hentries, ← within_cons]
  · rw [Storage.reach_append]
    omega

/-- The size of a file goes into the total. -/
theorem Scanning.count (h : Scanning most steps (p :: work) total w) (hf : f ∈ w.files)
    (hpath : f.path = p) : Scanning most steps work (total + f.content.length) w := by
  have hfile := h.tree.bytesIn_file hf
  rw [hpath] at hfile
  have hbelow := h.below
  have hreach := h.reach
  rw [Storage.load_cons] at hbelow
  rw [Storage.reach_cons] at hreach
  refine ⟨h.tree, by omega, ?_, by omega⟩
  have hsplit : w.bytesIn (fun q => !within work q) ≤
      w.bytesIn (fun q => !within (p :: work) q) + w.bytesIn (within [p]) := by
    refine weight_le_add fun f _ hout => ?_
    rw [within_cons]
    cases within [p] f.path
    · exact Or.inl (by simpa using hout)
    · exact Or.inr rfl
  have hcounted := h.counted
  omega

/-- A directory is pushed. -/
theorem Scanning.push (h : Scanning most steps (p :: (work ++ pending)) total w) :
    Scanning most steps (work ++ p :: pending) total w := by
  have hbelow := h.below
  have hreach := h.reach
  rw [Storage.load_cons, Storage.load_append] at hbelow
  rw [Storage.reach_cons, Storage.reach_append] at hreach
  refine ⟨h.tree, ?_, ?_, ?_⟩
  · rw [Storage.load_append, Storage.load_cons]
    omega
  · refine le_trans (le_of_eq (weight_congr fun f _ => ?_)) h.counted
    rw [within_append, within_cons p pending, within_cons p (work ++ pending), within_append,
      Bool.or_left_comm]
  · rw [Storage.reach_append, Storage.reach_cons]
    omega

theorem Scanning.initial {st : Storage} (tree : st.Tree) :
    Scanning st.bytes (st.directories.length + 2) [[]] 0 st where
  tree := tree
  below := by rw [Storage.load_root, Nat.zero_add]
  counted := by
    have hnone : st.bytesIn (fun p => !within [[]] p) = 0 := by
      unfold Storage.bytesIn weight
      simp [within_root]
    rw [hnone]
  reach := by
    rw [Storage.reach_root]
    omega

/-- With no work left all bytes are counted. -/
theorem Scanning.done (h : Scanning most steps [] total w) : w.bytes ≤ total ∧ total ≤ most := by
  have hcounted := h.counted
  have hbelow := h.below
  have hall : w.bytesIn (fun p => !within [] p) = w.bytes := by
    unfold Storage.bytesIn weight Storage.bytes
    simp [within]
  rw [hall] at hcounted
  rw [Storage.load_nil] at hbelow
  exact ⟨hcounted, hbelow⟩

end Scan

/-! ### The scan between removals -/

/-- The call changes nothing. -/
def WalkRequest.looks : WalkRequest → Bool
  | .removeDirectory _ | .removeFile _ => false
  | _ => true

theorem Storage.serve_looks {w : Storage} {entries : Path → Entries} {q : WalkRequest}
    (h : q.looks = true) : (w.serve entries q).2 = w := by
  cases q <;> first | rfl | cases h

/-- What a call answers when it finds what it is about. -/
structure Storage.Answers (w : Storage) (q : WalkRequest) (r : q.Reply) (w' : Storage) : Prop where
  found : w.finds q = true
  same : w' = w
  answer : ∃ names, w.lists names q = true ∧ r = (w.serve (fun _ => names.map .ok) q).1

/-- Whatever is removed between its calls, the program ends with `post`. -/
structure Scans {α : Type} (post : α → Storage → Prop) (x : Walk α) (w : Storage) : Prop where
  meets : Meets Storage.Shrinks Storage.Answers (fun q _ => q.looks = true)
    (fun r w => ∃ a, r = .ok a ∧ post a w) x.run w

section Scans

variable {α β : Type} {post : β → Storage → Prop} {w w' : Storage}

theorem scans_pure {b : β} (h : ∀ w', w.Shrinks w' → post b w') : Scans post (pure b) w :=
  ⟨meets_done fun w' hw => ⟨b, rfl, h w' hw⟩⟩

theorem scans_bind {x : Walk α} {f : α → Walk β}
    (h : Scans (fun a w => Scans post (f a) w) x w) : Scans post (x >>= f) w := by
  refine ⟨meets_except_bind Storage.Shrinks.refl (h.meets.consequence fun r w' hr => ?_)⟩
  obtain ⟨a, rfl, ha⟩ := hr
  exact ha.meets

theorem scans_lift {b : β} (h : ∀ w', w.Shrinks w' → post b w') :
    Scans post (liftM (Except.ok b : Except StorageError β)) w := scans_pure h

/-- A directory is listed. -/
theorem scans_readDirectory {post : Entries → Storage → Prop} {d : Path}
    (h : ∀ w', w.Shrinks w' → d ∈ w'.folders → ∀ names : List String,
      names.Perm (w'.entryNames d) → ∀ w₁, w'.Shrinks w₁ → post (names.map .ok) w₁) :
    Scans post (Walk.readDirectory d) w := by
  constructor
  intro w' hw
  refine ⟨rfl, fun r w'' hr => meets_done fun w₁ hw₁ => ?_⟩
  obtain ⟨hfound, rfl, names, hlists, rfl⟩ := hr
  have hd : d ∈ w''.folders := by simpa [Storage.finds] using hfound
  exact ⟨names.map .ok, if_pos hd, h w'' hw hd names (List.isPerm_iff.mp hlists) w₁ hw₁⟩

/-- The metadata are those of a file or of a directory. -/
theorem scans_symlinkMetadata {post : Metadata → Storage → Prop} {p : Path} (tree : w.Tree)
    (hfile : ∀ w', w.Shrinks w' → ∀ f ∈ w'.files, f.path = p → ∀ w₁, w'.Shrinks w₁ →
      post ⟨.file, f.content.length, some f.modified⟩ w₁)
    (hdirectory : ∀ w', w.Shrinks w' → p ∈ w'.directories → ∀ w₁, w'.Shrinks w₁ →
      post ⟨.directory, 0, none⟩ w₁) :
    Scans post (Walk.symlinkMetadata p) w := by
  constructor
  intro w' hw
  refine ⟨rfl, fun r w'' hr => meets_done fun w₁ hw₁ => ?_⟩
  obtain ⟨hfound, rfl, names, -, rfl⟩ := hr
  have hp : p ∈ w''.nodes := by simpa [Storage.finds] using hfound
  have tree' := hw.tree tree
  rcases Storage.mem_nodes.mp hp with ⟨f, hf, hpath⟩ | hd
  · refine ⟨_, ?_, hfile w'' hw f hf hpath w₁ hw₁⟩
    rw [← hpath]
    exact tree'.symlinkMetadata_file hf
  · exact ⟨_, tree'.symlinkMetadata_directory hd, hdirectory w'' hw hd w₁ hw₁⟩

theorem Scans.consequence {post' : β → Storage → Prop} {x : Walk β} (h : Scans post x w)
    (himp : ∀ b w, post b w → post' b w) : Scans post' x w :=
  ⟨h.meets.consequence fun _ w' hr => by
    obtain ⟨b, rfl, hb⟩ := hr
    exact ⟨b, rfl, himp b w' hb⟩⟩

/-- The inner loop counts its files and pushes its directories. -/
theorem usageEntries_scans {most steps : ℕ} (hmost : most ≤ u64Max) (d : Path)
    (names : List String) : ∀ {pending : List Path} {total : ℕ} {w : Storage},
      Scanning most steps ((names.map fun name => d ++ [name]) ++ pending) total w →
      Scans (fun r w => Scanning most steps r.1 r.2 w)
        (usageEntries d (names.map .ok) pending total) w := by
  induction names with
  | nil =>
    intro pending total w h
    exact scans_pure fun w' hw => h.stays hw
  | cons name names ih =>
    intro pending total w h
    simp only [List.map_cons, List.cons_append] at h ⊢
    rw [usageEntries]
    apply scans_bind
    apply scans_lift
    intro w₁ hw₁
    have h₁ := h.stays hw₁
    apply scans_bind
    apply scans_symlinkMetadata h₁.tree
    · intro w₂ hw₂ f hf hpath w₃ hw₃
      have hcounted := ((h₁.stays hw₂).count hf hpath).stays hw₃
      have hbound : total + f.content.length ≤ u64Max := by
        have hbelow := hcounted.below
        omega
      dsimp only
      apply scans_bind
      rw [addLength_ok hbound]
      exact scans_lift fun w₄ hw₄ => ih (hcounted.stays hw₄)
    · intro w₂ hw₂ _ w₃ hw₃
      exact ih ((h₁.stays hw₂).push.stays hw₃)

/-- The outer loop ends between what is left and what there was. -/
theorem usageFrom_scans {most : ℕ} (hmost : most ≤ u64Max) (steps : ℕ) :
    ∀ {pending : List Path} {total : ℕ} {w : Storage}, Scanning most steps pending total w →
      Scans (fun v w => w.bytes ≤ v ∧ v ≤ most) (usageFrom steps pending total) w := by
  induction steps with
  | zero =>
    intro pending total w h
    exact absurd h.reach (Nat.not_lt_zero _)
  | succ steps ih =>
    intro pending total w h
    cases pending with
    | nil => exact scans_pure fun w' hw => (h.stays hw).done
    | cons directory pending =>
      rw [usageFrom]
      apply scans_bind
      apply scans_readDirectory
      intro w₁ hw₁ hd names hnames w₂ hw₂
      have hopened := ((h.stays hw₁).list hd hnames).stays hw₂
      apply scans_bind
      exact (usageEntries_scans hmost directory names hopened).consequence fun r w' hr => ih hr

end Scans

/-! ### Every run -/

/-- The scan is on its way to a result between the bytes left and `most`. -/
structure ScanSystem.Safe (most : ℕ) (s : ScanSystem) : Prop where
  meets : Meets Storage.Shrinks Storage.Answers (fun q _ => q.looks = true)
    (fun r w => ∃ v, r = .ok v ∧ w.bytes ≤ v ∧ v ≤ most) s.scan s.storage

theorem ScanSystem.initial_safe {st : Storage} (tree : st.Tree) (hfits : st.bytes ≤ u64Max) :
    (ScanSystem.initial st).Safe st.bytes :=
  ⟨(usageFrom_scans hfits _ (Scanning.initial tree)).meets⟩

/-- A removal is one of the moves that the scan tolerates. -/
theorem ScanSystem.Safe.removal {most : ℕ} {s : ScanSystem} {w : Storage} (h : s.Safe most)
    (hw : s.storage.Shrinks w) : ({ s with storage := w } : ScanSystem).Safe most :=
  ⟨h.meets.stable Storage.Shrinks.trans hw⟩

theorem ScanSystem.Safe.step {most : ℕ} {s s' : ScanSystem} {op : ScanOp} (h : s.Safe most)
    (hundisturbed : s.undisturbed op = true) (hstep : s.step op = some s') : s'.Safe most := by
  cases op with
  | scan names =>
    unfold ScanSystem.step at hstep
    unfold ScanSystem.undisturbed at hundisturbed
    have hmeets := h.meets
    generalize s.scan = program at hstep hundisturbed hmeets
    cases program with
    | done r => cases hstep
    | call q k =>
      dsimp only at hstep hundisturbed
      obtain ⟨hlists, heq⟩ := Option.ite_none_right_eq_some.mp hstep
      have hlooks := (hmeets.act Storage.Shrinks.refl
        ⟨hundisturbed, rfl, names, hlists, rfl⟩).2
      cases heq
      refine ⟨?_⟩
      rw [Storage.serve_looks (hmeets _ (Storage.Shrinks.refl _)).1]
      exact hlooks
  | removeFile path =>
    obtain ⟨-, heq⟩ := Option.ite_none_right_eq_some.mp hstep
    cases heq
    exact h.removal (Storage.removeFile_shrinks _ path)
  | removeDirectory path =>
    obtain ⟨⟨-, hempty⟩, heq⟩ := Option.ite_none_right_eq_some.mp hstep
    cases heq
    exact h.removal (Storage.removeDirectory_shrinks hempty)
  | removeTree path =>
    obtain ⟨-, heq⟩ := Option.ite_none_right_eq_some.mp hstep
    cases heq
    exact h.removal (Storage.removeTree_shrinks _ path)

theorem ScanSystem.Safe.measured {st : Storage} {s : ScanSystem} (h : s.Safe st.bytes) :
    s.Measured st := by
  refine ⟨fun r hr => ?_⟩
  have hmeets := h.meets
  rw [hr] at hmeets
  exact hmeets _ (Storage.Shrinks.refl _)

/-- As long as no entry is removed between its listing and its visit, the scan succeeds with a
value between the bytes that are left and the bytes at its start. -/
theorem usage_tolerates_removals {st : Storage} {s : ScanSystem} (tree : st.Tree)
    (hfits : st.bytes ≤ u64Max)
    (hrun : Run ScanSystem.step (fun s op => s.undisturbed op = true) (.initial st) s) :
    s.Measured st := by
  have hsafe : s.Safe st.bytes := by
    refine hrun.invariant (P := fun s => s.Safe st.bytes) ?_ (ScanSystem.initial_safe tree hfits)
    intro s op s' hs hundisturbed hstep
    exact hs.step hundisturbed hstep
  exact hsafe.measured

def ScanSystem.result (s : ScanSystem) : Option (Except StorageError ℕ) :=
  match s.scan with
  | .done r => some r
  | .call _ _ => none

theorem ScanSystem.scan_of_result {s : ScanSystem} {r : Except StorageError ℕ}
    (h : s.result = some r) : s.scan = .done r := by
  unfold ScanSystem.result at h
  generalize s.scan = program at h ⊢
  cases program with
  | done r' => rw [Option.some.inj h]
  | call q k => cases h

/-- The output of one attempt. -/
def sampleAttemptTree : Storage where
  files := [⟨["outputs", "job-1", "attempt-3", "input-2.jpg"], [7, 8], 10⟩]
  directories := [["outputs"], ["outputs", "job-1"], ["outputs", "job-1", "attempt-3"]]

theorem sampleAttemptTree_tree : sampleAttemptTree.Tree where
  distinct := by decide +kernel
  named := by decide +kernel
  parent := by decide +kernel
  separated := by decide +kernel

/-- The scan lists the directory of the attempt; its output has yet to be looked at. -/
def sampleScan : List ScanOp :=
  [.scan ["outputs"], .scan [], .scan ["job-1"], .scan [], .scan ["attempt-3"], .scan [],
    .scan ["input-2.jpg"]]

def sampleRemoval : ScanOp := .removeTree ["outputs", "job-1", "attempt-3"]

theorem usage_tolerates_removals_sample : ∃ s : ScanSystem,
    s.scan = .done (.ok 2) ∧ s.storage.files = [] ∧ s.Measured sampleAttemptTree := by
  have hreplay : (exec (guarded ScanSystem.step ScanSystem.undisturbed) (.initial sampleAttemptTree)
      (sampleScan ++ [.scan [], sampleRemoval])).any
        (fun s => decide (s.result = some (.ok 2) ∧ s.storage.files = [])) = true := by
    decide +kernel
  obtain ⟨s, hexec, htest⟩ := (Option.any_eq_true _ _).mp hreplay
  obtain ⟨hresult, hfiles⟩ := of_decide_eq_true htest
  exact ⟨s, ScanSystem.scan_of_result hresult, hfiles,
    usage_tolerates_removals sampleAttemptTree_tree (by decide +kernel)
      (run_of_guarded (fun _ _ h => h) hexec)⟩

/-- A removal between the listing and the visit fails the scan. -/
theorem usage_fails_on_vanished_entry : ¬∀ (st : Storage) (s : ScanSystem), st.Tree →
    st.bytes ≤ u64Max → Run ScanSystem.step Always (.initial st) s → s.Measured st := by
  intro hclaim
  have hreplay : (exec ScanSystem.step (.initial sampleAttemptTree)
      (sampleScan ++ [sampleRemoval, .scan []])).any
        (fun s => decide (s.result = some (.error .io))) = true := by
    decide +kernel
  obtain ⟨s, hexec, htest⟩ := (Option.any_eq_true _ _).mp hreplay
  have hrun : Run ScanSystem.step Always (.initial sampleAttemptTree) s :=
    run_of_exec (fun _ _ _ => trivial) hexec
  have hfits : sampleAttemptTree.bytes ≤ u64Max := by decide +kernel
  have hmeasured := hclaim sampleAttemptTree s sampleAttemptTree_tree hfits hrun
  have hscan := ScanSystem.scan_of_result (of_decide_eq_true htest)
  obtain ⟨v, hv, -⟩ := hmeasured.between _ hscan
  cases hv

end TaskHarbor
