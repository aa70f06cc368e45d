import Mathlib.Data.List.Nodup
import TaskHarbor.Storage.Frame
import TaskHarbor.Storage.Walk

/-! The storage as a tree of directories and files, and a walk that has it for itself: each call
succeeds as the tree allows, and `read_dir` lists a directory in some order. -/
namespace TaskHarbor

open Interleaving Transaction

/-! ### Paths -/

theorem exists_step {d p : Path} (h : d <+: p) (hne : p ≠ d) : ∃ name, d ++ [name] <+: p := by
  obtain ⟨rest, rfl⟩ := h
  cases rest with
  | nil => exact absurd (List.append_nil d) hne
  | cons name rest => exact ⟨name, rest, by simp⟩

theorem step_unique {d p : Path} {a b : String} (ha : d ++ [a] <+: p) (hb : d ++ [b] <+: p) :
    a = b := by
  have h := List.prefix_of_prefix_length_le ha hb (by simp)
  have heq := h.eq_of_length (by simp)
  simpa using heq

theorem step_ne (d : Path) (name : String) : d ++ [name] ≠ d := by
  intro h
  have hlength := congrArg List.length h
  simp at hlength

/-! ### The tree -/

/-- All paths below the root. -/
def Storage.nodes (st : Storage) : List Path := st.paths ++ st.directories

/-- The directories, the root among them. -/
def Storage.folders (st : Storage) : List Path := [] :: st.directories

/-- The names in a directory. -/
def Storage.entryNames (st : Storage) (d : Path) : List String :=
  st.nodes.filterMap fun p => if p != [] && p.dropLast == d then p.getLast? else none

/-- Paths are distinct, and every path but the root's lies in a directory. -/
structure Storage.Tree (st : Storage) : Prop where
  distinct : st.nodes.Nodup
  named : ∀ p ∈ st.nodes, p ≠ []
  parent : ∀ p ∈ st.nodes, p.dropLast ∈ st.folders
  separated : ∀ p ∈ st.nodes, ∀ name ∈ p, '/' ∉ name.toList

section Nodes

variable {st : Storage} {d p : Path} {name : String} {f : StoredFile}

theorem Storage.mem_nodes : p ∈ st.nodes ↔ (∃ f ∈ st.files, f.path = p) ∨ p ∈ st.directories := by
  simp [Storage.nodes, Storage.paths]

theorem Storage.file_node (h : f ∈ st.files) : f.path ∈ st.nodes :=
  Storage.mem_nodes.mpr (Or.inl ⟨f, h, rfl⟩)

theorem Storage.directory_node (h : p ∈ st.directories) : p ∈ st.nodes :=
  Storage.mem_nodes.mpr (Or.inr h)

theorem Storage.mem_entryNames : name ∈ st.entryNames d ↔ d ++ [name] ∈ st.nodes := by
  constructor
  · intro h
    obtain ⟨p, hp, hname⟩ := List.mem_filterMap.mp h
    split at hname
    · next hparent =>
      simp only [Bool.and_eq_true, bne_iff_ne, beq_iff_eq] at hparent
      rw [← hparent.2, List.dropLast_append_getLast? name hname]
      exact hp
    · cases hname
  · intro h
    exact List.mem_filterMap.mpr ⟨d ++ [name], h, by simp⟩

theorem Storage.Tree.file_ne (tree : st.Tree) (hf : f ∈ st.files) (hp : p ∈ st.directories) :
    p ≠ f.path := by
  rintro rfl
  have hdisjoint := List.disjoint_of_nodup_append tree.distinct
  exact hdisjoint (List.mem_map_of_mem hf) hp

theorem Storage.Tree.file_unique (tree : st.Tree) {g : StoredFile} (hf : f ∈ st.files)
    (hg : g ∈ st.files) (h : f.path = g.path) : f = g :=
  List.inj_on_of_nodup_map (List.nodup_append.mp tree.distinct).1 hf hg h

/-- What has something below it is a directory. -/
theorem Storage.Tree.above (tree : st.Tree) (hp : p ∈ st.nodes) (h : d <+: p) (hne : p ≠ d) :
    d ∈ st.folders := by
  induction p using List.reverseRecOn with
  | nil => exact absurd (List.prefix_nil.mp h).symm hne
  | append_singleton p name ih =>
    have hfolder := tree.parent _ hp
    rw [List.dropLast_concat] at hfolder
    rcases List.prefix_concat_iff.mp h with rfl | h
    · exact absurd rfl hne
    · rcases eq_or_ne p d with rfl | hpd
      · exact hfolder
      · rcases List.mem_cons.mp hfolder with rfl | hp
        · exact absurd (List.prefix_nil.mp h).symm hpd
        · exact ih (Storage.directory_node hp) h hpd

/-- A path below a directory lies at or below one of its entries. -/
theorem Storage.Tree.exists_entry (tree : st.Tree) (hp : p ∈ st.nodes) (h : d <+: p)
    (hne : p ≠ d) : ∃ name ∈ st.entryNames d, d ++ [name] <+: p := by
  obtain ⟨name, hname⟩ := exists_step h hne
  refine ⟨name, Storage.mem_entryNames.mpr ?_, hname⟩
  rcases eq_or_ne p (d ++ [name]) with rfl | hne
  · exact hp
  · rcases List.mem_cons.mp (tree.above hp hname hne) with hnil | hd
    · simp at hnil
    · exact Storage.directory_node hd

/-- Nothing lies below a file. -/
theorem Storage.Tree.file_bottom (tree : st.Tree) (hf : f ∈ st.files) (hp : p ∈ st.nodes)
    (h : f.path <+: p) : p = f.path := by
  by_contra hne
  rcases List.mem_cons.mp (tree.above hp h hne) with hnil | hd
  · exact tree.named _ (Storage.file_node hf) hnil
  · exact tree.file_ne hf hd rfl

theorem Storage.Tree.entryNames_nodup (tree : st.Tree) (d : Path) : (st.entryNames d).Nodup := by
  refine List.Nodup.filterMap (fun p q name hp hq => ?_) tree.distinct
  simp only [Option.mem_def, Option.ite_none_right_eq_some, Bool.and_eq_true, bne_iff_ne,
    beq_iff_eq] at hp hq
  rw [← List.dropLast_append_getLast? name hp.2, ← List.dropLast_append_getLast? name hq.2,
    hp.1.2, hq.1.2]

end Nodes

/-! ### A walk alone -/

/-- The order in which `read_dir` lists a directory. -/
structure Listing where
  names : Storage → Path → List String
  complete : ∀ st d, (names st d).Perm (st.entryNames d)

/-- The modification time of a directory is not kept. -/
def Storage.symlinkMetadata (st : Storage) (p : Path) : Except StorageError Metadata :=
  match st.files.find? fun f => f.path == p with
  | some f => .ok ⟨.file, f.content.length, some f.modified⟩
  | none => if p ∈ st.folders then .ok ⟨.directory, 0, none⟩ else .error .io

def Storage.removeDirectory (st : Storage) (p : Path) : Storage :=
  { st with directories := st.directories.filter fun e => e != p }

def Storage.removeFile (st : Storage) (p : Path) : Storage :=
  { st with files := st.files.filter fun f => f.path != p }

/-- What a call answers and does; `entries` is what `read_dir` lists. -/
def Storage.serve (st : Storage) (entries : Path → Entries) : (q : WalkRequest) → q.Reply × Storage
  | .readDirectory p => (if p ∈ st.folders then .ok (entries p) else .error .io, st)
  | .symlinkMetadata p => (st.symlinkMetadata p, st)
  | .isEmpty p => (if p ∈ st.folders then .ok (st.entryNames p).isEmpty else .error .io, st)
  | .removeDirectory p =>
      if p ∈ st.directories ∧ st.entryNames p = [] then (.ok (), st.removeDirectory p)
      else (.error .io, st)
  | .removeFile p =>
      if p ∈ st.paths then (.ok (), st.removeFile p) else (.error .io, st)

def Listing.serve (listing : Listing) (st : Storage) (q : WalkRequest) : q.Reply × Storage :=
  st.serve (fun p => (listing.names st p).map .ok) q

/-- The walk alone with the storage. -/
def Walk.alone {α : Type} (listing : Listing) (x : Walk α) : FileSession α := fun st =>
  x.run.run listing.serve st

section Alone

variable {α β : Type} {listing : Listing} {st : Storage} {p : Path}

theorem Walk.alone_bind (x : Walk α) (f : α → Walk β) :
    (x >>= f).alone listing = x.alone listing >>= fun a => (f a).alone listing := by
  funext st
  change (x.run >>= ExceptT.bindCont f).run listing.serve st = _
  rw [Program.run_bind, Session.bind_run]
  unfold Walk.alone
  rcases x.run.run listing.serve st with ⟨r, st'⟩
  cases r <;> rfl

theorem Walk.alone_bind_ok {x : Walk α} {f : α → Walk β} {a : α} {st' : Storage}
    (h : x.alone listing st = (.ok a, st')) :
    (x >>= f).alone listing st = (f a).alone listing st' := by
  rw [Walk.alone_bind, Session.bind_run, h]

theorem Walk.alone_bind_error {x : Walk α} {f : α → Walk β} {e : StorageError} {st' : Storage}
    (h : x.alone listing st = (.error e, st')) :
    (x >>= f).alone listing st = (.error e, st') := by
  rw [Walk.alone_bind, Session.bind_run, h]

@[simp] theorem Walk.alone_pure (a : α) : (pure a : Walk α).alone listing st = (.ok a, st) := rfl

theorem Walk.alone_lift (x : Except StorageError α) :
    (liftM x : Walk α).alone listing st = (x, st) := by
  cases x <;> rfl

theorem Walk.readDirectory_alone (h : p ∈ st.folders) :
    (Walk.readDirectory p).alone listing st = (.ok ((listing.names st p).map .ok), st) := by
  exact congrArg (fun r : Except StorageError Entries => (r, st)) (if_pos h)

theorem Storage.Tree.symlinkMetadata_file (tree : st.Tree) {f : StoredFile} (hf : f ∈ st.files) :
    st.symlinkMetadata f.path = .ok ⟨.file, f.content.length, some f.modified⟩ := by
  unfold Storage.symlinkMetadata
  cases hfind : st.files.find? fun g => g.path == f.path with
  | none => exact absurd (List.find?_eq_none.mp hfind f hf) (by simp)
  | some g =>
    have hg : g.path = f.path := by simpa using List.find?_some hfind
    rw [tree.file_unique (List.mem_of_find?_eq_some hfind) hf hg]

theorem Walk.metadata_file (listing : Listing) (tree : st.Tree) {f : StoredFile}
    (hf : f ∈ st.files) :
    (Walk.symlinkMetadata f.path).alone listing st =
      (.ok ⟨.file, f.content.length, some f.modified⟩, st) :=
  congrArg (fun r => (r, st)) (tree.symlinkMetadata_file hf)

theorem Storage.Tree.symlinkMetadata_directory (tree : st.Tree) (hp : p ∈ st.directories) :
    st.symlinkMetadata p = .ok ⟨.directory, 0, none⟩ := by
  unfold Storage.symlinkMetadata
  have hfind : (st.files.find? fun g => g.path == p) = none := by
    refine List.find?_eq_none.mpr fun g hg => ?_
    simpa using (tree.file_ne hg hp).symm
  have hfolder : p ∈ st.folders := List.mem_cons_of_mem _ hp
  rw [hfind]
  simp only [hfolder, if_true]

theorem Walk.metadata_directory (tree : st.Tree) (hp : p ∈ st.directories) :
    (Walk.symlinkMetadata p).alone listing st = (.ok ⟨.directory, 0, none⟩, st) :=
  congrArg (fun r => (r, st)) (tree.symlinkMetadata_directory hp)

theorem Walk.isEmpty_alone (hp : p ∈ st.directories) :
    (Walk.isEmpty p).alone listing st = (.ok (st.entryNames p).isEmpty, st) := by
  have hfolder : p ∈ st.folders := List.mem_cons_of_mem _ hp
  exact congrArg (fun r : Except StorageError Bool => (r, st)) (if_pos hfolder)

theorem Walk.removeDirectory_alone (hp : p ∈ st.directories) (hempty : st.entryNames p = []) :
    (Walk.removeDirectory p).alone listing st = (.ok (), st.removeDirectory p) :=
  if_pos ⟨hp, hempty⟩

theorem Walk.removeFile_alone (hp : p ∈ st.paths) :
    (Walk.removeFile p).alone listing st = (.ok (), st.removeFile p) :=
  if_pos hp

end Alone

end TaskHarbor
