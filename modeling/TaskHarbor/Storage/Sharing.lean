import TaskHarbor.Storage.Sweep

/-! A cleanup that shares the storage with others. It removes a file only after the metadata of the
path were such that the rule removes it. While the others create no file that is there already,
unless a prefix protects it, no file that they created since is ever removed. -/
namespace TaskHarbor

open Interleaving Transaction

/-! ### Looking before removing -/

section Marks

variable {ω : Type}

/-- How a world shows what the cleanup has looked at: the metadata of a file that the rule removes
mark its path, the mark stays while the others act, and a marked path may be removed. -/
structure CleanupRule.Marks (rule : CleanupRule) (rely : ω → ω → Prop)
    (handle : ω → (q : WalkRequest) → q.Reply → ω → Prop) (safe : WalkRequest → ω → Prop)
    (marked : Path → ω → Prop) : Prop where
  refl : ∀ w, rely w w
  stays : ∀ p w w', rely w w' → marked p w → marked p w'
  seen : ∀ p (metadata : Metadata) w w', handle w (.symlinkMetadata p) (.ok metadata) w' →
    metadata.fileType ≠ .directory → rule.removes p metadata.modified = true → marked p w'
  removal : ∀ p w, marked p w → safe (.removeFile p) w
  other : ∀ q w, (∀ p, q ≠ .removeFile p) → safe q w

variable (rely : ω → ω → Prop) (handle : ω → (q : WalkRequest) → q.Reply → ω → Prop)
  (safe : WalkRequest → ω → Prop)

/-- All its calls are safe. -/
def Careful {α : Type} (p : WalkProgram α) (w : ω) : Prop :=
  Meets rely handle safe (fun _ _ => True) p w

variable {rely handle safe} {marked : Path → ω → Prop} {rule : CleanupRule} {α β : Type} {w : ω}

theorem careful_done (a : α) (w : ω) : Careful rely handle safe (.done a) w :=
  fun _ _ => trivial

theorem careful_lift (x : Except StorageError α) :
    Careful rely handle safe (liftM x : Walk α).run w := careful_done _ _

namespace CleanupRule.Marks

variable (h : rule.Marks rely handle safe marked)

include h

theorem bind {x : Walk α} {f : α → Walk β} (hx : Careful rely handle safe x.run w)
    (hf : ∀ a w, Careful rely handle safe (f a).run w) :
    Careful rely handle safe (x >>= f).run w := by
  refine meets_except_bind h.refl (hx.consequence fun r w' _ => ?_)
  cases r with
  | ok a => exact hf a w'
  | error e => exact fun _ _ => trivial

/-- A single call that removes nothing. -/
theorem call {q : WalkRequest} (hq : ∀ p, q ≠ .removeFile p) :
    Careful rely handle safe (Walk.call q) w :=
  fun w' _ => ⟨h.other q w' hq, fun _ _ _ _ _ => trivial⟩

/-- After the metadata of a path that the rule removes it is marked. -/
theorem metadata {p : Path} {f : Metadata → Walk β}
    (hf : ∀ metadata w, (metadata.fileType ≠ .directory →
      rule.removes p metadata.modified = true → marked p w) →
      Careful rely handle safe (f metadata).run w) :
    Careful rely handle safe (Walk.symlinkMetadata p >>= f).run w := by
  refine meets_except_bind h.refl ?_
  intro w' _
  have hsafe : safe (.symlinkMetadata p) w' := h.other _ w' fun _ hq => nomatch hq
  refine ⟨hsafe, fun r w'' hr w₃ hw₃ => ?_⟩
  change Except StorageError Metadata at r
  cases r with
  | error e => exact fun _ _ => trivial
  | ok metadata =>
    exact hf metadata w₃ fun hfile hrule => h.stays p w'' w₃ hw₃ (h.seen p _ w' w'' hr hfile hrule)

theorem cleanupFile {p : Path} {metadata : Metadata} {report : CleanupReport}
    (hmarked : rule.removes p metadata.modified = true → marked p w) :
    Careful rely handle safe (cleanupFile rule p metadata report).run w := by
  unfold TaskHarbor.cleanupFile
  split
  · rename_i hrule
    refine h.bind (fun w' hw' => ?_) fun _ w' => ?_
    · exact ⟨h.removal p w' (h.stays p w w' hw' (hmarked hrule)), fun _ _ _ _ _ => trivial⟩
    · exact h.bind (careful_lift _) fun _ _ => careful_done _ _
  · exact careful_done _ _

theorem removeIfEmpty (directory p : Path) :
    Careful rely handle safe (removeIfEmpty directory p).run w := by
  unfold TaskHarbor.removeIfEmpty
  split
  · exact careful_done _ _
  · refine h.bind (h.call fun _ hq => by cases hq) fun empty w => ?_
    split
    · exact h.call nofun
    · exact careful_done _ _

theorem cleanupEntries {child : Path → Walk CleanupReport} {directory : Path}
    (hchild : ∀ p w, Careful rely handle safe (child p).run w) (entries : Entries) :
    ∀ (report : CleanupReport) (w : ω),
      Careful rely handle safe (cleanupEntries rule child directory entries report).run w := by
  induction entries with
  | nil => exact fun report w => careful_done _ _
  | cons entry entries ih =>
    intro report w
    unfold TaskHarbor.cleanupEntries
    refine h.bind (careful_lift entry) fun name w => ?_
    refine h.metadata fun metadata w hmarked => ?_
    split
    · refine h.bind (hchild _ w) fun below w => ?_
      exact h.bind (h.removeIfEmpty _ _) fun _ w => ih _ w
    · rename_i hfile
      exact h.bind (h.cleanupFile (hmarked hfile)) fun report w => ih report w

theorem cleanupDirectory (depth : ℕ) : ∀ (directory : Path) (w : ω),
    Careful rely handle safe (cleanupDirectory rule depth directory).run w := by
  induction depth with
  | zero => exact fun directory w => careful_done _ _
  | succ depth ih =>
    intro directory w
    unfold TaskHarbor.cleanupDirectory
    refine h.bind (h.call fun _ hq => by cases hq) fun entries w => ?_
    exact h.cleanupEntries ih entries _ w

/-- The cleanup removes only paths that it has marked. -/
theorem cleanupUnreferenced (depth : ℕ) (w : ω) :
    Careful rely handle safe (cleanupUnreferenced depth rule).run w :=
  h.bind (careful_lift _) fun _ w => h.cleanupDirectory depth [] w

end CleanupRule.Marks

end Marks

/-! ### Calls -/

def WalkRequest.failed (e : StorageError) : (q : WalkRequest) → q.Reply
  | .readDirectory _ => .error e
  | .symlinkMetadata _ => .error e
  | .isEmpty _ => .error e
  | .removeDirectory _ => .error e
  | .removeFile _ => .error e

/-- What a call answers and does: it fails, or it is served. The names that `read_dir` lists are
any, as others create files while it lists. -/
def Storage.answer (st : Storage) (entries : Entries) (failure : Option StorageError)
    (q : WalkRequest) : q.Reply × Storage :=
  match failure with
  | some e => (q.failed e, st)
  | none => st.serve (fun _ => entries) q

/-- Metadata that are not of a directory are those of a file. -/
theorem Storage.answer_metadata {st st' : Storage} {entries : Entries}
    {failure : Option StorageError} {p : Path} {metadata : Metadata}
    (h : st.answer entries failure (.symlinkMetadata p) = (.ok metadata, st'))
    (hfile : metadata.fileType ≠ .directory) :
    st' = st ∧ ∃ f ∈ st.files, f.path = p ∧ metadata.modified = some f.modified := by
  cases failure with
  | some e => cases h
  | none =>
    obtain ⟨hmetadata, hstorage⟩ := Prod.mk.inj h
    refine ⟨hstorage.symm, ?_⟩
    change st.symlinkMetadata p = .ok metadata at hmetadata
    unfold Storage.symlinkMetadata at hmetadata
    cases hfind : st.files.find? fun f => f.path == p with
    | none =>
      rw [hfind] at hmetadata
      dsimp only at hmetadata
      split at hmetadata
      · cases hmetadata
        exact absurd rfl hfile
      · cases hmetadata
    | some f =>
      rw [hfind] at hmetadata
      cases hmetadata
      exact ⟨f, List.mem_of_find?_eq_some hfind, by simpa using List.find?_some hfind, rfl⟩

/-- The storage, and the files that others have created in it. -/
structure Shared where
  storage : Storage
  created : List Path

/-- What the others do: files stay, and a new file was not there, or a prefix protects it. -/
structure Shared.Grows (rule : CleanupRule) (w w' : Shared) : Prop where
  paths : w.storage.paths ⊆ w'.storage.paths
  created : ∀ c ∈ w'.created, c ∈ w.created ∨ c ∉ w.storage.paths ∨
    rule.isProtected (relativeText c) = true

/-- Every created file is there, and the rule does not remove it. -/
structure Shared.Spared (rule : CleanupRule) (w : Shared) : Prop where
  paths : w.created ⊆ w.storage.paths
  files : ∀ f ∈ w.storage.files, f.path ∈ w.created → f.swept rule = false

/-- A call of the cleanup, as long as the created files are spared. -/
structure Shared.Calls (rule : CleanupRule) (w : Shared) (q : WalkRequest) (r : q.Reply)
    (w' : Shared) : Prop where
  spared : w.Spared rule
  answer : ∃ entries failure, w.storage.answer entries failure q = (r, w'.storage)
  created : w'.created = w.created

/-- A removal hits no created file. -/
def Shared.Safe (q : WalkRequest) (w : Shared) : Prop := ∀ p, q = .removeFile p → p ∉ w.created

/-- Whatever the others do, the program removes no file that they created. -/
structure Harmless {α : Type} (rule : CleanupRule) (p : WalkProgram α) (w : Shared) : Prop where
  meets : Meets (Shared.Grows rule) (Shared.Calls rule) Shared.Safe (fun _ _ => True) p w

section Rules

variable {α β : Type} {rule : CleanupRule} {w w' w'' : Shared}

theorem Shared.Grows.refl (w : Shared) : Shared.Grows rule w w :=
  ⟨List.Subset.refl _, fun _ hc => Or.inl hc⟩

theorem Shared.Grows.trans (h : Shared.Grows rule w w') (h' : Shared.Grows rule w' w'') :
    Shared.Grows rule w w'' where
  paths := List.Subset.trans h.paths h'.paths
  created := by
    intro c hc
    rcases h'.created c hc with hold | hnew | hprotected
    · exact h.created c hold
    · exact Or.inr (Or.inl fun hpath => hnew (h.paths hpath))
    · exact Or.inr (Or.inr hprotected)

theorem Harmless.stays {p : WalkProgram α} (h : Harmless rule p w)
    (hgrows : Shared.Grows rule w w') : Harmless rule p w' :=
  ⟨h.meets.stable (fun _ _ _ => .trans) hgrows⟩

theorem Harmless.called {q : WalkRequest} {k : q.Reply → WalkProgram α} {r : q.Reply}
    (h : Harmless rule (.call q k) w) (hcalls : Shared.Calls rule w q r w') :
    Shared.Safe q w ∧ Harmless rule (k r) w' := by
  obtain ⟨hsafe, hmeets⟩ := h.meets.act .refl hcalls
  exact ⟨hsafe, ⟨hmeets⟩⟩

/-- What the metadata of a file that the rule removes says of the file. -/
structure Shared.Doomed (rule : CleanupRule) (p : Path) (w : Shared) : Prop where
  present : p ∈ w.storage.paths
  foreign : p ∉ w.created
  unprotected : rule.isProtected (relativeText p) = false

/-- It stays so while the others act. -/
theorem Shared.Doomed.stays {p : Path} (h : Shared.Doomed rule p w)
    (hgrows : Shared.Grows rule w w') : Shared.Doomed rule p w' where
  present := hgrows.paths h.present
  unprotected := h.unprotected
  foreign := by
    intro hc
    rcases hgrows.created p hc with hold | hnew | hprotected
    · exact h.foreign hold
    · exact hnew h.present
    · rw [h.unprotected] at hprotected
      cases hprotected

theorem Shared.Calls.doomed {p : Path} {metadata : Metadata}
    (h : Shared.Calls rule w (.symlinkMetadata p) (.ok metadata) w')
    (hfile : metadata.fileType ≠ .directory) (hrule : rule.removes p metadata.modified = true) :
    Shared.Doomed rule p w' := by
  obtain ⟨entries, failure, hanswer⟩ := h.answer
  obtain ⟨hstorage, f, hf, rfl, hmodified⟩ := Storage.answer_metadata hanswer hfile
  rw [hmodified] at hrule
  refine ⟨?_, ?_, ?_⟩
  · rw [hstorage]
    exact List.mem_map_of_mem hf
  · rw [h.created]
    intro hc
    have hspared : f.swept rule = false := h.spared.files f hf hc
    rw [StoredFile.swept, hrule] at hspared
    cases hspared
  · unfold CleanupRule.removes at hrule
    simp only [Bool.and_eq_true, Bool.not_eq_true'] at hrule
    exact hrule.1

/-- Created files are never marked. -/
theorem Shared.marks (rule : CleanupRule) :
    rule.Marks (Shared.Grows rule) (Shared.Calls rule) Shared.Safe (Shared.Doomed rule) where
  refl := .refl
  stays := fun _ _ _ hgrows hdoomed => hdoomed.stays hgrows
  seen := fun _ _ _ _ hcalls hfile hrule => hcalls.doomed hfile hrule
  removal := fun _ _ hdoomed _ hq => by
    cases hq
    exact hdoomed.foreign
  other := fun _ _ hq p hp => absurd hp (hq p)

/-- The cleanup removes no file that others create in the meantime. -/
theorem cleanupUnreferenced_harmless (depth : ℕ) (w : Shared) :
    Harmless rule (cleanupUnreferenced depth rule).run w :=
  ⟨(Shared.marks rule).cleanupUnreferenced depth w⟩

end Rules

end TaskHarbor
