import TaskHarbor.Api.Upload
import TaskHarbor.Storage.Frame

/-! The batch directory of a request. Staging writes below it only, whatever the fields are and
wherever it stops, and removing the batch removes exactly that directory. -/
namespace TaskHarbor

open Transaction

def FreshIds.uploadBatch (ids : FreshIds) : UploadBatch := ⟨"inputs/" ++ uuidText ids.batch⟩

/-- The directory of the batch. -/
def FreshIds.batchPath (ids : FreshIds) : Path := ["inputs", uuidText ids.batch]

/-- The file of the image with index `n`. -/
def FreshIds.filePath (ids : FreshIds) (n : ℕ) : Path := ids.batchPath ++ [uuidText (ids.file n)]

/-- The storage key of that file. -/
def FreshIds.fileKey (ids : FreshIds) (n : ℕ) : String :=
  ids.uploadBatch.batchKey ++ "/" ++ uuidText (ids.file n)

theorem FreshIds.batchKey_eq (ids : FreshIds) : ids.uploadBatch.batchKey = keyOf ids.batchPath := by
  rw [batchPath, keyOf_cons (by simp), keyOf_singleton]
  rfl

theorem FreshIds.fileKey_eq (ids : FreshIds) (n : ℕ) : ids.fileKey n = keyOf (ids.filePath n) := by
  have hpath : ids.filePath n = ["inputs", uuidText ids.batch, uuidText (ids.file n)] := rfl
  rw [hpath, keyOf_cons (by simp), keyOf_cons (by simp), keyOf_singleton, fileKey, uploadBatch]
  simp only [String.append_assoc]
  rfl

theorem FreshIds.resolve_batch (ids : FreshIds) :
    resolveKey ids.uploadBatch.batchKey = .ok ids.batchPath := by
  rw [ids.batchKey_eq]
  refine resolveKey_keyOf (by simp [batchPath]) fun part hpart => ?_
  simp only [batchPath, List.mem_cons, List.not_mem_nil, or_false] at hpart
  rcases hpart with rfl | rfl
  · exact inputs_plain
  · exact uuidText_plain _

theorem FreshIds.resolve_file (ids : FreshIds) (n : ℕ) :
    resolveKey (ids.fileKey n) = .ok (ids.filePath n) := by
  rw [ids.fileKey_eq]
  refine resolveKey_keyOf (by simp [filePath]) fun part hpart => ?_
  simp only [filePath, batchPath, List.cons_append, List.nil_append, List.mem_cons,
    List.not_mem_nil, or_false] at hpart
  rcases hpart with rfl | rfl | rfl
  · exact inputs_plain
  · exact uuidText_plain _
  · exact uuidText_plain _

theorem FreshIds.filePath_inside (ids : FreshIds) (n : ℕ) : ids.batchPath <+: ids.filePath n :=
  List.prefix_append _ _

/-! ### Removing the batch -/

section Requests

variable {app : AppState} {ids : FreshIds} {st st' : Storage}

theorem discard_batch (ids : FreshIds) (disk : Disk) (st : Storage) :
    ids.uploadBatch.discard disk st = (.ok (), disk.removeTree ids.batchPath st) := by
  unfold UploadBatch.discard UploadBatch.cleanup
  rw [removeTree_run disk ids.resolve_batch]

theorem orDiscard_run {α : Type} (batch : UploadBatch) (disk : Disk) (x : ApiSession α)
    (st : Storage) :
    batch.orDiscard disk x st = match x st with
      | (.ok a, st') => (.ok a, st')
      | (.error e, st') => (.error e, (batch.discard disk st').2) := by
  unfold UploadBatch.orDiscard
  rw [Session.tryCatch_run]
  rcases x st with ⟨e | a, st'⟩ <;> rfl

/-- An error removes the batch. -/
theorem orDiscard_error {α : Type} {disk : Disk} {x : ApiSession α} {e : ApiError}
    (h : (ids.uploadBatch.orDiscard disk x st).1 = .error e) :
    (x st).1 = .error e ∧
      (ids.uploadBatch.orDiscard disk x st).2 = disk.removeTree ids.batchPath (x st).2 := by
  rw [orDiscard_run] at h ⊢
  rcases hx : x st with ⟨e' | a, st'⟩
  · rw [hx] at h
    cases h
    show _ ∧ (ids.uploadBatch.discard disk st').2 = _
    exact ⟨rfl, by rw [discard_batch]⟩
  · rw [hx] at h
    cases h

theorem orDiscard_ok {α : Type} {disk : Disk} {x : ApiSession α} {a : α} :
    ids.uploadBatch.orDiscard disk x st = (.ok a, st') ↔ x st = (.ok a, st') := by
  rw [orDiscard_run]
  rcases hx : x st with ⟨e | b, t⟩
  · constructor <;> (intro h; cases h)
  · exact Iff.rfl

/-! ### Staging -/

theorem createFile_run (disk : Disk) (n : ℕ) {key : String} {path : Path}
    (h : ids.uploadBatch.createFile disk (ids.file n) st = (.ok (key, path), st')) :
    key = ids.fileKey n ∧ path = ids.filePath n ∧
      st' = st.createFile (ids.filePath n) (disk.modified (ids.filePath n)) := by
  unfold UploadBatch.createFile at h
  obtain ⟨path', hpath, h⟩ := Session.lift_bind_ok.mp h
  obtain ⟨u, -, h⟩ := Session.lift_bind_ok.mp h
  obtain rfl : ids.filePath n = path' := Except.ok.inj ((ids.resolve_file n).symm.trans hpath)
  cases h
  exact ⟨rfl, rfl, rfl⟩

section Moves

variable {R : Storage → Storage → Prop}

theorem createFile_moves (hR : WritesBelow ids.batchPath R) (disk : Disk) (n : ℕ) :
    Session.Moves R (ids.uploadBatch.createFile disk (ids.file n)) st := by
  refine Session.moves_lift_bind (hR.refl st) fun path hpath => ?_
  refine Session.moves_lift_bind (hR.refl st) fun _ _ => ?_
  obtain rfl : ids.filePath n = path := Except.ok.inj ((ids.resolve_file n).symm.trans hpath)
  exact hR.createFile (ids.filePath_inside n) st _

theorem writeChunks_moves {p path : Path} (hR : WritesBelow p R) (h : p <+: path)
    (usage total : ℕ) (content : List UInt8) (chunks : List (List UInt8)) :
    Session.Moves R (writeChunks app path usage total content chunks) st := by
  induction chunks generalizing content st with
  | nil => exact hR.refl st
  | cons chunk rest ih =>
    refine Session.moves_lift_bind (hR.refl st) fun _ _ => ?_
    refine Session.moves_bind hR.trans ?_ fun _ _ _ => ih _
    exact Session.moves_mapError (writeAll_moves hR app.disk h _ _)

theorem writeImageField_moves {p path : Path} (hR : WritesBelow p R) (h : p <+: path)
    (usage total : ℕ) (field : UploadField) :
    Session.Moves R (writeImageField app path usage total field) st := by
  refine Session.moves_bind hR.trans (writeChunks_moves hR h _ _ _ _) fun content st' _ => ?_
  refine Session.moves_unless (hR.refl st') fun _ => ?_
  exact Session.moves_unless (hR.refl st') fun _ => hR.refl st'

theorem stageImage_moves (hR : WritesBelow ids.batchPath R) (usage : ℕ) (s : Staging)
    (field : UploadField) :
    Session.Moves R (stageImage app ids.uploadBatch ids usage s field) st := by
  refine Session.moves_unless (hR.refl st) fun _ => ?_
  cases field.fileName with
  | none => exact hR.refl st
  | some rawName =>
    refine Session.moves_bind hR.trans (Session.moves_mapError (createFile_moves hR _ _)) ?_
    rintro ⟨key, path⟩ st₁ hcreate
    obtain ⟨-, rfl, -⟩ := createFile_run app.disk _ (Session.mapError_ok.mp hcreate)
    refine Session.moves_bind hR.trans (writeImageField_moves hR (ids.filePath_inside _) _ _ _) ?_
    intro content st₂ _
    refine Session.moves_bind hR.trans
      (Session.moves_mapError (Session.moves_lift (hR.refl st₂))) ?_
    intro _ st₃ _
    refine Session.moves_bind hR.trans (Session.moves_mapError ?_) fun _ _ _ => hR.refl _
    unfold Session.Moves
    rw [inspect_reads]
    exact hR.refl st₃

theorem stageField_moves (hR : WritesBelow ids.batchPath R) (target : UploadTarget) (usage : ℕ)
    (s : Staging) (field : UploadField) :
    Session.Moves R (stageField app ids.uploadBatch ids target usage s field) st := by
  unfold stageField
  dsimp only
  split
  · exact stageImage_moves hR usage s field
  · exact Session.moves_lift (hR.refl st)

theorem stageAll_moves (hR : WritesBelow ids.batchPath R) (target : UploadTarget) (usage : ℕ)
    (s : Staging) (fields : List UploadField) :
    Session.Moves R (stageAll app ids.uploadBatch ids target usage s fields) st := by
  induction fields generalizing s st with
  | nil => exact hR.refl st
  | cons field rest ih =>
    exact Session.moves_bind hR.trans (stageField_moves hR target usage s field)
      fun _ _ _ => ih _

/-- Staging writes below the batch directory only, whatever it answers. -/
theorem stageFields_moves (hR : WritesBelow ids.batchPath R) (multipart : Multipart)
    (target : UploadTarget) (usage : ℕ) :
    Session.Moves R (stageFields app ids.uploadBatch ids multipart target usage) st := by
  refine Session.moves_bind hR.trans (stageAll_moves hR target usage _ _) ?_
  intro s st' _
  refine Session.moves_unless (hR.refl st') fun _ => ?_
  exact Session.moves_lift (hR.refl st')

end Moves

/-! ### The start of a request -/

theorem storageUsage_reads (app : AppState) (st : Storage) : (storageUsage app st).2 = st := by
  have h : Session.Moves (fun st st' => st' = st) (storageUsage app) st := by
    refine Session.moves_bind (fun _ _ _ h h' => h'.trans h) (Session.moves_mapError ?_) ?_
    · exact Session.moves_lift_bind rfl fun _ _ => rfl
    · intro usage st' _
      exact Session.moves_unless rfl fun _ => rfl
  exact h

theorem storageUsage_ok {usage : ℕ} (h : storageUsage app st = (.ok usage, st')) : st' = st := by
  have hreads := storageUsage_reads app st
  rw [h] at hreads
  exact hreads

theorem beginUpload_run {disk : Disk} {batch : UploadBatch}
    (h : beginUpload disk ids.batch st = (.ok batch, st')) :
    batch = ids.uploadBatch ∧ st' = st.createDirAll ids.batchPath := by
  obtain ⟨path, hpath, h⟩ := Session.lift_bind_ok.mp h
  obtain ⟨u, -, h⟩ := Session.lift_bind_ok.mp h
  obtain rfl : ids.batchPath = path := Except.ok.inj (ids.resolve_batch.symm.trans hpath)
  cases h
  exact ⟨rfl, rfl⟩

theorem beginUpload_traceless (disk : Disk) (id : Uuid) :
    Session.Traceless (fun _ => True) (beginUpload disk id) st := by
  refine Session.traceless_lift_bind fun path _ => ?_
  refine Session.traceless_lift_bind fun _ _ e he _ => ?_
  cases he

/-- A request that goes on has its batch directory, and nothing else changed. -/
theorem beginRequest_ok {multipart : Option Multipart} {usage : ℕ} {m : Multipart}
    {batch : UploadBatch} (h : beginRequest app ids multipart st = (.ok (usage, m, batch), st')) :
    multipart = some m ∧ batch = ids.uploadBatch ∧ st' = st.createDirAll ids.batchPath := by
  obtain ⟨usage', st₁, husage, hrest⟩ := Session.bind_ok.mp h
  obtain rfl := storageUsage_ok husage
  cases multipart with
  | none => cases hrest
  | some multipart =>
    obtain ⟨batch', st₂, hbegin, hrest⟩ := Session.bind_ok.mp hrest
    obtain ⟨rfl, rfl⟩ := beginUpload_run (Session.mapError_ok.mp hbegin)
    cases hrest
    exact ⟨rfl, rfl, rfl⟩

/-- A request that is refused before its batch exists leaves the storage alone. -/
theorem beginRequest_traceless (multipart : Option Multipart) :
    Session.Traceless (fun _ => True) (beginRequest app ids multipart) st := by
  refine Session.traceless_bind (Session.traceless_read (storageUsage_reads app st)) ?_
  intro usage st' husage e he _
  obtain rfl := storageUsage_ok husage
  cases multipart with
  | none => rfl
  | some multipart =>
    have hbegin : Session.Traceless (fun _ => True)
        (Session.mapError ApiError.storage (beginUpload app.disk ids.batch)) st' :=
      Session.traceless_mapError (beginUpload_traceless _ _)
    exact Session.traceless_bind_ok hbegin (fun batch st' _ => ⟨_, rfl⟩) e he trivial

end Requests

end TaskHarbor
