import TaskHarbor.Api.Batch

/-! What `stage_fields` accepts. Every slot holds what the one field with its key stands for, and
the inputs are the image fields in their order, checked and written. -/
namespace TaskHarbor

open Transaction

/-! ### Text fields -/

/-- The key a field is matched by. -/
def UploadField.key (field : UploadField) : String := field.name.getD ""

/-- The text of a field. -/
def UploadField.text (field : UploadField) : Option String := decodeUtf8 field.chunks.flatten

/-- What a slot knows after the fields `seen`: the value of the only field with this key. -/
def Slot {α : Type} (seen : List UploadField) (key : String) (parse : String → Except ApiError α) :
    Option α → Prop
  | none => ∀ f ∈ seen, f.key ≠ key
  | some value => ∃ before f after text, seen = before ++ f :: after ∧ f.key = key ∧
      (∀ g ∈ before ++ after, g.key ≠ key) ∧ f.text = some text ∧ parse text = .ok value

section Slots

variable {α : Type} {seen : List UploadField} {field : UploadField} {key : String}
  {parse : String → Except ApiError α} {slot : Option α} {value : α} {text : String}

theorem Slot.skip (h : Slot seen key parse slot) (hkey : field.key ≠ key) :
    Slot (seen ++ [field]) key parse slot := by
  have hnew : ∀ f ∈ [field], f.key ≠ key := by
    intro f hf
    rw [List.mem_singleton.mp hf]
    exact hkey
  cases slot with
  | none =>
    intro f hf
    rcases List.mem_append.mp hf with hf | hf
    · exact h f hf
    · exact hnew f hf
  | some value =>
    obtain ⟨before, f, after, text, rfl, hf, hothers, htext, hvalue⟩ := h
    refine ⟨before, f, after ++ [field], text, by simp, hf, ?_, htext, hvalue⟩
    intro g hg
    rw [← List.append_assoc] at hg
    rcases List.mem_append.mp hg with hg | hg
    · exact hothers g hg
    · exact hnew g hg

theorem Slot.fill (h : Slot seen key parse none) (hkey : field.key = key)
    (htext : field.text = some text) (hvalue : parse text = .ok value) :
    Slot (seen ++ [field]) key parse (some value) :=
  ⟨seen, field, [], text, rfl, hkey, by rw [List.append_nil]; exact h, htext, hvalue⟩

/-- A filled slot holds the value of every field with its key. -/
theorem Slot.value_of (h : Slot seen key parse (some value)) (hmem : field ∈ seen)
    (hkey : field.key = key) : ∃ text, field.text = some text ∧ parse text = .ok value := by
  obtain ⟨before, f, after, text, rfl, -, hothers, htext, hvalue⟩ := h
  have hcases : field ∈ before ++ after ∨ field = f := by
    simp only [List.mem_append, List.mem_cons] at hmem ⊢
    tauto
  rcases hcases with hother | rfl
  · exact absurd hkey (hothers field hother)
  · exact ⟨text, htext, hvalue⟩

theorem Slot.exists_field (h : Slot seen key parse (some value)) :
    ∃ f ∈ seen, f.key = key ∧ ∃ text, f.text = some text ∧ parse text = .ok value := by
  obtain ⟨before, f, after, text, rfl, hf, -, htext, hvalue⟩ := h
  exact ⟨f, by simp, hf, text, htext, hvalue⟩

/-- A slot is empty when no field has its key. -/
theorem Slot.eq_none_iff (h : Slot seen key parse slot) :
    slot = none ↔ ∀ f ∈ seen, f.key ≠ key := by
  cases slot with
  | none => exact iff_of_true rfl h
  | some value =>
    obtain ⟨f, hf, hkey, -⟩ := h.exists_field
    exact iff_of_false (by simp) fun hall => hall f hf hkey

theorem collectSmallText_ok {chunks : List (List UInt8)} {bytes result : List UInt8}
    (h : collectSmallText key bytes chunks = .ok result) : result = bytes ++ chunks.flatten := by
  induction chunks generalizing bytes with
  | nil =>
    cases h
    simp
  | cons chunk rest ih =>
    unfold collectSmallText at h
    split at h
    · cases h
    · rw [ih h, List.flatten_cons, List.append_assoc]

theorem readSmallText_ok (h : readSmallText field key = .ok text) : field.text = some text := by
  obtain ⟨bytes, hbytes, h⟩ := except_bind_ok.mp h
  obtain ⟨-, h⟩ := except_unless_ok.mp h
  obtain rfl := collectSmallText_ok hbytes
  rw [List.nil_append] at h
  unfold UploadField.text
  cases hdecode : decodeUtf8 field.chunks.flatten with
  | none =>
    rw [hdecode] at h
    cases h
  | some decoded =>
    rw [hdecode] at h
    cases h
    rfl

theorem stageText_ok {result : Option α} (h : stageText field key parse slot = .ok result) :
    slot = none ∧ ∃ text value, field.text = some text ∧ parse text = .ok value ∧
      result = some value := by
  obtain ⟨text, htext, h⟩ := except_bind_ok.mp h
  obtain ⟨value, hvalue, h⟩ := except_bind_ok.mp h
  cases slot with
  | some other => cases h
  | none =>
    cases h
    exact ⟨rfl, text, value, readSmallText_ok htext, hvalue, rfl⟩

theorem parseBounded_ok {typeMax least most : ℕ} {refusal : ApiError} {value : ℕ}
    (h : parseBounded typeMax least most refusal text = .ok value) :
    least ≤ value ∧ value ≤ most := by
  unfold parseBounded at h
  split at h
  · cases h
  · split at h
    · rename_i hrange
      cases h
      exact hrange
    · cases h

end Slots

/-! ### Images -/

/-- The input that an accepted image field with index `n` becomes. -/
structure NewInputArtifact.From (ids : FreshIds) (field : UploadField) (n : ℕ)
    (input : NewInputArtifact) : Prop where
  fileName : ∃ rawName, field.fileName = some rawName ∧
    input.displayName = safeDisplayName rawName n
  storageKey : input.storageKey = ids.fileKey n
  metadata : ImageMetadata.Valid ⟨input.mediaType, input.width, input.height⟩
  byteSize : 0 < input.byteSize ∧ input.byteSize ≤ maxFileBytes
  checksum : input.checksumSha256.length = 32

section Images

variable {app : AppState} {ids : FreshIds} {st st' : Storage} {usage : ℕ}

theorem admitChunk_ok {fileBytes totalBytes size : ℕ} {u : Unit}
    (h : admitChunk app usage fileBytes totalBytes size = .ok u) :
    fileBytes + size ≤ maxFileBytes := by
  unfold admitChunk at h
  obtain ⟨-, h⟩ := except_unless_ok.mp h
  obtain ⟨hsize, -⟩ := except_unless_ok.mp h
  exact not_lt.mp hsize

theorem writeChunks_ok {path : Path} {total : ℕ} {content result : List UInt8}
    {chunks : List (List UInt8)} (hcontent : content.length ≤ maxFileBytes)
    (h : writeChunks app path usage total content chunks st = (.ok result, st')) :
    result.length ≤ maxFileBytes := by
  induction chunks generalizing content st with
  | nil =>
    cases h
    exact hcontent
  | cons chunk rest ih =>
    obtain ⟨u, hadmit, h⟩ := Session.lift_bind_ok.mp h
    obtain ⟨_, _, -, h⟩ := Session.bind_ok.mp h
    refine ih ?_ h
    rw [List.length_append]
    exact admitChunk_ok hadmit

theorem writeImageField_ok {path : Path} {total : ℕ} {field : UploadField} {content : List UInt8}
    (h : writeImageField app path usage total field st = (.ok content, st')) :
    0 < content.length ∧ content.length ≤ maxFileBytes := by
  obtain ⟨written, st₁, hwrite, h⟩ := Session.bind_ok.mp h
  have hmax := writeChunks_ok (Nat.zero_le _) hwrite
  dsimp only at h
  split at h
  · cases h
  · split at h
    · cases h
    · rename_i hempty
      cases h
      exact ⟨Nat.pos_of_ne_zero hempty, hmax⟩

theorem inspect_ok {images : ImageService} {key : String} {metadata : ImageMetadata}
    (h : inspect images key st = (.ok metadata, st')) : metadata.Valid := by
  obtain ⟨path, -, h⟩ := Session.lift_bind_ok.mp h
  cases hfault : images.faults path with
  | some e =>
    simp only [hfault] at h
    cases h
  | none =>
    simp only [hfault] at h
    obtain ⟨bytes, st₁, -, h⟩ := Session.bind_ok.mp h
    rw [Session.liftExcept_run] at h
    exact inspectPath_ok (Prod.mk.inj h).1

/-- An accepted image field becomes the next input, and its file is there. -/
theorem stageImage_ok {s s' : Staging} {field : UploadField}
    (h : stageImage app ids.uploadBatch ids usage s field st = (.ok s', st')) :
    s.inputs.length < maxFilesPerJob ∧ ids.filePath s.inputs.length ∈ st'.paths ∧
      ∃ input totalBytes, NewInputArtifact.From ids field s.inputs.length input ∧
        s' = { s with inputs := s.inputs ++ [input], totalBytes } := by
  unfold stageImage at h
  dsimp only at h
  split at h
  · cases h
  · rename_i hcount
    cases hname : field.fileName with
    | none =>
      simp only [hname] at h
      cases h
    | some rawName =>
      simp only [hname] at h
      obtain ⟨⟨key, path⟩, st₁, hcreate, h⟩ := Session.bind_ok.mp h
      obtain ⟨rfl, rfl, rfl⟩ := createFile_run app.disk _ (Session.mapError_ok.mp hcreate)
      obtain ⟨content, st₂, hwrite, h⟩ := Session.bind_ok.mp h
      obtain ⟨_, st₃, hflush, h⟩ := Session.bind_ok.mp h
      obtain ⟨metadata, st₄, hinspect, h⟩ := Session.bind_ok.mp h
      cases h
      refine ⟨not_le.mp hcount, ?_, _, _, ⟨⟨rawName, hname, rfl⟩, rfl, ?_, ?_, ?_⟩, rfl⟩
      · have hwritten := (writeImageField_moves (writesBelow_paths ids.batchPath)
          (ids.filePath_inside _) _ _ _).run hwrite
        have hflushed : st₃ = st₂ := by
          have h := Session.mapError_ok.mp hflush
          unfold flush at h
          rw [Session.liftExcept_run] at h
          exact (Prod.mk.inj h).2.symm
        have hinspected := inspect_reads app.images (ids.fileKey s.inputs.length) st₃
        rw [Session.mapError_ok.mp hinspect] at hinspected
        obtain rfl : st' = st₃ := hinspected
        rw [hflushed]
        exact hwritten (createFile_paths _ _ _)
      · exact inspect_ok (Session.mapError_ok.mp hinspect)
      · exact writeImageField_ok hwrite
      · exact Vector.length_toList

end Images

/-! ### Whole requests -/

/-- What the variables of `stage_fields` know after the fields `seen`. -/
structure Staging.Reads (app : AppState) (ids : FreshIds) (seen : List UploadField)
    (s : Staging) : Prop where
  name : Slot seen "name" .ok s.name
  maxWidth : Slot seen "max_width" parseMaxWidth s.maxWidth
  jpegQuality : Slot seen "jpeg_quality" parseJpegQuality s.jpegQuality
  availableAt : Slot seen "available_at" (parseTimestamp app "available_at") s.availableAt
  priority : Slot seen "priority" parsePriority s.priority
  intervalSeconds : Slot seen "interval_seconds" parseInterval s.intervalSeconds
  anchorAt : Slot seen "anchor_at" (parseTimestamp app "anchor_at") s.anchorAt
  inputs : List.Forall₂ (fun (p : UploadField × ℕ) input => NewInputArtifact.From ids p.1 p.2 input)
    (seen.filter fun f => f.key == "images").zipIdx s.inputs
  count : s.inputs.length ≤ maxFilesPerJob

/-- What a field other than an image does: it fills the empty slot of its key. -/
inductive Staging.Fills (app : AppState) (s : Staging) (field : UploadField) :
    String → Staging → Prop
  | name {text} (reads : field.text = some text) (empty : s.name = none) :
      s.Fills app field "name" { s with name := some text }
  | maxWidth {text value} (reads : field.text = some text) (empty : s.maxWidth = none)
      (parses : parseMaxWidth text = .ok value) :
      s.Fills app field "max_width" { s with maxWidth := some value }
  | jpegQuality {text value} (reads : field.text = some text) (empty : s.jpegQuality = none)
      (parses : parseJpegQuality text = .ok value) :
      s.Fills app field "jpeg_quality" { s with jpegQuality := some value }
  | priority {text value} (reads : field.text = some text) (empty : s.priority = none)
      (parses : parsePriority text = .ok value) :
      s.Fills app field "priority" { s with priority := some value }
  | availableAt {text value} (reads : field.text = some text) (empty : s.availableAt = none)
      (parses : parseTimestamp app "available_at" text = .ok value) :
      s.Fills app field "available_at" { s with availableAt := some value }
  | intervalSeconds {text value} (reads : field.text = some text)
      (empty : s.intervalSeconds = none) (parses : parseInterval text = .ok value) :
      s.Fills app field "interval_seconds" { s with intervalSeconds := some value }
  | anchorAt {text value} (reads : field.text = some text) (empty : s.anchorAt = none)
      (parses : parseTimestamp app "anchor_at" text = .ok value) :
      s.Fills app field "anchor_at" { s with anchorAt := some value }

section Staging

variable {app : AppState} {ids : FreshIds} {st st' : Storage} {usage : ℕ}
  {target : UploadTarget} {s s' : Staging} {field : UploadField} {seen fields : List UploadField}

theorem stageValue_ok {fieldName : String} (h : stageValue app target s field fieldName = .ok s') :
    s.Fills app field fieldName s' := by
  unfold stageValue at h
  split at h
  · obtain ⟨slot, hslot, h⟩ := except_bind_ok.mp h
    obtain ⟨hempty, text, value, htext, hvalue, rfl⟩ := stageText_ok hslot
    cases h
    cases hvalue
    exact .name htext hempty
  · obtain ⟨slot, hslot, h⟩ := except_bind_ok.mp h
    obtain ⟨hempty, text, value, htext, hvalue, rfl⟩ := stageText_ok hslot
    cases h
    exact .maxWidth htext hempty hvalue
  · obtain ⟨slot, hslot, h⟩ := except_bind_ok.mp h
    obtain ⟨hempty, text, value, htext, hvalue, rfl⟩ := stageText_ok hslot
    cases h
    exact .jpegQuality htext hempty hvalue
  · obtain ⟨slot, hslot, h⟩ := except_bind_ok.mp h
    obtain ⟨hempty, text, value, htext, hvalue, rfl⟩ := stageText_ok hslot
    cases h
    exact .priority htext hempty hvalue
  · obtain ⟨slot, hslot, h⟩ := except_bind_ok.mp h
    obtain ⟨hempty, text, value, htext, hvalue, rfl⟩ := stageText_ok hslot
    cases h
    exact .availableAt htext hempty hvalue
  · obtain ⟨slot, hslot, h⟩ := except_bind_ok.mp h
    obtain ⟨hempty, text, value, htext, hvalue, rfl⟩ := stageText_ok hslot
    cases h
    exact .intervalSeconds htext hempty hvalue
  · obtain ⟨slot, hslot, h⟩ := except_bind_ok.mp h
    obtain ⟨hempty, text, value, htext, hvalue, rfl⟩ := stageText_ok hslot
    cases h
    exact .anchorAt htext hempty hvalue
  · cases h

theorem Staging.Fills.inputs {key : String} (h : s.Fills app field key s') :
    s'.inputs = s.inputs := by
  cases h <;> rfl

theorem Staging.Fills.totalBytes {key : String} (h : s.Fills app field key s') :
    s'.totalBytes = s.totalBytes := by
  cases h <;> rfl

theorem Staging.Reads.initial : Staging.initial.Reads app ids [] := by
  constructor <;> first | exact .nil | exact Nat.zero_le _ | (intro f hf; cases hf)

/-- The slots of other keys and the inputs stay. -/
theorem Staging.Reads.fill {key : String} (h : s.Reads app ids seen) (hkey : field.key = key)
    (hfills : s.Fills app field key s') : s'.Reads app ids (seen ++ [field]) := by
  have hother : ∀ other : String, key ≠ other → field.key ≠ other := fun other hne => hkey ▸ hne
  have hinputs : key ≠ "images" → (seen ++ [field]).filter (fun f => f.key == "images") =
      seen.filter fun f => f.key == "images" := by
    intro hne
    rw [List.filter_append, List.filter_cons_of_neg (by simpa using hother _ hne)]
    simp
  cases hfills with
  | name reads empty =>
    exact ⟨(empty ▸ h.name).fill hkey reads rfl, h.maxWidth.skip (hother _ (by decide)),
      h.jpegQuality.skip (hother _ (by decide)), h.availableAt.skip (hother _ (by decide)),
      h.priority.skip (hother _ (by decide)), h.intervalSeconds.skip (hother _ (by decide)),
      h.anchorAt.skip (hother _ (by decide)), hinputs (by decide) ▸ h.inputs, h.count⟩
  | maxWidth reads empty parses =>
    exact ⟨h.name.skip (hother _ (by decide)), (empty ▸ h.maxWidth).fill hkey reads parses,
      h.jpegQuality.skip (hother _ (by decide)), h.availableAt.skip (hother _ (by decide)),
      h.priority.skip (hother _ (by decide)), h.intervalSeconds.skip (hother _ (by decide)),
      h.anchorAt.skip (hother _ (by decide)), hinputs (by decide) ▸ h.inputs, h.count⟩
  | jpegQuality reads empty parses =>
    exact ⟨h.name.skip (hother _ (by decide)), h.maxWidth.skip (hother _ (by decide)),
      (empty ▸ h.jpegQuality).fill hkey reads parses, h.availableAt.skip (hother _ (by decide)),
      h.priority.skip (hother _ (by decide)), h.intervalSeconds.skip (hother _ (by decide)),
      h.anchorAt.skip (hother _ (by decide)), hinputs (by decide) ▸ h.inputs, h.count⟩
  | priority reads empty parses =>
    exact ⟨h.name.skip (hother _ (by decide)), h.maxWidth.skip (hother _ (by decide)),
      h.jpegQuality.skip (hother _ (by decide)), h.availableAt.skip (hother _ (by decide)),
      (empty ▸ h.priority).fill hkey reads parses, h.intervalSeconds.skip (hother _ (by decide)),
      h.anchorAt.skip (hother _ (by decide)), hinputs (by decide) ▸ h.inputs, h.count⟩
  | availableAt reads empty parses =>
    exact ⟨h.name.skip (hother _ (by decide)), h.maxWidth.skip (hother _ (by decide)),
      h.jpegQuality.skip (hother _ (by decide)), (empty ▸ h.availableAt).fill hkey reads parses,
      h.priority.skip (hother _ (by decide)), h.intervalSeconds.skip (hother _ (by decide)),
      h.anchorAt.skip (hother _ (by decide)), hinputs (by decide) ▸ h.inputs, h.count⟩
  | intervalSeconds reads empty parses =>
    exact ⟨h.name.skip (hother _ (by decide)), h.maxWidth.skip (hother _ (by decide)),
      h.jpegQuality.skip (hother _ (by decide)), h.availableAt.skip (hother _ (by decide)),
      h.priority.skip (hother _ (by decide)), (empty ▸ h.intervalSeconds).fill hkey reads parses,
      h.anchorAt.skip (hother _ (by decide)), hinputs (by decide) ▸ h.inputs, h.count⟩
  | anchorAt reads empty parses =>
    exact ⟨h.name.skip (hother _ (by decide)), h.maxWidth.skip (hother _ (by decide)),
      h.jpegQuality.skip (hother _ (by decide)), h.availableAt.skip (hother _ (by decide)),
      h.priority.skip (hother _ (by decide)), h.intervalSeconds.skip (hother _ (by decide)),
      (empty ▸ h.anchorAt).fill hkey reads parses, hinputs (by decide) ▸ h.inputs, h.count⟩

theorem Staging.Reads.image {input : NewInputArtifact} {totalBytes : ℕ}
    (h : s.Reads app ids seen) (hkey : field.key = "images")
    (hcount : s.inputs.length < maxFilesPerJob)
    (hinput : NewInputArtifact.From ids field s.inputs.length input) :
    Staging.Reads app ids (seen ++ [field])
      { s with inputs := s.inputs ++ [input], totalBytes } := by
  have hother : ∀ other : String, "images" ≠ other → field.key ≠ other :=
    fun other hne => hkey ▸ hne
  have hlength : (seen.filter fun f => f.key == "images").length = s.inputs.length := by
    rw [← h.inputs.length_eq, List.length_zipIdx]
  refine ⟨h.name.skip (hother _ (by decide)), h.maxWidth.skip (hother _ (by decide)),
    h.jpegQuality.skip (hother _ (by decide)), h.availableAt.skip (hother _ (by decide)),
    h.priority.skip (hother _ (by decide)), h.intervalSeconds.skip (hother _ (by decide)),
    h.anchorAt.skip (hother _ (by decide)), ?_, ?_⟩
  · rw [List.filter_append, List.filter_cons_of_pos (by simpa using hkey), List.filter_nil,
      List.zipIdx_append, Nat.zero_add, hlength]
    exact List.rel_append h.inputs (.cons hinput .nil)
  · rw [List.length_append]
    exact hcount

theorem stageField_ok (h : s.Reads app ids seen)
    (hrun : stageField app ids.uploadBatch ids target usage s field st = (.ok s', st')) :
    s'.Reads app ids (seen ++ [field]) ∧ ∀ n < s'.inputs.length, s.inputs.length ≤ n →
      ids.filePath n ∈ st'.paths := by
  unfold stageField at hrun
  split at hrun
  · rename_i hkey
    obtain ⟨hcount, hpath, input, totalBytes, hinput, rfl⟩ := stageImage_ok hrun
    refine ⟨h.image hkey hcount hinput, fun n hn hle => ?_⟩
    have hlast : n = s.inputs.length := by
      simp only [List.length_append, List.length_singleton] at hn
      omega
    rw [hlast]
    exact hpath
  · rw [Session.liftExcept_run] at hrun
    have hfills := stageValue_ok (Prod.mk.inj hrun).1
    refine ⟨h.fill rfl hfills, fun n hn hle => ?_⟩
    rw [hfills.inputs] at hn
    omega

/-- The loop reads every field, and the files of its inputs are there. -/
theorem stageAll_ok (h : s.Reads app ids seen)
    (hrun : stageAll app ids.uploadBatch ids target usage s fields st = (.ok s', st')) :
    s'.Reads app ids (seen ++ fields) ∧ ∀ n < s'.inputs.length, s.inputs.length ≤ n →
      ids.filePath n ∈ st'.paths := by
  induction fields generalizing s st seen with
  | nil =>
    cases hrun
    rw [List.append_nil]
    exact ⟨h, fun n hn hle => by omega⟩
  | cons field rest ih =>
    obtain ⟨s₁, st₁, hfield, hrest⟩ := Session.bind_ok.mp hrun
    obtain ⟨h₁, hnew⟩ := stageField_ok h hfield
    obtain ⟨h', hothers⟩ := ih h₁ hrest
    have hkept := (stageAll_moves (writesBelow_paths ids.batchPath) _ _ _ _).run hrest
    refine ⟨by simpa using h', fun n hn hle => ?_⟩
    rcases lt_or_ge n s₁.inputs.length with hlt | hge
    · exact hkept (hnew n hlt hle)
    · exact hothers n hn hge

/-- What an accepted request is made of. -/
structure StagedImageFields.Made (app : AppState) (s : Staging) (request : StagedImageFields) :
    Prop where
  name : s.name = some request.name.asStr
  maxWidth : request.maxWidth = s.maxWidth.getD defaultOutputWidth
  jpegQuality : request.jpegQuality = s.jpegQuality.getD defaultJpegQuality
  availableAt : request.availableAt = s.availableAt
  intervalSeconds : request.intervalSeconds = s.intervalSeconds
  anchorAt : request.anchorAt = s.anchorAt
  inputs : request.inputs = s.inputs
  nonempty : s.inputs ≠ []

theorem Staging.finish_ok {request : StagedImageFields} (h : s.finish = .ok request) :
    request.Made app s := by
  unfold Staging.finish at h
  cases hname : s.name with
  | none =>
    simp only [hname] at h
    cases h
  | some text =>
    simp only [hname] at h
    obtain ⟨name, hnew, h⟩ := except_bind_ok.mp h
    split at h
    · cases h
    · rename_i hinputs
      cases h
      have htext : JobName.new text = .ok name := by
        cases hj : JobName.new text with
        | error e =>
          rw [hj] at hnew
          cases hnew
        | ok name' =>
          rw [hj] at hnew
          cases hnew
          rfl
      exact ⟨hname.trans (congrArg some (JobName.asStr_of_new htext).symm), rfl, rfl, rfl, rfl, rfl,
        rfl, hinputs⟩

/-- `stage_fields` accepts only what it read, checked and wrote. -/
theorem stageFields_ok {multipart : Multipart} {request : StagedImageFields}
    (h : stageFields app ids.uploadBatch ids multipart target usage st = (.ok request, st')) :
    ∃ s : Staging, s.Reads app ids multipart.fields ∧ request.Made app s ∧
      ∀ n < request.inputs.length, ids.filePath n ∈ st'.paths := by
  obtain ⟨s, st₁, hall, h⟩ := Session.bind_ok.mp h
  obtain ⟨hreads, hpaths⟩ := stageAll_ok .initial hall
  dsimp only at h
  split at h
  · cases h
  · obtain ⟨hfinish, rfl⟩ := Prod.mk.inj ((Session.liftExcept_run s.finish st₁).symm.trans h)
    have hmade : request.Made app s := Staging.finish_ok hfinish
    refine ⟨s, by simpa using hreads, hmade, fun n hn => ?_⟩
    exact hpaths n (hmade.inputs ▸ hn) (Nat.zero_le n)

end Staging

end TaskHarbor
