import TaskHarbor.Lifecycle.OutputName
import TaskHarbor.System.Descent
import TaskHarbor.System.Uploads

/-! What the upload form accepts against what the schema stores. The form counts characters and
trims Unicode white space; the schema strips ASCII spaces and has no U+0000. The two agree but on a
name with U+0000 and on a file name of which only spaces are left. -/
namespace TaskHarbor

open Relational Transaction Runs

/-! ### Rows within the constraints -/

/-- An input whose row the schema takes in at this index. -/
structure NewInputArtifact.Conforms (input : NewInputArtifact) (itemIndex : ℕ) : Prop where
  storageKey : storableText input.storageKey = true
  displayName : varcharParam 255 input.displayName = .ok input.displayName
  mediaType : storableText input.mediaType = true
  byteSize : input.byteSize ≤ i64Max
  width : input.width ≤ i32Max
  height : input.height ≤ i32Max
  checks : ∀ jobId now id,
    holdsAll (input.row jobId itemIndex input.displayName now id).checks = true

/-- A request whose job row and input rows the schema takes in. -/
structure NewImageJob.Conforms (job : NewImageJob) : Prop where
  name : varcharParam 100 job.name.asStr = .ok job.name.asStr
  checks : ∀ now id, holdsAll (job.row job.name.asStr now id).checks = true
  inputs : ∀ p ∈ job.inputs.zipIdx, p.1.Conforms p.2

/-- The error of an identity column without values. -/
def exhausted : RepositoryError := .database "reached maximum value of sequence"

section Inserts

variable {db : Db} {now : ℤ}

theorem identityLeft_exhausted {n : ℕ} (h : ¬n ≤ i64Max) : identityLeft n = .error exhausted :=
  if_neg h

theorem insertJob_exhausts {mk : ℕ → JobRow} {hk}
    (hchecks : holdsAll (mk db.jobs.next).checks = true) (hfree : db.keyFree (mk db.jobs.next)) :
    Tx.FailsOnly (fun e => e = exhausted) (insertJob mk hk) db := by
  intro e he
  by_cases hleft : db.jobs.next ≤ i64Max
  · rw [insertJob_ok.mpr ⟨rfl, hleft, hchecks, hfree, rfl⟩] at he
    cases he
  · unfold insertJob at he
    rw [identityLeft_exhausted hleft] at he
    cases he
    rfl

theorem insertArtifact_exhausts {mk : ℕ → ArtifactRow} {hk}
    (hchecks : holdsAll (mk db.artifacts.next).checks = true)
    (hfree : ∀ a ∈ db.artifacts, a.slot ≠ (mk db.artifacts.next).slot) :
    Tx.FailsOnly (fun e => e = exhausted) (insertArtifact mk hk) db := by
  intro e he
  by_cases hleft : db.artifacts.next ≤ i64Max
  · rw [(insertArtifact_ok (u := ())).mpr ⟨hleft, hchecks, hfree, rfl⟩] at he
    cases he
  · unfold insertArtifact at he
    rw [identityLeft_exhausted hleft] at he
    cases he
    rfl

theorem insertInputArtifact_run {jobId itemIndex : ℕ} {input : NewInputArtifact}
    (h : input.Conforms itemIndex) : insertInputArtifact jobId itemIndex input now db =
      insertArtifact (input.row jobId itemIndex input.displayName now) (fun _ => rfl) db := by
  unfold insertInputArtifact
  simp only [Tx.bind_run, Tx.liftExcept_run, encodeU64, encodeU32, textParam, if_pos h.byteSize,
    if_pos h.width, if_pos h.height, if_pos h.storageKey, if_pos h.mediaType, h.displayName]
  rfl

theorem insertInputArtifacts_exhausts {jobId itemIndex : ℕ} {inputs : List NewInputArtifact}
    (hinputs : ∀ p ∈ inputs.zipIdx itemIndex, p.1.Conforms p.2)
    (hfree : ∀ a ∈ db.artifacts, a.jobId = jobId → a.kind = .input → a.itemIndex < itemIndex) :
    Tx.FailsOnly (fun e => e = exhausted) (insertInputArtifacts jobId now itemIndex inputs) db := by
  induction inputs generalizing itemIndex db with
  | nil => exact Tx.failsOnly_pure () db
  | cons input rest ih =>
    rw [List.zipIdx_cons, List.forall_mem_cons] at hinputs
    obtain ⟨hinput, hrest⟩ := hinputs
    refine Tx.failsOnly_bind ?_ fun _ db' hinsert => ?_
    · intro e he
      rw [insertInputArtifact_run hinput] at he
      refine insertArtifact_exhausts (hinput.checks _ _ _) (fun a ha hslot => ?_) e he
      simp only [ArtifactRow.slot, NewInputArtifact.row, Prod.mk.injEq] at hslot
      exact absurd hslot.2.2 (hfree a ha hslot.1 hslot.2.1).ne
    · rw [insertInputArtifact_run hinput] at hinsert
      obtain ⟨-, -, -, rfl⟩ := insertArtifact_ok.mp hinsert
      refine ih hrest fun a ha hjob hkind => ?_
      have hmem : a ∈ db.artifacts.insertNew
          (input.row jobId itemIndex input.displayName now) fun _ => rfl := ha
      rcases Table.mem_insertNew.mp hmem with ha | rfl
      · exact (hfree a ha hjob hkind).trans (Nat.lt_succ_self _)
      · exact Nat.lt_succ_self _

/-- The lookup of a key that can be stored refuses a conflict only. -/
theorem existingImageJob_error {job : NewImageJob} {e : RepositoryError}
    (hkey : ∀ i, job.idempotency = some i → storableText i.key = true)
    (h : existingImageJob job db = .error e) : e = .idempotencyConflict := by
  unfold existingImageJob at h
  cases hi : job.idempotency with
  | none =>
    rw [hi] at h
    cases h
  | some i =>
    have htext : textParam i.key = .ok i.key := textParam_ok.mpr ⟨hkey i hi, rfl⟩
    simp only [hi, htext, except_ok_bind] at h
    split at h
    · cases h
    · rename_i row hrow
      unfold replay at h
      split at h
      · cases h
      · cases h
        rfl

/-- Where the lookup found no job, the unique index lets the new row in. -/
theorem keyFree_of_none {job : NewImageJob} (h : existingImageJob job db = .ok none)
    (name : String) (now : ℤ) (id : ℕ) : db.keyFree (job.row name now id) := by
  unfold Db.keyFree NewImageJob.row
  cases hi : job.idempotency with
  | none => exact Or.inl rfl
  | some i =>
    right
    unfold existingImageJob at h
    rw [hi] at h
    obtain ⟨key, hkey, h⟩ := except_bind_ok.mp h
    obtain ⟨-, rfl⟩ := textParam_ok.mp hkey
    split at h
    · rename_i hrow
      intro r hr
      by_contra hsame
      rw [not_or, not_not, not_not] at hsame
      exact idempotentRow_none hrow r hr ⟨hsame.1, hsame.2⟩
    · obtain ⟨id, -, h⟩ := except_bind_ok.mp h
      cases h

/-- A request whose rows conform is refused over its key, or no identity is left. -/
theorem createImageJobTx_exhausts {job : NewImageJob} (hrooted : db.Rooted) (hjob : job.Conforms)
    (hkey : ∀ i, job.idempotency = some i → storableText i.key = true) :
    Tx.FailsOnly (fun e => e = .idempotencyConflict ∨ e = exhausted)
      (createImageJobTx job now) db := by
  refine Tx.failsOnly_bind (Tx.failsOnly_get db) fun seen _ hget => ?_
  cases hget
  refine Tx.failsOnly_bind (Tx.failsOnly_lift ?_ _) fun found db' hfound => ?_
  · intro e he
    exact Or.inl (existingImageJob_error hkey he)
  · obtain ⟨hlook, rfl⟩ := lift_ok.mp hfound
    cases found with
    | some id => exact Tx.failsOnly_pure _ _
    | none =>
      refine Tx.failsOnly_bind (Tx.failsOnly_lift ?_ _) fun name db' hname => ?_
      · intro e he
        rw [hjob.name] at he
        cases he
      obtain ⟨hstored, rfl⟩ := lift_ok.mp hname
      obtain rfl : job.name.asStr = name := Except.ok.inj (hjob.name.symm.trans hstored)
      refine Tx.failsOnly_bind ?_ fun id db' hinsert => ?_
      · have hfree := keyFree_of_none hlook job.name.asStr now db.jobs.next
        exact (insertJob_exhausts (hjob.checks _ _) hfree).mono fun e he => Or.inr he
      · refine Tx.failsOnly_bind ?_ fun _ _ _ => Tx.failsOnly_pure _ _
        refine (insertInputArtifacts_exhausts hjob.inputs ?_).mono fun e he => Or.inr he
        obtain ⟨rfl, -, -, -, rfl⟩ := insertJob_ok.mp hinsert
        intro a ha hid
        have howner := hrooted.artifacts a ha
        rw [hid, Db.jobOwner, Table.get?_next] at howner
        cases howner

end Inserts

/-! ### Texts of the form -/

theorem storableText_iff {s : String} : storableText s = true ↔ '\x00' ∉ s.toList := by
  simp [storableText]

/-- A file name of which more than ASCII spaces is left, or nothing at all. -/
def PrintableName (rawName : String) : Prop :=
  cleanedName rawName = [] ∨ ∃ c ∈ cleanedName rawName, c ≠ ' '

instance (rawName : String) : Decidable (PrintableName rawName) := by
  unfold PrintableName
  infer_instance

section Texts

variable {rawName : String} {n : ℕ}

theorem storableText_cleaned (rawName : String) :
    storableText (String.ofList (cleanedName rawName)) = true := by
  rw [storableText_iff, String.toList_ofList]
  intro hnul
  have hkept := (List.mem_filter.mp (List.mem_of_mem_take hnul)).2
  exact absurd hkept (by decide)

/-- The name that stands in for an empty one. -/
theorem standInName_fits (h : n < maxFilesPerJob) :
    storableText ("image-" ++ toString (n + 1)) = true ∧
      ("image-" ++ toString (n + 1)).length ≤ 255 ∧
      btrimLengthBetween 255 ("image-" ++ toString (n + 1)) = true := by
  have hall : ∀ n < maxFilesPerJob, storableText ("image-" ++ toString (n + 1)) = true ∧
      ("image-" ++ toString (n + 1)).length ≤ 255 ∧
      btrimLengthBetween 255 ("image-" ++ toString (n + 1)) = true := by decide +kernel
  exact hall n h

theorem safeDisplayName_param (h : n < maxFilesPerJob) :
    varcharParam 255 (safeDisplayName rawName n) = .ok (safeDisplayName rawName n) := by
  obtain ⟨htext, hshort, -⟩ := standInName_fits h
  rw [varcharParam_ok]
  unfold safeDisplayName
  split
  · exact ⟨htext, storeVarchar_of_length_le hshort⟩
  · refine ⟨storableText_cleaned rawName, storeVarchar_of_length_le ?_⟩
    rw [String.length_ofList]
    exact List.length_take_le _ _

/-- The schema takes the display names of printable file names only. -/
theorem safeDisplayName_btrim (h : n < maxFilesPerJob) :
    btrimLengthBetween 255 (safeDisplayName rawName n) = true ↔ PrintableName rawName := by
  unfold safeDisplayName PrintableName
  split
  · rename_i hempty
    exact iff_of_true (standInName_fits h).2.2 (Or.inl hempty)
  · rename_i hsome
    have hshort : (String.ofList (cleanedName rawName)).length ≤ 255 := by
      rw [String.length_ofList]
      exact List.length_take_le _ _
    rw [btrimLengthBetween_iff hshort, String.toList_ofList, or_iff_right hsome]

theorem fileKey_storable (ids : FreshIds) (n : ℕ) : storableText (ids.fileKey n) = true := by
  have huuid : ∀ u : Uuid, '\x00' ∉ (uuidText u).toList := by
    intro u hnul
    exact absurd (mem_uuidText hnul) (by decide)
  rw [storableText_iff]
  intro hnul
  simp only [FreshIds.fileKey, FreshIds.uploadBatch, String.toList_append, List.mem_append] at hnul
  rcases hnul with ((hnul | hnul) | hnul) | hnul
  · exact absurd hnul (by decide)
  · exact huuid _ hnul
  · exact absurd hnul (by decide)
  · exact huuid _ hnul

/-- A header holds visible characters. -/
theorem headerText_storable (value : List UInt8) :
    storableText (trim (headerText value)) = true := by
  rw [storableText_iff, trim, String.toList_ofList]
  intro hnul
  have hmem := (trimBy_sublist _ _).subset hnul
  unfold headerText at hmem
  split at hmem
  · rename_i hvisible
    rw [String.toList_ofList] at hmem
    obtain ⟨b, hb, hchar⟩ := List.mem_map.mp hmem
    have hrange := List.all_eq_true.mp hvisible b hb
    simp only [Bool.or_eq_true, beq_iff_eq, Bool.and_eq_true, decide_eq_true_eq,
      UInt8.le_iff_toNat_le] at hrange
    have hcodes : ∀ n < 256, n = 9 ∨ 32 ≤ n → Char.ofNat n ≠ '\x00' := by decide +kernel
    refine hcodes b.toNat b.toNat_lt ?_ hchar
    rcases hrange with rfl | ⟨hlow, -⟩
    · exact Or.inl rfl
    · exact Or.inr hlow
  · exact absurd hmem (by decide)

theorem parseIdempotencyKey_storable {header : Option (List UInt8)} {key : String}
    (h : parseIdempotencyKey header = .ok (some key)) : storableText key = true := by
  cases header with
  | none => cases h
  | some value =>
    unfold parseIdempotencyKey at h
    dsimp only at h
    split at h
    · cases h
    · cases h
      exact headerText_storable value

end Texts

/-! ### Accepted requests -/

/-- The form has no name with U+0000, and only printable file names. -/
structure Multipart.Storable (multipart : Multipart) : Prop where
  name : ∀ f ∈ multipart.fields, f.key = "name" → ∀ text, f.text = some text →
    storableText text = true
  fileNames : ∀ f ∈ multipart.fields, f.key = "images" → ∀ rawName, f.fileName = some rawName →
    PrintableName rawName

section Accepted

variable {app : AppState} {ids : FreshIds} {s : Staging} {seen : List UploadField}
  {request : StagedImageFields} {input : NewInputArtifact} {field : UploadField} {n : ℕ}

theorem forall₂_of_zipIdx {α β : Type} {R : α × ℕ → β → Prop} {xs : List α} {ys : List β} {k : ℕ}
    (h : List.Forall₂ R (xs.zipIdx k) ys) :
    List.Forall₂ (fun x p => R (x, p.2) p.1) xs (ys.zipIdx k) := by
  induction xs generalizing ys k with
  | nil =>
    cases h
    exact .nil
  | cons x xs ih =>
    rw [List.zipIdx_cons] at h
    cases h with
    | cons hfirst hrest => exact .cons hfirst (ih hrest)

/-- Each input has its field. -/
theorem Staging.Reads.field_of_input (h : s.Reads app ids seen)
    (hinput : (input, n) ∈ s.inputs.zipIdx) :
    ∃ f ∈ seen, f.key = "images" ∧ NewInputArtifact.From ids f n input := by
  obtain ⟨f, hf, hfrom⟩ := forall₂_mem_right (forall₂_of_zipIdx h.inputs) hinput
  obtain ⟨hseen, hkey⟩ := List.mem_filter.mp hf
  exact ⟨f, hseen, beq_iff_eq.mp hkey, hfrom⟩

/-- Each image field has its input. -/
theorem Staging.Reads.input_of_field (h : s.Reads app ids seen) (hfield : field ∈ seen)
    (hkey : field.key = "images") :
    ∃ p ∈ s.inputs.zipIdx, NewInputArtifact.From ids field p.2 p.1 :=
  forall₂_mem_right (forall₂_of_zipIdx h.inputs).flip
    (List.mem_filter.mpr ⟨hfield, beq_iff_eq.mpr hkey⟩)

theorem Staging.Reads.index_lt (h : s.Reads app ids seen) (hinput : (input, n) ∈ s.inputs.zipIdx) :
    n < maxFilesPerJob := by
  have hlt := (List.mem_zipIdx hinput).2.1
  have hcount := h.count
  omega

/-- The row of an accepted image conforms exactly if its file name is printable. -/
theorem NewInputArtifact.From.conforms_iff (h : input.From ids field n) (hn : n < maxFilesPerJob)
    {rawName : String} (hname : field.fileName = some rawName) :
    input.Conforms n ↔ PrintableName rawName := by
  obtain ⟨rawName', hraw, hdisplay⟩ := h.fileName
  obtain rfl : rawName' = rawName := Option.some.inj (hraw.symm.trans hname)
  rw [← safeDisplayName_btrim hn, ← hdisplay]
  constructor
  · intro hconforms
    exact (ArtifactRow.checks_iff.mp (hconforms.checks 0 0 0)).2.1
  · intro hnonblank
    have hmedia := h.metadata.mediaType
    have hsmall : maxImageDimension ≤ i32Max ∧ maxFileBytes ≤ i64Max := by decide
    refine ⟨?_, ?_, ?_, h.byteSize.2.trans hsmall.2, h.metadata.width.2.trans hsmall.1,
      h.metadata.height.2.trans hsmall.1, fun jobId now id => ?_⟩
    · rw [h.storageKey]
      exact fileKey_storable ids n
    · rw [hdisplay]
      exact safeDisplayName_param hn
    · rcases hmedia with hmedia | hmedia <;> simp only at hmedia <;> rw [hmedia] <;> decide
    · refine ArtifactRow.checks_iff.mpr ⟨Nat.le_of_lt_succ hn, hnonblank, ?_, h.byteSize.1,
        ⟨h.metadata.width.1, h.metadata.height.1⟩, ⟨rfl, rfl⟩, ?_⟩
      · simpa [imageMediaType, NewInputArtifact.row] using hmedia
      · simp [checksumValid, NewInputArtifact.row, h.checksum]

/-- A name has at most 100 characters and is not blank; only U+0000 remains to be refused. -/
theorem Staging.Reads.name_storable (h : s.Reads app ids seen)
    (hname : s.name = some request.name.asStr) :
    varcharParam 100 request.name.asStr = .ok request.name.asStr ↔
      ∀ f ∈ seen, f.key = "name" → ∀ text, f.text = some text → storableText text = true := by
  have hslot := h.name
  rw [hname] at hslot
  have hshort : storeVarchar 100 request.name.asStr = some request.name.asStr :=
    storeVarchar_of_length_le request.name.short
  rw [varcharParam_ok, and_iff_left hshort]
  constructor
  · intro hstorable f hf hkey text htext
    obtain ⟨text', htext', hvalue⟩ := hslot.value_of hf hkey
    cases hvalue
    obtain rfl := Option.some.inj (htext.symm.trans htext')
    exact hstorable
  · intro hall
    obtain ⟨f, hf, hkey, text, htext, hvalue⟩ := hslot.exists_field
    cases hvalue
    exact hall f hf hkey _ htext

theorem Staging.Reads.settings (h : s.Reads app ids seen) :
    (1 ≤ s.maxWidth.getD defaultOutputWidth ∧ s.maxWidth.getD defaultOutputWidth ≤ 8192) ∧
      1 ≤ s.jpegQuality.getD defaultJpegQuality ∧ s.jpegQuality.getD defaultJpegQuality ≤ 100 := by
  constructor
  · cases hwidth : s.maxWidth with
    | none => decide
    | some width =>
      have hslot := h.maxWidth
      rw [hwidth] at hslot
      obtain ⟨-, -, -, text, -, hparse⟩ := hslot.exists_field
      exact parseBounded_ok hparse
  · cases hquality : s.jpegQuality with
    | none => decide
    | some quality =>
      have hslot := h.jpegQuality
      rw [hquality] at hslot
      obtain ⟨-, -, -, text, -, hparse⟩ := hslot.exists_field
      exact parseBounded_ok hparse

/-- The request that the handler of `POST jobs` sends to the repository. -/
def StagedImageFields.submitted (app : AppState) (request : StagedImageFields) (owner : ℕ)
    (key : Option String) : NewImageJob :=
  request.imageJob owner (key.map fun key => ⟨key, requestFingerprint app request⟩)

/-- Every character takes a byte at least. -/
theorem length_le_utf8ByteSize (s : String) : s.length ≤ s.utf8ByteSize := by
  have hall : ∀ cs : List Char, cs.length ≤ (String.ofList cs).utf8ByteSize := by
    intro cs
    induction cs with
    | nil => exact Nat.zero_le _
    | cons c cs ih =>
      have hsplit : String.ofList (c :: cs) = String.singleton c ++ String.ofList cs := by
        apply String.toList_inj.mp
        simp
      have hpos := c.utf8Size_pos
      rw [hsplit, String.utf8ByteSize_append, String.utf8ByteSize_singleton, List.length_cons]
      omega
  have h := hall s.toList
  rwa [String.ofList_toList, String.length_toList] at h

theorem parseIdempotencyKey_length {header : Option (List UInt8)} {key : String}
    (h : parseIdempotencyKey header = .ok (some key)) : 1 ≤ key.length ∧ key.length ≤ 128 := by
  cases header with
  | none => cases h
  | some value =>
    unfold parseIdempotencyKey at h
    dsimp only at h
    split at h
    · cases h
    · rename_i hkey
      rw [not_or, not_lt] at hkey
      cases h
      refine ⟨Nat.one_le_iff_ne_zero.mpr fun hzero => hkey.1 ?_, ?_⟩
      · exact String.length_eq_zero_iff.mp hzero
      · exact (length_le_utf8ByteSize _).trans hkey.2

/-- The job row of an accepted request meets every constraint. -/
theorem submitted_checks {multipart : Multipart} {header : Option (List UInt8)}
    {key : Option String} (h : s.Reads app ids multipart.fields) (hmade : request.Made app s)
    (hkey : parseIdempotencyKey header = .ok key) (owner : ℕ) (now : ℤ) (id : ℕ) :
    holdsAll ((request.submitted app owner key).row request.name.asStr now id).checks = true := by
  have hcount : 1 ≤ request.inputs.length ∧ request.inputs.length ≤ 10 := by
    rw [hmade.inputs]
    exact ⟨List.length_pos_iff.mpr hmade.nonempty, h.count⟩
  have hsettings := h.settings
  rw [← hmade.maxWidth, ← hmade.jpegQuality] at hsettings
  have hdefaults : (1 ≤ 500 ∧ 500 ≤ 30000) ∧ 1 ≤ 3 ∧ 3 ≤ 10 := by decide
  refine JobRow.checks_iff.mpr ⟨request.name.btrim, ⟨hcount.1, Nat.zero_le _⟩, hdefaults.1, ?_,
    Or.inr hcount, hdefaults.2, by simp [NewImageJob.row, JobRow.defaults], rfl, ?_⟩
  · simpa [NewImageJob.row, StagedImageFields.submitted, StagedImageFields.imageJob] using hsettings
  · cases key with
    | none => rfl
    | some key =>
      have hlength := parseIdempotencyKey_length hkey
      simpa [NewImageJob.row, StagedImageFields.submitted, StagedImageFields.imageJob,
        requestFingerprint] using hlength

theorem submitted_conforms {multipart : Multipart} {header : Option (List UInt8)}
    {key : Option String} (h : s.Reads app ids multipart.fields) (hmade : request.Made app s)
    (hkey : parseIdempotencyKey header = .ok key) (owner : ℕ) :
    (request.submitted app owner key).Conforms ↔ multipart.Storable := by
  have hname := h.name_storable hmade.name
  constructor
  · intro hconforms
    refine ⟨hname.mp hconforms.name, fun f hf hfield rawName hraw => ?_⟩
    obtain ⟨⟨input, n⟩, hinput, hfrom⟩ := h.input_of_field hf hfield
    have hrow : input.Conforms n := by
      rw [← hmade.inputs] at hinput
      exact hconforms.inputs (input, n) hinput
    exact (hfrom.conforms_iff (h.index_lt hinput) hraw).mp hrow
  · intro hstorable
    refine ⟨hname.mpr hstorable.name, submitted_checks h hmade hkey owner, ?_⟩
    rintro ⟨input, n⟩ hinput
    have hstaged : (input, n) ∈ s.inputs.zipIdx := by
      rw [← hmade.inputs]
      exact hinput
    obtain ⟨f, hf, hfield, hfrom⟩ := h.field_of_input hstaged
    obtain ⟨rawName, hraw, -⟩ := hfrom.fileName
    exact (hfrom.conforms_iff (h.index_lt hstaged) hraw).mpr
      (hstorable.fileNames f hf hfield rawName hraw)

end Accepted

/-! ### The call -/

section Call

variable {s : System} {job : NewImageJob} {message : String}

theorem NewImageJob.validate_error {e : RepositoryError} (h : job.validate = .error e) :
    ∃ message, e = .invalidData message := by
  unfold NewImageJob.validate at h
  rcases except_unless_error h with ⟨-, rfl⟩ | ⟨-, h⟩
  · exact ⟨_, rfl⟩
  · rcases except_unless_error h with ⟨-, rfl⟩ | ⟨-, h⟩
    · exact ⟨_, rfl⟩
    · dsimp only at h
      split at h
      · cases h
      · unfold IdempotencyRequest.validate at h
        split at h
        · cases h
          exact ⟨_, rfl⟩
        · cases h

/-- Where the rows conform, the database refuses the call only for want of an identity. -/
theorem createImageJob_exhausts (hs : s.Reachable) (hjob : job.Conforms)
    (hkey : ∀ i, job.idempotency = some i → storableText i.key = true)
    (h : (createImageJob job s.now s.db).1 = .error (.database message)) :
    RepositoryError.database message = exhausted := by
  have hinv := hs.inv.db
  have hrooted : s.db.Rooted := hinv.rooted hs.scheduled
  unfold createImageJob at h
  rw [Session.bind_run, Session.liftExcept_run] at h
  cases hvalid : job.validate with
  | error e =>
    obtain ⟨reason, rfl⟩ := NewImageJob.validate_error hvalid
    rw [hvalid] at h
    cases h
  | ok u =>
    rw [hvalid] at h
    dsimp only at h
    rw [Session.bind_run] at h
    rcases commit_cases (createImageJobTx job s.now) s.db with ⟨c, db', htx, hc⟩ | ⟨e, htx, hc⟩
    · rw [hc] at h
      have hinv' := (createImageJobTx_evolves htx).inv hinv
      rcases createImageJobTx_ok htx with ⟨id, hfound, rfl, rfl⟩ |
        ⟨-, id, db₁, rows, hinsert, happended, -, rfl⟩
      · obtain ⟨r, hr, howner, rfl⟩ := existingImageJob_some hfound
        have howned : ownedBy (some job.ownerUserId) r = true := by simp [ownedBy, howner]
        obtain ⟨record, hrecord, -⟩ := readBack_ok hinv' hr howned "read idempotent image job"
        simp only [query_run, hrecord] at h
        cases h
      · have hget := insertJob_get? hinsert happended
        have hanyone : ownedBy none (job.row job.name.asStr s.now id) = true := rfl
        obtain ⟨record, hrecord, -⟩ :=
          readBack_ok hinv' (Table.mem_of_get? hget) hanyone "read created image job"
        obtain ⟨rfl, -⟩ := insertJob_ok.mp hinsert
        have hrun : readBack s.db.jobs.next none "read created image job" db' = .ok record :=
          hrecord
        simp only [query_run, hrun] at h
        cases h
    · rw [hc] at h
      cases h
      rcases createImageJobTx_exhausts hrooted hjob hkey _ htx with herror | herror
      · cases herror
      · exact herror

end Call

/-- What the form accepts the schema takes in, and the call is never refused over a constraint,
exactly if no name holds U+0000 and no file name is left with spaces only. -/
theorem accepted_uploads_conform {app : AppState} {ids : FreshIds} {multipart : Multipart}
    {target : UploadTarget} {usage : ℕ} {st st' : Storage} {request : StagedImageFields}
    (h : stageFields app ids.uploadBatch ids multipart target usage st = (.ok request, st')) :
    (∀ owner header key, parseIdempotencyKey header = .ok key →
      (request.submitted app owner key).Conforms ∧ ∀ s : System, s.Reachable → ∀ message,
        (createImageJob (request.submitted app owner key) s.now s.db).1 =
          .error (.database message) → RepositoryError.database message = exhausted) ↔
      multipart.Storable := by
  obtain ⟨staging, hreads, hmade, -⟩ := stageFields_ok h
  constructor
  · intro hall
    have hnone : parseIdempotencyKey none = .ok none := rfl
    exact (submitted_conforms hreads hmade hnone 0).mp (hall 0 none none hnone).1
  · intro hstorable owner header key hkey
    have hconforms := (submitted_conforms hreads hmade hkey owner).mpr hstorable
    refine ⟨hconforms, fun s hs message hrefused => ?_⟩
    refine createImageJob_exhausts hs hconforms (fun i hi => ?_) hrefused
    cases key with
    | none => cases hi
    | some key =>
      cases hi
      exact parseIdempotencyKey_storable hkey

/-! The sample upload, one with U+0000 in its name, and one whose file name is a space between two
control characters. -/

def sampleNulName : Multipart :=
  ⟨[⟨some "name", none, [textBytes "night\x00ly"], true⟩,
    ⟨some "images", some "photo.png", [samplePng], true⟩], true⟩

def sampleSpaceName : Multipart :=
  ⟨[⟨some "name", none, [textBytes "nightly"], true⟩,
    ⟨some "images", some "\u0080 \u0080", [samplePng], true⟩], true⟩

/-- The upload is accepted, and the call on a new database is refused with this error. -/
def refusedAfter (multipart : Multipart) (refusal : RepositoryError) : Bool :=
  (stageFields sampleApp sampleIds.uploadBatch sampleIds multipart .job 0
    sampleStorage).1.toOption.any fun request => decide
      ((createImageJob (request.submitted sampleApp 1 none) 0 Db.empty).1.map JobRecord.id =
        .error refusal)

theorem exists_refused {multipart : Multipart} {refusal : RepositoryError}
    (h : refusedAfter multipart refusal = true) : ∃ request st',
    stageFields sampleApp sampleIds.uploadBatch sampleIds multipart .job 0 sampleStorage =
      (.ok request, st') ∧
    (createImageJob (request.submitted sampleApp 1 none) 0 Db.empty).1 = .error refusal := by
  obtain ⟨request, hstaged, hrefused⟩ := except_any_eq_true.mp h
  exact ⟨request, _, Prod.ext hstaged rfl, except_map_error (of_decide_eq_true hrefused)⟩

/-- A form without a text that cannot be stored and with printable file names. -/
def storable (multipart : Multipart) : Bool :=
  multipart.fields.all fun f => f.text.all storableText &&
    f.fileName.all fun rawName => decide (PrintableName rawName)

theorem storable_of_all {multipart : Multipart} (h : storable multipart = true) :
    multipart.Storable := by
  have hfield : ∀ f ∈ multipart.fields, f.text.all storableText = true ∧
      (f.fileName.all fun rawName => decide (PrintableName rawName)) = true := by
    intro f hf
    exact Bool.and_eq_true_iff.mp (List.all_eq_true.mp h f hf)
  constructor
  · intro f hf _ text htext
    simpa [htext] using (hfield f hf).1
  · intro f hf _ rawName hname
    simpa [hname] using (hfield f hf).2

theorem accepted_uploads_conform_sample : ∃ request st',
    stageFields sampleApp sampleIds.uploadBatch sampleIds sampleUpload .job 0 sampleStorage =
      (.ok request, st') ∧
    ∀ owner header key, parseIdempotencyKey header = .ok key →
      (request.submitted sampleApp owner key).Conforms ∧ ∀ s : System, s.Reachable → ∀ message,
        (createImageJob (request.submitted sampleApp owner key) s.now s.db).1 =
          .error (.database message) → RepositoryError.database message = exhausted := by
  have haccepted : (stageFields sampleApp sampleIds.uploadBatch sampleIds sampleUpload .job 0
      sampleStorage).1.toOption.any (fun _ => true) = true := by decide +kernel
  obtain ⟨request, hstaged, -⟩ := except_any_eq_true.mp haccepted
  refine ⟨request, _, Prod.ext hstaged rfl, ?_⟩
  exact (accepted_uploads_conform (Prod.ext hstaged rfl)).mpr
    (storable_of_all (by decide +kernel))

/-- Both are accepted, and both are refused by the database. -/
theorem unprintable_uploads_refused :
    (∃ request st', stageFields sampleApp sampleIds.uploadBatch sampleIds sampleNulName .job 0
        sampleStorage = (.ok request, st') ∧
      (createImageJob (request.submitted sampleApp 1 none) 0 Db.empty).1 =
        .error (.database "invalid byte sequence for encoding UTF8: 0x00")) ∧
    ∃ request st', stageFields sampleApp sampleIds.uploadBatch sampleIds sampleSpaceName .job 0
        sampleStorage = (.ok request, st') ∧
      (createImageJob (request.submitted sampleApp 1 none) 0 Db.empty).1 =
        .error (.database "artifacts_name_valid") :=
  ⟨exists_refused (by decide +kernel), exists_refused (by decide +kernel)⟩

end TaskHarbor
