import TaskHarbor.Api.Upload
import TaskHarbor.Database.Statements
import TaskHarbor.Library.Framing

/-! `request_fingerprint`: the bytes that are hashed determine the request up to its storage keys,
so that an idempotency key is replayed for the same request only. -/
namespace TaskHarbor

open Framing Transaction

/-- An input without the key under which it was stored. -/
def NewInputArtifact.withoutKey (input : NewInputArtifact) : NewInputArtifact :=
  { input with storageKey := "" }

/-- A value of the field types: fixed widths, and texts that fit the address space. -/
structure NewInputArtifact.Typed (input : NewInputArtifact) : Prop where
  displayName : (textBytes input.displayName).length ≤ u64Max
  mediaType : (textBytes input.mediaType).length ≤ u64Max
  byteSize : input.byteSize ≤ u64Max
  width : input.width ≤ u32Max
  height : input.height ≤ u32Max
  checksum : input.checksumSha256.length ≤ u64Max

structure StagedImageFields.Typed (request : StagedImageFields) : Prop where
  name : (textBytes request.name.asStr).length ≤ u64Max
  maxWidth : request.maxWidth ≤ u32Max
  jpegQuality : request.jpegQuality ≤ u8Max
  availableAt : ∀ t ∈ request.availableAt, -2 ^ 127 ≤ t ∧ t < 2 ^ 127
  inputs : ∀ input ∈ request.inputs, input.Typed

/-- The requests agree on all that a job keeps of them; an instant has no offset. -/
structure StagedImageFields.Agrees (request other : StagedImageFields) : Prop where
  name : request.name.asStr = other.name.asStr
  maxWidth : request.maxWidth = other.maxWidth
  jpegQuality : request.jpegQuality = other.jpegQuality
  priority : request.priority = other.priority
  availableAt : request.availableAt = other.availableAt
  inputs : request.inputs.map NewInputArtifact.withoutKey =
    other.inputs.map NewInputArtifact.withoutKey

/-- The parts of `request_fingerprint`, before the inputs. -/
def StagedImageFields.fingerprintParts (request : StagedImageFields) : List (List UInt8) :=
  [textBytes request.name.asStr, bigEndian 4 request.maxWidth, bigEndian 1 request.jpegQuality,
    textBytes request.priority.asStr, (request.availableAt.map timestampBytes).getD []]

/-- The bytes that `request_fingerprint` feeds to SHA-256. -/
def StagedImageFields.fingerprintBytes (request : StagedImageFields) : List UInt8 :=
  (request.fingerprintParts ++
    request.inputs.flatMap NewInputArtifact.fingerprintParts).flatMap fingerprintPart

theorem requestFingerprint_eq (app : AppState) (request : StagedImageFields) :
    requestFingerprint app request = (app.sha256 request.fingerprintBytes).toList := rfl

/-! ### The parts -/

section Parts

variable {n v w : ℕ}

theorem bigEndian_length : (bigEndian n v).length = n := by
  rw [bigEndian, List.length_map, List.length_range]

theorem bigEndian_inj (hv : v < 256 ^ n) (hw : w < 256 ^ n) (h : bigEndian n v = bigEndian n w) :
    v = w := by
  apply eq_of_digits hv hw
  intro i hi
  have hbyte := List.map_inj_left.mp h (n - 1 - i) (List.mem_range.mpr (by omega))
  have hplace : n - 1 - (n - 1 - i) = i := by omega
  rw [hplace] at hbyte
  have hnat := congrArg UInt8.toNat hbyte
  simpa using hnat

theorem textBytes_inj {s t : String} (h : textBytes s = textBytes t) : s = t := by
  apply String.toByteArray_inj.mp
  apply ByteArray.ext
  exact Array.toList_inj.mp h

theorem timestampBytes_length (t : ℤ) : (timestampBytes t).length = 16 := bigEndian_length

theorem timestampBytes_inj {t t' : ℤ} (ht : -2 ^ 127 ≤ t ∧ t < 2 ^ 127)
    (ht' : -2 ^ 127 ≤ t' ∧ t' < 2 ^ 127) (h : timestampBytes t = timestampBytes t') : t = t' := by
  have hnat := bigEndian_inj (by omega) (by omega) h
  omega

theorem priority_asStr_inj {p p' : JobPriority} (h : p.asStr = p'.asStr) : p = p' := by
  cases p <;> cases p' <;> first | rfl | exact absurd h (by decide)

theorem availableAt_inj {t t' : Option ℤ} (ht : ∀ x ∈ t, -2 ^ 127 ≤ x ∧ x < 2 ^ 127)
    (ht' : ∀ x ∈ t', -2 ^ 127 ≤ x ∧ x < 2 ^ 127)
    (h : (t.map timestampBytes).getD [] = (t'.map timestampBytes).getD []) : t = t' := by
  have hlength := congrArg List.length h
  cases t with
  | none =>
    cases t' with
    | none => rfl
    | some y => simp [timestampBytes_length] at hlength
  | some x =>
    cases t' with
    | none => simp [timestampBytes_length] at hlength
    | some y => rw [timestampBytes_inj (ht x rfl) (ht' y rfl) h]

theorem fingerprintPart_selfDelimiting :
    SelfDelimiting (fun part : List UInt8 => part.length ≤ u64Max) fingerprintPart := by
  apply selfDelimiting_framed (fun _ => bigEndian_length)
  intro x y hx hy h
  rw [min_eq_left hx, min_eq_left hy] at h
  exact bigEndian_inj (lt_of_le_of_lt hx (by decide)) (lt_of_le_of_lt hy (by decide)) h

theorem fingerprintPart_ne_nil (part : List UInt8) : fingerprintPart part ≠ [] := by
  intro h
  have hlength := congrArg List.length h
  rw [fingerprintPart, List.length_append, bigEndian_length, List.length_nil] at hlength
  omega

/-- Six parts determine an input up to its key. -/
theorem fingerprintParts_selfDelimiting :
    SelfDelimiting (fun input : NewInputArtifact => input.Typed ∧ input.storageKey = "")
      NewInputArtifact.fingerprintParts := by
  apply selfDelimiting_fixed (n := 6) (fun _ => rfl)
  rintro x y ⟨hx, hxkey⟩ ⟨hy, hykey⟩ h
  simp only [NewInputArtifact.fingerprintParts, List.cons.injEq, and_true] at h
  obtain ⟨hname, hmedia, hsize, hwidth, hheight, hchecksum⟩ := h
  have hsize := bigEndian_inj (lt_of_le_of_lt hx.byteSize (by decide))
    (lt_of_le_of_lt hy.byteSize (by decide)) hsize
  have hwidth := bigEndian_inj (lt_of_le_of_lt hx.width (by decide))
    (lt_of_le_of_lt hy.width (by decide)) hwidth
  have hheight := bigEndian_inj (lt_of_le_of_lt hx.height (by decide))
    (lt_of_le_of_lt hy.height (by decide)) hheight
  cases x
  cases y
  simp only [NewInputArtifact.mk.injEq]
  exact ⟨hxkey.trans hykey.symm, textBytes_inj hname, textBytes_inj hmedia, hsize, hwidth, hheight,
    hchecksum⟩

end Parts

/-! ### Injectivity -/

section Requests

variable {request other : StagedImageFields}

theorem fingerprintParts_length (input : NewInputArtifact) (h : input.Typed) :
    ∀ part ∈ input.fingerprintParts, part.length ≤ u64Max := by
  simp only [NewInputArtifact.fingerprintParts, List.forall_mem_cons, bigEndian_length]
  exact ⟨h.displayName, h.mediaType, by decide, by decide, by decide, h.checksum,
    fun _ hnil => absurd hnil List.not_mem_nil⟩

theorem StagedImageFields.Typed.parts (h : request.Typed) :
    ∀ part ∈ request.fingerprintParts ++
      request.inputs.flatMap NewInputArtifact.fingerprintParts, part.length ≤ u64Max := by
  have hpriority : (textBytes request.priority.asStr).length ≤ u64Max := by
    cases request.priority <;> decide
  have hinstant : ((request.availableAt.map timestampBytes).getD []).length ≤ u64Max := by
    cases request.availableAt with
    | none => exact Nat.zero_le _
    | some t =>
      rw [Option.map_some, Option.getD_some, timestampBytes_length]
      decide
  have hhead : ∀ part ∈ request.fingerprintParts, part.length ≤ u64Max := by
    simp only [fingerprintParts, List.forall_mem_cons, bigEndian_length]
    exact ⟨h.name, by decide, by decide, hpriority, hinstant,
      fun _ hnil => absurd hnil List.not_mem_nil⟩
  intro part hpart
  rcases List.mem_append.mp hpart with hpart | hpart
  · exact hhead part hpart
  · obtain ⟨input, hinput, hpart⟩ := List.mem_flatMap.mp hpart
    exact fingerprintParts_length input (h.inputs input hinput) part hpart

theorem inputs_parts (inputs : List NewInputArtifact) :
    inputs.flatMap NewInputArtifact.fingerprintParts =
      (inputs.map NewInputArtifact.withoutKey).flatMap NewInputArtifact.fingerprintParts := by
  rw [List.flatMap_map]
  rfl

theorem withoutKey_typed (h : request.Typed) :
    ∀ input ∈ request.inputs.map NewInputArtifact.withoutKey,
      input.Typed ∧ input.storageKey = "" := by
  intro input hinput
  obtain ⟨original, horiginal, rfl⟩ := List.mem_map.mp hinput
  have ht := h.inputs original horiginal
  exact ⟨⟨ht.displayName, ht.mediaType, ht.byteSize, ht.width, ht.height, ht.checksum⟩, rfl⟩

theorem StagedImageFields.Agrees.fingerprintBytes_eq (h : request.Agrees other) :
    request.fingerprintBytes = other.fingerprintBytes := by
  have hparts : request.fingerprintParts = other.fingerprintParts := by
    simp only [fingerprintParts, h.name, h.maxWidth, h.jpegQuality, h.priority, h.availableAt]
  simp only [fingerprintBytes, hparts, inputs_parts request.inputs, inputs_parts other.inputs,
    h.inputs]

/-- Equal bytes come from requests that agree. -/
theorem agrees_of_fingerprintBytes (h : request.Typed) (hother : other.Typed)
    (heq : request.fingerprintBytes = other.fingerprintBytes) : request.Agrees other := by
  have hlist := fingerprintPart_selfDelimiting.flatMap_inj fingerprintPart_ne_nil h.parts
    hother.parts heq
  obtain ⟨hparts, hinputs⟩ := List.append_inj hlist rfl
  rw [inputs_parts, inputs_parts other.inputs] at hinputs
  simp only [StagedImageFields.fingerprintParts, List.cons.injEq, and_true] at hparts
  obtain ⟨hname, hwidth, hquality, hpriority, hinstant⟩ := hparts
  exact {
    name := textBytes_inj hname
    maxWidth := bigEndian_inj (lt_of_le_of_lt h.maxWidth (by decide))
      (lt_of_le_of_lt hother.maxWidth (by decide)) hwidth
    jpegQuality := bigEndian_inj (lt_of_le_of_lt h.jpegQuality (by decide))
      (lt_of_le_of_lt hother.jpegQuality (by decide)) hquality
    priority := priority_asStr_inj (textBytes_inj hpriority)
    availableAt := availableAt_inj h.availableAt hother.availableAt hinstant
    inputs := fingerprintParts_selfDelimiting.flatMap_inj (fun _ => List.cons_ne_nil _ _)
      (withoutKey_typed h) (withoutKey_typed hother) hinputs }

/-- The digest collides on two requests only if their bytes are equal. -/
def AppState.Separates (app : AppState) (request other : StagedImageFields) : Prop :=
  app.sha256 request.fingerprintBytes = app.sha256 other.fingerprintBytes →
    request.fingerprintBytes = other.fingerprintBytes

theorem requestFingerprint_eq_iff {app : AppState} (h : request.Typed) (hother : other.Typed)
    (hsha : app.Separates request other) :
    requestFingerprint app request = requestFingerprint app other ↔ request.Agrees other := by
  rw [requestFingerprint_eq, requestFingerprint_eq, Vector.toList_inj]
  constructor
  · intro heq
    exact agrees_of_fingerprintBytes h hother (hsha heq)
  · intro hagrees
    rw [hagrees.fingerprintBytes_eq]

/-- A creation under a taken key finds the job or is refused. -/
theorem createImageJobTx_taken {job : NewImageJob} {i : IdempotencyRequest} {row : JobRow} {now : ℤ}
    {db : Db} (hkey : job.idempotency = some i) (htext : storableText i.key = true)
    (hrow : idempotentRow db job.ownerUserId i.key = some row) :
    createImageJobTx job now db = if row.requestFingerprint = some i.fingerprint then
      .ok (.existing row.id, db) else .error .idempotencyConflict := by
  have hparam : textParam i.key = .ok i.key := textParam_ok.mpr ⟨htext, rfl⟩
  have hexisting : existingImageJob job db = (replay row i).map some := by
    unfold existingImageJob
    simp only [hkey, hparam, except_ok_bind, hrow]
    cases replay row i <;> rfl
  unfold createImageJobTx
  rw [Tx.bind_run, Tx.get_run]
  simp only [Tx.bind_run, Tx.liftExcept_run, hexisting, replay]
  split_ifs <;> rfl

/-- The fingerprint encodes the request injectively: equal bytes are those of requests that agree on
everything but their storage keys, and so a key that a request took is replayed for those only. -/
theorem request_fingerprint_injective (h : request.Typed) (hother : other.Typed) :
    (request.fingerprintBytes = other.fingerprintBytes ↔ request.Agrees other) ∧
    ∀ (app : AppState), app.Separates request other →
      ∀ (owner : ℕ) (key : String) (db : Db) (row : JobRow) (now : ℤ),
        storableText key = true → idempotentRow db owner key = some row →
        row.requestFingerprint = some (requestFingerprint app other) →
        (createImageJobTx (request.imageJob owner (some ⟨key, requestFingerprint app request⟩))
            now db = .ok (.existing row.id, db) ↔ request.Agrees other) ∧
        (createImageJobTx (request.imageJob owner (some ⟨key, requestFingerprint app request⟩))
            now db = .error .idempotencyConflict ↔ ¬request.Agrees other) := by
  refine ⟨⟨agrees_of_fingerprintBytes h hother, fun hagrees => hagrees.fingerprintBytes_eq⟩,
    fun app hsha owner key db row now htext hrow hstored => ?_⟩
  have hkey : (request.imageJob owner
      (some ⟨key, requestFingerprint app request⟩)).idempotency =
      some ⟨key, requestFingerprint app request⟩ := rfl
  have hrun : createImageJobTx
      (request.imageJob owner (some ⟨key, requestFingerprint app request⟩)) now db = _ :=
    createImageJobTx_taken hkey htext hrow
  have hsame : row.requestFingerprint = some (requestFingerprint app request) ↔
      request.Agrees other := by
    rw [hstored, Option.some_inj, eq_comm]
    exact requestFingerprint_eq_iff h hother hsha
  rw [hrun]
  by_cases hagrees : request.Agrees other
  · rw [if_pos (hsame.mpr hagrees)]
    simp [hagrees]
  · rw [if_neg fun hfound => hagrees (hsame.mp hfound)]
    simp [hagrees]

end Requests

def sampleStaged : StagedImageFields where
  name := ⟨"nightly", by decide, by decide⟩
  maxWidth := 1600
  jpegQuality := 85
  availableAt := none
  priority := .normal
  intervalSeconds := none
  anchorAt := none
  inputs := [⟨"inputs/a/b", "photo.png", "image/png", 3, 2, 3,
    [68, 155, 161, 127, 42, 68, 152, 154, 88, 5, 2, 130, 248, 47, 236, 134, 99, 184, 79, 87, 166,
      164, 67, 211, 117, 0, 51, 160, 192, 47, 139, 233]⟩]

/-- The same upload for another time. -/
def sampleDelayed : StagedImageFields := { sampleStaged with availableAt := some 0 }

/-- An application with the SHA-256 digests of the two samples. -/
def sampleHashing : AppState where
  storageBudgetBytes := 1000
  maxActiveJobs := 5
  disk := ⟨fun _ => none, fun _ => 0⟩
  images := ⟨fun _ => none, fun _ _ => .ok (2, 3), fun _ => .ok false, fun _ => none⟩
  parseRfc3339 := fun _ => none
  sha256 := fun bytes => if bytes = sampleStaged.fingerprintBytes then
      #v[163, 71, 237, 112, 159, 190, 111, 185, 78, 102, 82, 242, 43, 85, 115, 166, 62, 184, 207,
        109, 117, 190, 13, 219, 118, 100, 109, 89, 157, 135, 80, 236]
    else
      #v[236, 70, 144, 57, 108, 212, 117, 147, 21, 102, 54, 175, 184, 88, 128, 66, 146, 111, 217,
        75, 179, 22, 70, 201, 1, 2, 152, 212, 59, 191, 219, 137]

theorem sampleStaged_typed : sampleStaged.Typed := by
  refine ⟨by decide, by decide, by decide, fun t ht => (Option.not_mem_none t ht).elim, ?_⟩
  simp only [sampleStaged, List.forall_mem_cons]
  exact ⟨⟨by decide, by decide, by decide, by decide, by decide, by decide⟩,
    fun _ hnil => absurd hnil List.not_mem_nil⟩

theorem sampleDelayed_typed : sampleDelayed.Typed where
  name := sampleStaged_typed.name
  maxWidth := sampleStaged_typed.maxWidth
  jpegQuality := sampleStaged_typed.jpegQuality
  availableAt := by
    intro t ht
    obtain rfl : 0 = t := Option.some.inj ht
    decide
  inputs := sampleStaged_typed.inputs

/-- The first sample took the key; the second is refused under it. -/
theorem request_fingerprint_injective_sample : ∃ db : Db,
    (idempotentRow db 1 "key").isSome = true ∧
    createImageJobTx (sampleDelayed.imageJob 1
      (some ⟨"key", requestFingerprint sampleHashing sampleDelayed⟩)) 0 db =
      .error .idempotencyConflict := by
  have hcreated : (createImageJobTx (sampleStaged.imageJob 1
      (some ⟨"key", requestFingerprint sampleHashing sampleStaged⟩)) 0 Db.empty).toOption.any
      (fun r => (idempotentRow r.2 1 "key").any fun row => row.requestFingerprint ==
        some (requestFingerprint sampleHashing sampleStaged)) = true := by
    decide +kernel
  obtain ⟨r, -, hrow⟩ := (Option.any_eq_true _ _).mp hcreated
  obtain ⟨row, hrow, hstored⟩ := (Option.any_eq_true _ _).mp hrow
  have hseparates : sampleHashing.Separates sampleDelayed sampleStaged := by
    intro h
    exact absurd h (by decide +kernel)
  have hdiffer : ¬sampleDelayed.Agrees sampleStaged := by
    intro h
    cases h.availableAt
  refine ⟨r.2, by rw [hrow]; rfl, ?_⟩
  exact (((request_fingerprint_injective sampleDelayed_typed sampleStaged_typed).2 sampleHashing
    hseparates 1 "key" r.2 row 0 (by decide) hrow (by simpa using hstored)).2).mpr hdiffer

end TaskHarbor
