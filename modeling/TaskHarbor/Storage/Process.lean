import TaskHarbor.Repository.Image
import TaskHarbor.Storage.Resize
import TaskHarbor.Storage.Tree

/-! `resize_to_jpeg` and `process_path`: decode, flatten on white, resize, encode. Decoding, the
resampling filter and the encoder are the codec's; the composition with white, the dimensions and
what is left in the storage are the program's. -/
namespace TaskHarbor

open Transaction

/-! ### Composition with white -/

structure Rgba where
  red : UInt8
  green : UInt8
  blue : UInt8
  alpha : UInt8
  deriving DecidableEq

structure Rgb where
  red : UInt8
  green : UInt8
  blue : UInt8
  deriving DecidableEq

/-- An image is its pixels, row by row. -/
structure RgbaImage where
  width : ℕ
  height : ℕ
  pixels : List Rgba

structure RgbImage where
  width : ℕ
  height : ℕ
  pixels : List Rgb

/-- `blend`, in 16-bit arithmetic. -/
def blend (channel alpha : UInt8) : UInt8 :=
  let foreground := channel.toUInt16 * alpha.toUInt16
  let background := 255 * (255 - alpha.toUInt16)
  ((foreground + background + 127) / 255).toUInt8

def Rgba.onWhite (p : Rgba) : Rgb :=
  ⟨blend p.red p.alpha, blend p.green p.alpha, blend p.blue p.alpha⟩

/-- `flatten_on_white`. -/
def flattenOnWhite (image : RgbaImage) : RgbImage :=
  ⟨image.width, image.height, image.pixels.map Rgba.onWhite⟩

section Blend

variable {c a : UInt8}

/-- No intermediate value leaves 16 bits. -/
theorem blend_toNat (c a : UInt8) :
    (blend c a).toNat = (c.toNat * a.toNat + 255 * (255 - a.toNat) + 127) / 255 := by
  have hc := c.toNat_lt
  have ha := a.toNat_lt
  have hproduct : c.toNat * a.toNat ≤ 255 * a.toNat := Nat.mul_le_mul_right _ (by omega)
  have hle : a.toUInt16 ≤ 255 := by
    rw [UInt16.le_iff_toNat_le]
    show a.toNat ≤ 255
    omega
  have hsub : (255 - a.toUInt16).toNat = 255 - a.toNat := UInt16.toNat_sub_of_le _ _ hle
  have hvalue : ((c.toUInt16 * a.toUInt16 + 255 * (255 - a.toUInt16) + 127) / 255).toNat =
      (c.toNat * a.toNat + 255 * (255 - a.toNat) + 127) / 255 := by
    rw [UInt16.toNat_div, UInt16.toNat_add, UInt16.toNat_add, UInt16.toNat_mul, UInt16.toNat_mul,
      hsub]
    simp only [UInt8.toNat_toUInt16, UInt16.reduceToNat]
    rw [Nat.mod_eq_of_lt (by omega : c.toNat * a.toNat < 2 ^ 16),
      Nat.mod_eq_of_lt (by omega : 255 * (255 - a.toNat) < 2 ^ 16), Nat.mod_eq_of_lt (by omega),
      Nat.mod_eq_of_lt (by omega)]
  unfold blend
  dsimp only
  rw [UInt16.toNat_toUInt8, hvalue, Nat.mod_eq_of_lt]
  omega

theorem blend_exact (c a : UInt8) :
    ((blend c a).toNat : ℤ) = round ((c.toNat * a.toNat + 255 * (255 - a.toNat) : ℚ) / 255) := by
  have ha := a.toNat_lt
  have hround := @div_add_half_eq_round 255 (c.toNat * a.toNat + 255 * (255 - a.toNat)) (by omega)
  have hcast : ((255 - a.toNat : ℕ) : ℚ) = 255 - a.toNat := by
    rw [Nat.cast_sub (by omega)]
    norm_num
  push_cast [hcast] at hround
  rw [blend_toNat]
  push_cast
  exact hround

theorem blend_solid (c : UInt8) : blend c 255 = c := by
  apply UInt8.toNat_inj.mp
  have hfull : (255 : UInt8).toNat = 255 := rfl
  rw [blend_toNat, hfull]
  omega

theorem blend_transparent (c : UInt8) : blend c 0 = 255 := by
  apply UInt8.toNat_inj.mp
  have hnone : (0 : UInt8).toNat = 0 := rfl
  have hwhite : (255 : UInt8).toNat = 255 := rfl
  rw [blend_toNat, hnone, hwhite]
  omega

/-- White only makes a channel lighter. -/
theorem blend_lighter : c ≤ blend c a := by
  rw [UInt8.le_iff_toNat_le, blend_toNat, Nat.le_div_iff_mul_le (by decide)]
  have hc := c.toNat_lt
  have ha := a.toNat_lt
  obtain ⟨k, hk⟩ : ∃ k, 255 = a.toNat + k := ⟨255 - a.toNat, by omega⟩
  have hrest : 255 - a.toNat = k := by omega
  have hmul : c.toNat * k ≤ 255 * k := Nat.mul_le_mul_right k (by omega)
  have hsplit : c.toNat * 255 = c.toNat * a.toNat + c.toNat * k := by rw [hk, Nat.mul_add]
  rw [hrest]
  omega

end Blend

/-- The pixel over white, each channel rounded to the nearest value. -/
structure OverWhite (p : Rgba) (q : Rgb) : Prop where
  red : (q.red.toNat : ℤ) =
    round ((p.red.toNat * p.alpha.toNat + 255 * (255 - p.alpha.toNat) : ℚ) / 255)
  green : (q.green.toNat : ℤ) =
    round ((p.green.toNat * p.alpha.toNat + 255 * (255 - p.alpha.toNat) : ℚ) / 255)
  blue : (q.blue.toNat : ℤ) =
    round ((p.blue.toNat * p.alpha.toNat + 255 * (255 - p.alpha.toNat) : ℚ) / 255)
  lighter : p.red ≤ q.red ∧ p.green ≤ q.green ∧ p.blue ≤ q.blue
  solid : p.alpha = 255 → q = ⟨p.red, p.green, p.blue⟩
  clear : p.alpha = 0 → q = ⟨255, 255, 255⟩

theorem onWhite_overWhite (p : Rgba) : OverWhite p p.onWhite where
  red := blend_exact p.red p.alpha
  green := blend_exact p.green p.alpha
  blue := blend_exact p.blue p.alpha
  lighter := ⟨blend_lighter, blend_lighter, blend_lighter⟩
  solid := by
    intro h
    simp only [Rgba.onWhite, h, blend_solid]
  clear := by
    intro h
    simp only [Rgba.onWhite, h, blend_transparent]

/-- `flatten_on_white` keeps the shape of every image and rounds every pixel exactly, in 16-bit
arithmetic that never wraps. -/
theorem flatten_on_white_exact (image : RgbaImage) :
    (flattenOnWhite image).width = image.width ∧ (flattenOnWhite image).height = image.height ∧
      List.Forall₂ OverWhite image.pixels (flattenOnWhite image).pixels := by
  refine ⟨rfl, rfl, ?_⟩
  show List.Forall₂ OverWhite image.pixels (image.pixels.map Rgba.onWhite)
  induction image.pixels with
  | nil => exact .nil
  | cons p pixels ih => exact .cons (onWhite_overWhite p) ih

/-! ### The codec -/

/-- `decode` with `to_rgba8`, `resize` with the Lanczos filter, and the JPEG encoder. -/
structure JpegCodec where
  decode : List UInt8 → Except ImageError RgbaImage
  resize : RgbImage → ℕ → ℕ → RgbImage
  encode : RgbImage → ℕ → Except ImageError (List UInt8)

/-- A JPEG stream has its two markers at least, and a file offset is signed. -/
structure JpegCodec.Marked (codec : JpegCodec) : Prop where
  bytes : ∀ image quality bytes, codec.encode image quality = .ok bytes →
    0 < bytes.length ∧ bytes.length ≤ i64Max

structure ProcessedImage where
  storageKey : String
  mediaType : String
  byteSize : ℕ
  width : ℕ
  height : ℕ
  deriving DecidableEq

/-- `failure_kind`. -/
def ImageError.failureKind : ImageError → FailureKind
  | .decode | .unsupportedFormat | .animatedPng | .dimensionsTooLarge | .invalidSettings
  | .storage .invalidKey => .permanent
  | .io | .storage .io | .storage .join | .storage .usageOverflow | .join
  | .blockingLimitClosed => .transient

def maxOutputQuality : ℕ := 100

abbrev ImageSession (α : Type) := Transaction.Session Storage ImageError α

/-- The file operations of `process_path`, whose errors are I/O errors. -/
def ioStep {α : Type} (x : FileSession α) : ImageSession α := Session.mapError (fun _ => .io) x

/-- `File::open` and a read to the end. -/
def readFile (path : Path) : ImageSession (List UInt8) :=
  query fun st => match st.read? path with
    | some bytes => .ok bytes
    | none => .error .io

/-- The buffered writer under the encoder: it may stop after any byte. -/
def writeOutput (disk : Disk) (path : Path) : ℕ → List UInt8 → FileSession Unit
  | _, [] => pure ()
  | offset, b :: rest => do
      writeAll disk path offset [b]
      writeOutput disk path (offset + 1) rest

/-- `let _ = fs::remove_file(output_path)`. -/
def discardOutput (disk : Disk) (outputPath : Path) (st : Storage) : Storage :=
  match disk.faults (.removeFile outputPath) with
  | none => st.removeFile outputPath
  | some _ => st

/-- `fs::metadata(path)?.len()`. -/
def fileLength (disk : Disk) (path : Path) : FileSession ℕ := do
  disk.attempt (.metadata path)
  query fun st => match st.read? path with
    | some bytes => .ok bytes.length
    | none => .error .io

/-- The closure of `process_path` that writes the output file. -/
def encodeOutput (codec : JpegCodec) (disk : Disk) (outputPath : Path) (output : RgbImage)
    (jpegQuality : ℕ) : ImageSession Unit := do
  ioStep (createOutput disk outputPath)
  let bytes ← codec.encode output jpegQuality
  ioStep (writeOutput disk outputPath 0 bytes)
  ioStep (flush disk outputPath)

/-- `process_path`. A panic in the blocking task comes out of it as a join error. -/
def processPath (images : ImageService) (codec : JpegCodec) (disk : Disk)
    (inputPath outputPath : Path) (outputKey : String) (maxWidth jpegQuality : ℕ) :
    ImageSession ProcessedImage := do
  let source ← readFile inputPath
  let metadata ← inspectPath images source
  let decoded ← codec.decode source
  let flattened := flattenOnWhite decoded
  match resizedDimensions metadata.width metadata.height maxWidth with
  | none => throw .join
  | some (width, height) => do
      let output := if width = metadata.width ∧ height = metadata.height then flattened
        else codec.resize flattened width height
      ioStep (createOutputDirectory disk outputPath)
      tryCatch (encodeOutput codec disk outputPath output jpegQuality) fun e => do
        modify (discardOutput disk outputPath)
        throw e
      let byteSize ← ioStep (fileLength disk outputPath)
      return { storageKey := outputKey, mediaType := "image/jpeg", byteSize, width, height }

/-- `ImageService::resize_to_jpeg`. -/
def resizeToJpeg (images : ImageService) (codec : JpegCodec) (disk : Disk)
    (inputKey outputKey : String) (maxWidth jpegQuality : ℕ) : ImageSession ProcessedImage := do
  if maxWidth = 0 ∨ maxOutputWidth < maxWidth ∨
      ¬(1 ≤ jpegQuality ∧ jpegQuality ≤ maxOutputQuality) then
    throw .invalidSettings
  let inputPath ← liftM ((resolveKey inputKey).mapError ImageError.storage)
  let outputPath ← liftM ((resolveKey outputKey).mapError ImageError.storage)
  if let some e := images.faults inputPath then throw e
  processPath images codec disk inputPath outputPath outputKey maxWidth jpegQuality

/-! ### What a resize leaves in the storage -/

section Effect

variable {images : ImageService} {codec : JpegCodec} {disk : Disk} {st st' : Storage}
  {p path : Path}

theorem removeFile_outside (h : p <+: path) (st : Storage) :
    SameOutside p st (st.removeFile path) := by
  have hinside : p.isPrefixOf path = true := List.isPrefixOf_iff_prefix.mpr h
  unfold SameOutside Storage.removeTree Storage.removeFile
  simp only [List.filter_filter]
  refine List.filter_congr fun f _ => ?_
  rcases eq_or_ne f.path path with hf | hf
  · simp [hf, hinside]
  · simp [hf]

/-- The files other than the one at `path` are the same. -/
def SameBut (path : Path) (st st' : Storage) : Prop :=
  (st'.removeFile path).files = (st.removeFile path).files

theorem append_sameBut (st : Storage) (path : Path) (bytes : List UInt8) :
    SameBut path st (st.append path bytes) := by
  unfold SameBut Storage.removeFile Storage.append
  induction st.files with
  | nil => rfl
  | cons f files ih =>
    simp only at ih
    simp only [List.map_cons, List.filter_cons, ih]
    rcases eq_or_ne f.path path with hf | hf
    · simp [hf]
    · simp [hf]

theorem SameBut.read? (h : SameBut path st st') (hne : p ≠ path) : st'.read? p = st.read? p := by
  have hkeep : ∀ files : List StoredFile, (files.filter fun f => f.path != path).find?
      (fun f => f.path == p) = files.find? fun f => f.path == p := by
    intro files
    rw [List.find?_filter]
    congr 1
    funext f
    rcases eq_or_ne f.path p with rfl | hf
    · simp [hne]
    · simp [hf]
  unfold SameBut Storage.removeFile at h
  unfold Storage.read?
  rw [← hkeep st'.files, ← hkeep st.files]
  exact congrArg (fun files => (files.find? fun f => f.path == p).map StoredFile.content) h

/-- A relation that making, writing and removing the file at `path` respects. -/
structure WritesAt (path : Path) (R : Storage → Storage → Prop) : Prop where
  refl : ∀ st, R st st
  trans : ∀ s t u, R s t → R t u → R s u
  createDirAll : ∀ st parent, R st (st.createDirAll parent)
  createFile : ∀ st modified, R st (st.createFile path modified)
  append : ∀ st bytes, R st (st.append path bytes)
  removeFile : ∀ st, R st (st.removeFile path)

theorem writesAt_outside (h : p <+: path) : WritesAt path (SameOutside p) where
  refl := .refl p
  trans := fun _ _ _ => .trans
  createDirAll := createDirAll_outside
  createFile := fun _ => createFile_outside h
  append := fun _ => append_outside h
  removeFile := removeFile_outside h

theorem writesAt_sameBut (path : Path) : WritesAt path (SameBut path) where
  refl := fun _ => rfl
  trans := fun _ _ _ h h' => Eq.trans h' h
  createDirAll := fun _ _ => rfl
  createFile := fun st modified => by
    simp [SameBut, Storage.removeFile, Storage.createFile, List.filter_append, List.filter_filter]
  append := fun st bytes => append_sameBut st path bytes
  removeFile := fun st => by simp [SameBut, Storage.removeFile, List.filter_filter]

theorem readFile_reads (path : Path) (st : Storage) : (readFile path st).2 = st := rfl

theorem readFile_ok {source : List UInt8} (h : readFile path st = (.ok source, st')) :
    st.read? path = some source ∧ st = st' := by
  rw [readFile, query_run] at h
  cases hfile : st.read? path with
  | none =>
    rw [hfile] at h
    cases h
  | some bytes =>
    rw [hfile] at h
    cases h
    exact ⟨rfl, rfl⟩

theorem ioStep_moves {R : Storage → Storage → Prop} {α : Type} {x : FileSession α}
    (h : Session.Moves R x st) : Session.Moves R (ioStep x) st := Session.moves_mapError h

theorem fileLength_run (disk : Disk) (path : Path) (st : Storage) :
    ioStep (fileLength disk path) st = (match disk.faults (.metadata path), st.read? path with
      | none, some bytes => .ok bytes.length
      | _, _ => .error .io, st) := by
  unfold ioStep Session.mapError fileLength Disk.attempt
  rw [Session.bind_run, Session.liftExcept_run]
  cases disk.faults (.metadata path) with
  | some e => rfl
  | none =>
    dsimp only
    rw [query_run]
    cases st.read? path <;> rfl

theorem fileLength_reads (disk : Disk) (path : Path) (st : Storage) :
    (ioStep (fileLength disk path) st).2 = st := by
  rw [fileLength_run]

section Moves

variable {R : Storage → Storage → Prop} (h : WritesAt path R)

include h

theorem writeOutput_moves (offset : ℕ) (bytes : List UInt8) :
    Session.Moves R (writeOutput disk path offset bytes) st := by
  induction bytes generalizing offset st with
  | nil => exact h.refl st
  | cons b rest ih =>
    refine Session.moves_bind h.trans ?_ fun _ st' _ => ih (offset + 1)
    exact Session.moves_lift_bind (h.refl st) fun _ _ => h.append st [b]

theorem discardOutput_moves (st : Storage) : R st (discardOutput disk path st) := by
  unfold discardOutput
  cases disk.faults (.removeFile path) with
  | none => exact h.removeFile st
  | some e => exact h.refl st

theorem encodeOutput_moves (output : RgbImage) (quality : ℕ) :
    Session.Moves R (encodeOutput codec disk path output quality) st := by
  refine Session.moves_bind h.trans ?_ fun _ st₁ _ => ?_
  · exact ioStep_moves (Session.moves_lift_bind (h.refl st) fun _ _ => h.createFile st _)
  refine Session.moves_lift_bind (h.refl st₁) fun bytes _ => ?_
  refine Session.moves_bind h.trans ?_ fun _ st₂ _ => ?_
  · exact ioStep_moves (writeOutput_moves h 0 bytes)
  · exact ioStep_moves (Session.moves_lift (h.refl st₂))

theorem processPath_moves (inputPath : Path) (outputKey : String) (maxWidth quality : ℕ) :
    Session.Moves R
      (processPath images codec disk inputPath path outputKey maxWidth quality) st := by
  refine Session.moves_bind h.trans (h.refl st) fun source st₁ _ => ?_
  refine Session.moves_lift_bind (h.refl st₁) fun metadata _ => ?_
  refine Session.moves_lift_bind (h.refl st₁) fun decoded _ => ?_
  cases resizedDimensions metadata.width metadata.height maxWidth with
  | none => exact h.refl st₁
  | some size =>
    refine Session.moves_bind h.trans ?_ fun _ st₂ _ => Session.moves_bind_read ?_ ?_
    · exact ioStep_moves (Session.moves_lift_bind (h.refl st₁) fun _ _ => h.createDirAll st₁ _)
    · unfold Session.Moves
      rw [Session.tryCatch_run]
      have hencode : R st₂ (encodeOutput codec disk path
          (if size.1 = metadata.width ∧ size.2 = metadata.height then flattenOnWhite decoded
            else codec.resize (flattenOnWhite decoded) size.1 size.2) quality st₂).2 :=
        encodeOutput_moves h _ _
      generalize encodeOutput codec disk path _ quality st₂ = answer at hencode ⊢
      obtain ⟨e | u, st₃⟩ := answer
      · exact h.trans _ _ _ hencode (discardOutput_moves h st₃)
      · exact hencode
    · intro u st₃
      rw [Session.bind_run]
      have hreads := fileLength_reads disk path st₃
      generalize ioStep (fileLength disk path) st₃ = answer at hreads ⊢
      obtain ⟨e | n, st₄⟩ := answer
      · exact hreads
      · exact hreads

/-- Whatever its answer, a resize touches the file of its output key only. -/
theorem resizeToJpeg_moves {outputKey : String} (hkey : resolveKey outputKey = .ok path)
    (inputKey : String) (maxWidth quality : ℕ) :
    Session.Moves R (resizeToJpeg images codec disk inputKey outputKey maxWidth quality) st := by
  refine Session.moves_unless (h.refl st) fun _ => ?_
  refine Session.moves_lift_bind (h.refl st) fun inputPath _ => ?_
  refine Session.moves_lift_bind (h.refl st) fun outputPath hpath => ?_
  rw [hkey] at hpath
  obtain rfl : path = outputPath := Except.ok.inj hpath
  cases images.faults inputPath with
  | some e => exact h.refl st
  | none => exact processPath_moves h inputPath outputKey maxWidth quality

end Moves

theorem read?_written (st : Storage) (path : Path) (modified : ℤ) (bytes : List UInt8) :
    ((st.createFile path modified).append path bytes).read? path = some bytes := by
  have hnone :
      (st.files.filter fun f => f.path != path).find? (fun f => f.path == path) = none := by
    simp
  have hfind : ((st.createFile path modified).append path bytes).files.find?
      (fun f => f.path == path) = some ⟨path, bytes, modified⟩ := by
    simp only [Storage.createFile, Storage.append, List.map_append, List.map_cons, List.map_nil,
      List.find?_append, if_true, List.nil_append]
    rw [List.find?_eq_none.mpr]
    · simp
    · intro f hf
      obtain ⟨g, hg, rfl⟩ := List.mem_map.mp hf
      have hne : g.path ≠ path := by simpa using (List.mem_filter.mp hg).2
      simp [hne]
  rw [Storage.read?, hfind]
  rfl

theorem append_nil (st : Storage) (path : Path) : st.append path [] = st := by
  unfold Storage.append
  simp

theorem append_append (st : Storage) (path : Path) (a b : List UInt8) :
    (st.append path a).append path b = st.append path (a ++ b) := by
  unfold Storage.append
  rw [List.map_map]
  congr 1
  refine List.map_congr_left fun f _ => ?_
  by_cases hpath : f.path = path
  · simp [hpath]
  · simp [hpath]

/-- The writer appends a part of the bytes, all of them if it succeeds. -/
theorem writeOutput_run (offset : ℕ) (bytes : List UInt8) :
    ∃ part, part <+: bytes ∧ (writeOutput disk path offset bytes st).2 = st.append path part ∧
      ((writeOutput disk path offset bytes st).1 = .ok () → part = bytes) := by
  induction bytes generalizing offset st with
  | nil => exact ⟨[], List.prefix_refl [], (append_nil st path).symm, fun _ => rfl⟩
  | cons b rest ih =>
    unfold writeOutput writeAll
    rw [Session.bind_run, Session.bind_run, Session.liftExcept_run]
    cases disk.attempt (.write path offset) with
    | error e => exact ⟨[], List.nil_prefix, (append_nil st path).symm, fun h => by cases h⟩
    | ok u =>
      obtain ⟨part, hpart, hrun, hall⟩ := @ih (st.append path [b]) (offset + 1)
      refine ⟨b :: part, (List.prefix_cons_inj b).mpr hpart, ?_, fun h => ?_⟩
      · exact hrun.trans (append_append st path [b] part)
      · rw [hall h]

theorem encodeOutput_ok {output : RgbImage} {quality : ℕ}
    (h : encodeOutput codec disk path output quality st = (.ok (), st')) :
    ∃ bytes, codec.encode output quality = .ok bytes ∧ st'.read? path = some bytes := by
  obtain ⟨u, st₁, hcreate, h⟩ := Session.bind_ok.mp h
  obtain ⟨bytes, hbytes, h⟩ := Session.lift_bind_ok.mp h
  obtain ⟨v, st₂, hwrite, hflush⟩ := Session.bind_ok.mp h
  obtain ⟨-, -, hcreate⟩ := Session.lift_bind_ok.mp (Session.mapError_ok.mp hcreate)
  have hwrite := Session.mapError_ok.mp hwrite
  have hflush := Session.mapError_ok.mp hflush
  cases hcreate
  have hsame : st' = st₂ := (congrArg Prod.snd hflush).symm
  obtain ⟨part, -, hrun, hall⟩ := @writeOutput_run disk _ path 0 bytes
  rw [hwrite] at hrun hall
  obtain rfl := hall rfl
  obtain rfl : st₂ = _ := hrun
  refine ⟨part, hbytes, ?_⟩
  rw [hsame]
  exact read?_written _ _ _ _

/-- A failed encoding has not begun, or it leaves a part of its bytes. -/
theorem encodeOutput_error {output : RgbImage} {quality : ℕ} {e : ImageError}
    (h : encodeOutput codec disk path output quality st = (.error e, st')) :
    st' = st ∨ ∃ part, st'.read? path = some part ∧
      (part = [] ∨ ∃ bytes, codec.encode output quality = .ok bytes ∧ part <+: bytes) := by
  have hcreate : ioStep (createOutput disk path) st = match disk.attempt (.createFile path) with
      | .error _ => (.error .io, st)
      | .ok _ => (.ok (), st.createFile path (disk.modified path)) := by
    unfold ioStep Session.mapError createOutput
    rw [Session.bind_run, Session.liftExcept_run]
    cases disk.attempt (.createFile path) <;> rfl
  unfold encodeOutput at h
  rw [Session.bind_run, hcreate] at h
  cases hattempt : disk.attempt (.createFile path) with
  | error x =>
    rw [hattempt] at h
    exact Or.inl (congrArg Prod.snd h).symm
  | ok u =>
    right
    simp only [hattempt] at h
    rw [Session.bind_run, Session.liftExcept_run] at h
    cases hbytes : codec.encode output quality with
    | error x =>
      rw [hbytes] at h
      obtain rfl : _ = st' := congrArg Prod.snd h
      have hread := read?_written st path (disk.modified path) []
      rw [append_nil] at hread
      exact ⟨[], hread, Or.inl rfl⟩
    | ok bytes =>
      simp only [hbytes] at h
      obtain ⟨part, hpart, hrun, -⟩ := @writeOutput_run disk
        (st.createFile path (disk.modified path)) path 0 bytes
      refine ⟨part, ?_, Or.inr ⟨bytes, rfl, hpart⟩⟩
      have hsame : st' = (writeOutput disk path 0 bytes
          (st.createFile path (disk.modified path))).2 := by
        rw [Session.bind_run] at h
        unfold ioStep Session.mapError at h
        generalize writeOutput disk path 0 bytes (st.createFile path (disk.modified path)) =
          answer at h ⊢
        obtain ⟨x | v, st₂⟩ := answer
        · exact (congrArg Prod.snd h).symm
        · exact (congrArg Prod.snd h).symm
      rw [hsame, hrun]
      exact read?_written st path _ part

/-- A handler that cleans up and fails again: the answer and the error are those of the body. -/
theorem rethrow_ok {α : Type} {x : ImageSession α} {f : Storage → Storage} {a : α}
    (h : (tryCatch x fun e => do modify f; throw e : ImageSession α) st = (.ok a, st')) :
    x st = (.ok a, st') := by
  rw [Session.tryCatch_run] at h
  generalize x st = answer at h ⊢
  rcases answer with ⟨e | b, st₁⟩
  · cases h
  · exact h

theorem rethrow_error {α : Type} {x : ImageSession α} {f : Storage → Storage} {e : ImageError}
    (h : (tryCatch x fun e => do modify f; throw e : ImageSession α) st = (.error e, st')) :
    ∃ st₁, x st = (.error e, st₁) ∧ st' = f st₁ := by
  rw [Session.tryCatch_run] at h
  generalize x st = answer at h ⊢
  rcases answer with ⟨e' | b, st₁⟩
  · cases h
    exact ⟨st₁, rfl, rfl⟩
  · cases h

/-- The bytes and the size of the JPEG that the input renders to. -/
structure Renders (images : ImageService) (codec : JpegCodec) (source : List UInt8)
    (maxWidth quality : ℕ) (bytes : List UInt8) (width height : ℕ) : Prop where
  rendered : ∃ metadata decoded, inspectPath images source = .ok metadata ∧
    codec.decode source = .ok decoded ∧
    resizedDimensions metadata.width metadata.height maxWidth = some (width, height) ∧
    codec.encode (if width = metadata.width ∧ height = metadata.height then flattenOnWhite decoded
      else codec.resize (flattenOnWhite decoded) width height) quality = .ok bytes

/-- A rendered image is no larger than an image may be. -/
theorem Renders.size {source bytes : List UInt8} {maxWidth quality width height : ℕ}
    (h : Renders images codec source maxWidth quality bytes width height) (hmax : 0 < maxWidth) :
    (0 < width ∧ width ≤ maxImageDimension) ∧ 0 < height ∧ height ≤ maxImageDimension := by
  obtain ⟨metadata, -, hinspect, -, hsize, -⟩ := h.rendered
  have hvalid := inspectPath_ok hinspect
  have hdimension : maxImageDimension ≤ u32Max := by decide
  obtain ⟨hw, hwmax⟩ := hvalid.width
  obtain ⟨hh, hhmax⟩ := hvalid.height
  rcases Nat.lt_or_ge maxWidth metadata.width with hwide | hnarrow
  · have hle := scaled_le metadata.height hwide
    rw [resizedDimensions_wide hwide (by omega) (by omega), Option.some.injEq,
      Prod.mk.injEq] at hsize
    omega
  · rw [resizedDimensions_narrow hnarrow, Option.some.injEq, Prod.mk.injEq] at hsize
    omega

theorem processPath_ok {inputPath : Path} {outputKey : String} {maxWidth quality : ℕ}
    {processed : ProcessedImage}
    (h : processPath images codec disk inputPath path outputKey maxWidth quality st =
      (.ok processed, st')) :
    ∃ source bytes, st.read? inputPath = some source ∧
      Renders images codec source maxWidth quality bytes processed.width processed.height ∧
      st'.read? path = some bytes ∧ processed.storageKey = outputKey ∧
      processed.mediaType = "image/jpeg" ∧ processed.byteSize = bytes.length := by
  obtain ⟨source, st₁, hread, h⟩ := Session.bind_ok.mp h
  obtain ⟨metadata, hinspect, h⟩ := Session.lift_bind_ok.mp h
  obtain ⟨decoded, hdecode, h⟩ := Session.lift_bind_ok.mp h
  obtain ⟨hsource, rfl⟩ := readFile_ok hread
  cases hsize : resizedDimensions metadata.width metadata.height maxWidth with
  | none =>
    rw [hsize] at h
    cases h
  | some size =>
    rw [hsize] at h
    obtain ⟨u, st₂, -, h⟩ := Session.bind_ok.mp h
    obtain ⟨v, st₃, hencode, h⟩ := Session.bind_ok.mp h
    obtain ⟨byteSize, st₄, hlength, h⟩ := Session.bind_ok.mp h
    cases h
    obtain ⟨bytes, hbytes, hfile⟩ := encodeOutput_ok (rethrow_ok hencode)
    rw [fileLength_run, hfile] at hlength
    cases hfault : disk.faults (.metadata path) with
    | some e =>
      rw [hfault] at hlength
      cases hlength
    | none =>
      rw [hfault] at hlength
      cases hlength
      exact ⟨source, bytes, hsource, ⟨metadata, decoded, hinspect, hdecode, hsize, hbytes⟩, hfile,
        rfl, rfl, rfl⟩

/-- What a failed run leaves, no other file being changed: what was there; no file at its output
path; a part of the output, if the file system has refused to remove it; or all of it, if it has
refused to say how long it is. -/
inductive Leftover (images : ImageService) (codec : JpegCodec) (disk : Disk)
    (inputPath path : Path) (maxWidth quality : ℕ) (st st' : Storage) : Prop
  | untouched (files : st'.files = st.files)
  | removed (files : st'.files = (st.removeFile path).files)
  | stopped (same : SameBut path st st') (unremoved : disk.faults (.removeFile path) ≠ none)
      (part : List UInt8) (file : st'.read? path = some part)
      (rendered : part = [] ∨ ∃ source bytes width height, st.read? inputPath = some source ∧
        Renders images codec source maxWidth quality bytes width height ∧ part <+: bytes)
  | complete (same : SameBut path st st') (unmeasured : disk.faults (.metadata path) ≠ none)
      (source bytes : List UInt8) (width height : ℕ) (input : st.read? inputPath = some source)
      (renders : Renders images codec source maxWidth quality bytes width height)
      (file : st'.read? path = some bytes)

/-- An encoding that has failed is discarded. -/
theorem encodeOutput_leftover {inputPath : Path} {output : RgbImage} {source : List UInt8}
    {maxWidth quality width height : ℕ} {st₂ st₃ : Storage} {e : ImageError}
    (hfiles : st₂.files = st.files) (hsource : st.read? inputPath = some source)
    (hrenders : ∀ bytes, codec.encode output quality = .ok bytes →
      Renders images codec source maxWidth quality bytes width height)
    (hrun : encodeOutput codec disk path output quality st₂ = (.error e, st₃)) :
    Leftover images codec disk inputPath path maxWidth quality st
      (discardOutput disk path st₃) := by
  have hbut : SameBut path st₂ st₃ := (encodeOutput_moves (writesAt_sameBut path) _ _).run hrun
  unfold SameBut Storage.removeFile at hbut
  rw [hfiles] at hbut
  unfold discardOutput
  cases hremoval : disk.faults (.removeFile path) with
  | none => exact .removed hbut
  | some x =>
    rcases encodeOutput_error hrun with rfl | ⟨part, hfile, hpart⟩
    · exact .untouched hfiles
    · refine .stopped hbut (by simp [hremoval]) part hfile (hpart.imp_right ?_)
      rintro ⟨bytes, hbytes, hprefix⟩
      exact ⟨source, bytes, width, height, hsource, hrenders bytes hbytes, hprefix⟩

theorem processPath_error {inputPath : Path} {outputKey : String} {maxWidth quality : ℕ}
    {e : ImageError}
    (h : processPath images codec disk inputPath path outputKey maxWidth quality st =
      (.error e, st')) :
    Leftover images codec disk inputPath path maxWidth quality st st' := by
  have hkept : ∀ {x : ImageError} {s s' : Storage} {y : Except ImageError ProcessedImage},
      s.files = st.files → ((y, s) : Except ImageError ProcessedImage × Storage) =
        (.error x, s') → Leftover images codec disk inputPath path maxWidth quality st s' := by
    intro x s s' y hs heq
    cases heq
    exact .untouched hs
  have hmoved := (processPath_moves (writesAt_sameBut path) inputPath outputKey maxWidth
    quality).run h
  rcases Session.bind_error.mp h with h | ⟨source, st₁, hread, h⟩
  · have hsame := congrArg Prod.snd h
    rw [readFile_reads] at hsame
    exact .untouched (congrArg Storage.files hsame.symm)
  obtain ⟨hsource, rfl⟩ := readFile_ok hread
  rw [Session.bind_run, Session.liftExcept_run] at h
  cases hinspect : inspectPath images source with
  | error x =>
    rw [hinspect] at h
    exact hkept rfl h
  | ok metadata =>
    simp only [hinspect] at h
    rw [Session.bind_run, Session.liftExcept_run] at h
    cases hdecode : codec.decode source with
    | error x =>
      rw [hdecode] at h
      exact hkept rfl h
    | ok decoded =>
      simp only [hdecode] at h
      cases hsize : resizedDimensions metadata.width metadata.height maxWidth with
      | none =>
        rw [hsize] at h
        exact hkept rfl h
      | some size =>
        rw [hsize] at h
        have hdirectory : (ioStep (createOutputDirectory disk path) st).2.files = st.files :=
          @ioStep_moves st (fun s s' => s'.files = s.files) _ _
            (Session.moves_lift_bind rfl fun _ _ => rfl)
        rcases Session.bind_error.mp h with h | ⟨u, st₂, hcreated, h⟩
        · rw [h] at hdirectory
          exact .untouched hdirectory
        rw [hcreated] at hdirectory
        rcases Session.bind_error.mp h with h | ⟨v, st₃, hencode, h⟩
        · obtain ⟨st₃, hrun, rfl⟩ := rethrow_error h
          exact encodeOutput_leftover hdirectory hsource
            (fun bytes hbytes => ⟨metadata, decoded, hinspect, hdecode, hsize, hbytes⟩) hrun
        · obtain ⟨bytes, hbytes, hfile⟩ := encodeOutput_ok (rethrow_ok hencode)
          rcases Session.bind_error.mp h with h | ⟨byteSize, st₄, -, h⟩
          · rw [fileLength_run, hfile] at h
            cases hfault : disk.faults (.metadata path) with
            | none =>
              rw [hfault] at h
              cases h
            | some x =>
              rw [hfault] at h
              cases h
              exact .complete hmoved (by simp [hfault]) source bytes _ _ hsource
                ⟨metadata, decoded, hinspect, hdecode, hsize, hbytes⟩ hfile
          · cases h

theorem except_mapError_ok {ε ε' α : Type} {f : ε → ε'} {x : Except ε α} {a : α} :
    x.mapError f = .ok a ↔ x = .ok a := by
  cases x <;> simp [Except.mapError]

theorem resizeToJpeg_ok {inputKey outputKey : String} {maxWidth quality : ℕ}
    {processed : ProcessedImage}
    (h : resizeToJpeg images codec disk inputKey outputKey maxWidth quality st =
      (.ok processed, st')) :
    0 < maxWidth ∧ ∃ inputPath path, resolveKey inputKey = .ok inputPath ∧
      resolveKey outputKey = .ok path ∧
      processPath images codec disk inputPath path outputKey maxWidth quality st =
        (.ok processed, st') := by
  unfold resizeToJpeg at h
  split at h
  · cases h
  · rename_i hsettings
    obtain ⟨inputPath, hinput, h⟩ := Session.lift_bind_ok.mp h
    obtain ⟨path, hkey, h⟩ := Session.lift_bind_ok.mp h
    refine ⟨by omega, inputPath, path, except_mapError_ok.mp hinput, except_mapError_ok.mp hkey, ?_⟩
    cases hfault : images.faults inputPath with
    | some e =>
      rw [hfault] at h
      cases h
    | none =>
      rw [hfault] at h
      exact h

theorem resizeToJpeg_error {inputKey outputKey : String} {maxWidth quality : ℕ} {e : ImageError}
    (h : resizeToJpeg images codec disk inputKey outputKey maxWidth quality st =
      (.error e, st')) :
    st'.files = st.files ∨ ∃ inputPath path, resolveKey inputKey = .ok inputPath ∧
      resolveKey outputKey = .ok path ∧
      Leftover images codec disk inputPath path maxWidth quality st st' := by
  unfold resizeToJpeg at h
  split at h
  · cases h
    exact Or.inl rfl
  dsimp only at h
  rw [Session.bind_run, Session.liftExcept_run] at h
  cases hinput : (resolveKey inputKey).mapError ImageError.storage with
  | error x =>
    rw [hinput] at h
    cases h
    exact Or.inl rfl
  | ok inputPath =>
    simp only [hinput] at h
    rw [Session.bind_run, Session.liftExcept_run] at h
    cases hkey : (resolveKey outputKey).mapError ImageError.storage with
    | error x =>
      rw [hkey] at h
      cases h
      exact Or.inl rfl
    | ok path =>
      simp only [hkey] at h
      cases hfault : images.faults inputPath with
      | some x =>
        rw [hfault] at h
        cases h
        exact Or.inl rfl
      | none =>
        rw [hfault] at h
        exact Or.inr ⟨inputPath, path, except_mapError_ok.mp hinput, except_mapError_ok.mp hkey,
          processPath_error h⟩

end Effect

end TaskHarbor
