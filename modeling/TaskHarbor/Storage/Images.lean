import TaskHarbor.Storage.Local

/-! `image_processing.rs` up to its codec. Guessing a format, reading dimensions and finding an
animation are the codec's, on the bytes of a file; what `inspect` makes of them is the program's. -/
namespace TaskHarbor

open Transaction

def maxImagePixels : ℕ := 12000000

def maxImageDimension : ℕ := 12000

inductive ImageFormat where
  | jpeg
  | png
  | other
  deriving DecidableEq, Repr

inductive ImageError where
  | io
  | decode
  | storage (error : StorageError)
  | join
  | unsupportedFormat
  | animatedPng
  | dimensionsTooLarge
  | invalidSettings
  | blockingLimitClosed
  deriving DecidableEq, Repr

/-- `is_invalid_input`. -/
def ImageError.isInvalidInput : ImageError → Bool
  | .decode | .unsupportedFormat | .animatedPng | .dimensionsTooLarge => true
  | _ => false

/-- `safe_message`. -/
def ImageError.safeMessage : ImageError → String
  | .unsupportedFormat => "only JPEG and PNG image data is supported"
  | .animatedPng => "animated PNG files are not supported"
  | .dimensionsTooLarge => "image dimensions exceed the 12 megapixel or 12000 pixel limit"
  | .decode => "image data is corrupt or could not be decoded"
  | .invalidSettings => "image resize settings are invalid"
  | .io | .storage _ | .join | .blockingLimitClosed => "image processing could not be completed"

structure ImageMetadata where
  mediaType : String
  width : ℕ
  height : ℕ
  deriving DecidableEq

/-- The codec, and the inspections that the blocking pool or the file system fails. -/
structure ImageService where
  guessedFormat : List UInt8 → Option ImageFormat
  dimensions : ImageFormat → List UInt8 → Except ImageError (ℕ × ℕ)
  isApng : List UInt8 → Except ImageError Bool
  faults : Path → Option ImageError

/-- `validate_dimensions`. -/
def validateDimensions (width height : ℕ) : Except ImageError Unit :=
  if u64Max < width * height ∨ width = 0 ∨ height = 0 ∨ maxImageDimension < width ∨
      maxImageDimension < height ∨ maxImagePixels < width * height then .error .dimensionsTooLarge
  else .ok ()

/-- The body of `inspect_path` for one of the two supported formats. -/
def inspectFormat (images : ImageService) (format : ImageFormat) (mediaType : String)
    (bytes : List UInt8) : Except ImageError ImageMetadata := do
  let (width, height) ← images.dimensions format bytes
  validateDimensions width height
  if format = .png then
    let animated ← images.isApng bytes
    if animated then throw .animatedPng
  return ⟨mediaType, width, height⟩

/-- `inspect_path` on the bytes of the file. -/
def inspectPath (images : ImageService) (bytes : List UInt8) : Except ImageError ImageMetadata :=
  match images.guessedFormat bytes with
  | some .jpeg => inspectFormat images .jpeg "image/jpeg" bytes
  | some .png => inspectFormat images .png "image/png" bytes
  | some .other | none => .error .unsupportedFormat

/-- `ImageService::inspect`. -/
def inspect (images : ImageService) (storageKey : String) :
    Transaction.Session Storage ImageError ImageMetadata := do
  let path ← liftM ((resolveKey storageKey).mapError ImageError.storage)
  if let some e := images.faults path then throw e
  let bytes ← query fun st => match st.read? path with
    | some bytes => .ok bytes
    | none => .error .io
  inspectPath images bytes

/-! ### What passes -/

/-- The media type and the dimensions fit their columns. -/
structure ImageMetadata.Valid (metadata : ImageMetadata) : Prop where
  mediaType : metadata.mediaType = "image/jpeg" ∨ metadata.mediaType = "image/png"
  width : 0 < metadata.width ∧ metadata.width ≤ maxImageDimension
  height : 0 < metadata.height ∧ metadata.height ≤ maxImageDimension

theorem validateDimensions_ok {width height : ℕ} (h : validateDimensions width height = .ok ()) :
    (0 < width ∧ width ≤ maxImageDimension) ∧ 0 < height ∧ height ≤ maxImageDimension := by
  unfold validateDimensions at h
  split at h
  · cases h
  · rename_i hbad
    simp only [not_or, not_lt] at hbad
    obtain ⟨-, hw, hh, hwmax, hhmax, -⟩ := hbad
    exact ⟨⟨Nat.pos_of_ne_zero hw, hwmax⟩, Nat.pos_of_ne_zero hh, hhmax⟩

theorem inspectFormat_ok {images : ImageService} {format : ImageFormat} {mediaType : String}
    {bytes : List UInt8} {metadata : ImageMetadata}
    (h : inspectFormat images format mediaType bytes = .ok metadata) :
    metadata.mediaType = mediaType ∧ (0 < metadata.width ∧ metadata.width ≤ maxImageDimension) ∧
      0 < metadata.height ∧ metadata.height ≤ maxImageDimension := by
  obtain ⟨⟨width, height⟩, -, h⟩ := except_bind_ok.mp h
  obtain ⟨u, hvalid, h⟩ := except_bind_ok.mp h
  have hmetadata : metadata = ⟨mediaType, width, height⟩ := by
    dsimp only at h
    split at h
    · obtain ⟨animated, -, h⟩ := except_bind_ok.mp h
      split at h
      · cases h
      · cases h
        rfl
    · cases h
      rfl
  subst hmetadata
  exact ⟨rfl, validateDimensions_ok hvalid⟩

theorem inspectPath_ok {images : ImageService} {bytes : List UInt8} {metadata : ImageMetadata}
    (h : inspectPath images bytes = .ok metadata) : metadata.Valid := by
  unfold inspectPath at h
  split at h
  · obtain ⟨htype, hw, hh⟩ := inspectFormat_ok h
    exact ⟨Or.inl htype, hw, hh⟩
  · obtain ⟨htype, hw, hh⟩ := inspectFormat_ok h
    exact ⟨Or.inr htype, hw, hh⟩
  · cases h
  · cases h

/-! ### The output file -/

/-- `create_dir_all(parent)` of `process_path`, taken as one step. -/
def createOutputDirectory (disk : Disk) (outputPath : Path) : FileSession Unit := do
  disk.attempt (.createDirectory outputPath.dropLast)
  modify fun st => st.createDirAll outputPath.dropLast

/-- `File::create(output_path)` of `process_path`. -/
def createOutput (disk : Disk) (outputPath : Path) : FileSession Unit := do
  disk.attempt (.createFile outputPath)
  modify fun st => st.createFile outputPath (disk.modified outputPath)

end TaskHarbor
