import TaskHarbor.Library.Program
import TaskHarbor.Storage.Local

/-! `cleanup_directory` and `directory_usage` as programs that call the file system, one call at a
time. The depth of the recursion and the length of the loop are bounds that a caller gives; beyond
them the walk fails. A path is relative to the root, and a name is valid UTF-8. -/
namespace TaskHarbor

open Interleaving

/-! ### Calls -/

inductive WalkRequest where
  | readDirectory (path : Path)
  | symlinkMetadata (path : Path)
  | isEmpty (path : Path)
  | removeDirectory (path : Path)
  | removeFile (path : Path)
  deriving DecidableEq

inductive FileType where
  | directory
  | file
  | symlink
  | other
  deriving DecidableEq

structure Metadata where
  fileType : FileType
  len : ℕ
  modified : Option ℤ

/-- `read_dir`: the walk may fail at any entry. -/
abbrev Entries := List (Except StorageError String)

def WalkRequest.Reply : WalkRequest → Type
  | .readDirectory _ => Except StorageError Entries
  | .symlinkMetadata _ => Except StorageError Metadata
  | .isEmpty _ => Except StorageError Bool
  | .removeDirectory _ => Except StorageError Unit
  | .removeFile _ => Except StorageError Unit

abbrev WalkProgram := Program WalkRequest WalkRequest.Reply

abbrev Walk (α : Type) := ExceptT StorageError WalkProgram α

namespace Walk

def call (q : WalkRequest) : WalkProgram q.Reply := .perform q

def readDirectory (path : Path) : Walk Entries := call (.readDirectory path)

def symlinkMetadata (path : Path) : Walk Metadata := call (.symlinkMetadata path)

/-- `read_dir(path)?.next().is_none()`. -/
def isEmpty (path : Path) : Walk Bool := call (.isEmpty path)

def removeDirectory (path : Path) : Walk Unit := call (.removeDirectory path)

def removeFile (path : Path) : Walk Unit := call (.removeFile path)

end Walk

/-- `checked_add` of a file's length. -/
def addLength (total len : ℕ) : Except StorageError ℕ :=
  if u64Max < total + len then .error .usageOverflow else .ok (total + len)

/-! ### Cleanup -/

structure CleanupReport where
  filesRemoved : ℕ := 0
  bytesRemoved : ℕ := 0
  deriving DecidableEq, Repr

/-- What a cleanup spares. -/
structure CleanupRule where
  referencedKeys : List String
  protectedPrefixes : List String
  olderThan : ℤ

/-- The text of a path below the root, each backslash read as a slash. -/
def relativeText (path : Path) : String :=
  String.ofList ((keyOf path).toList.map fun c => if c = '\\' then '/' else c)

/-- Referenced, or a protected prefix, or below one. -/
def CleanupRule.isProtected (rule : CleanupRule) (relative : String) : Bool :=
  rule.referencedKeys.contains relative || rule.protectedPrefixes.any fun p =>
    relative == p || (p ++ "/").toList.isPrefixOf relative.toList

def CleanupRule.removes (rule : CleanupRule) (path : Path) (modified : Option ℤ) : Bool :=
  !rule.isProtected (relativeText path) && modified.any fun m => m ≤ rule.olderThan

/-- An entry that is not a directory. -/
def cleanupFile (rule : CleanupRule) (path : Path) (metadata : Metadata)
    (report : CleanupReport) : Walk CleanupReport :=
  if rule.removes path metadata.modified then do
    Walk.removeFile path
    let bytesRemoved ← addLength report.bytesRemoved metadata.len
    return ⟨report.filesRemoved + 1, bytesRemoved⟩
  else return report

/-- The directories right below the root stay. -/
def removeIfEmpty (directory path : Path) : Walk Unit :=
  if directory = [] then pure ()
  else do
    let empty ← Walk.isEmpty path
    if empty then Walk.removeDirectory path else pure ()

/-- The loop of `cleanup_directory`; `child` is the call for a directory. -/
def cleanupEntries (rule : CleanupRule) (child : Path → Walk CleanupReport) (directory : Path) :
    Entries → CleanupReport → Walk CleanupReport
  | [], report => return report
  | entry :: entries, report => do
      let name ← entry
      let path := directory ++ [name]
      let metadata ← Walk.symlinkMetadata path
      if metadata.fileType = .directory then do
        let below ← child path
        removeIfEmpty directory path
        cleanupEntries rule child directory entries
          ⟨report.filesRemoved + below.filesRemoved, report.bytesRemoved + below.bytesRemoved⟩
      else do
        let report ← cleanupFile rule path metadata report
        cleanupEntries rule child directory entries report

/-- `cleanup_directory`. -/
def cleanupDirectory (rule : CleanupRule) : ℕ → Path → Walk CleanupReport
  | 0, _ => throw .io
  | depth + 1, directory => do
      let entries ← Walk.readDirectory directory
      cleanupEntries rule (cleanupDirectory rule depth) directory entries {}

/-- `cleanup_unreferenced`: every key has to resolve. -/
def cleanupUnreferenced (depth : ℕ) (rule : CleanupRule) : Walk CleanupReport := do
  let _ ← ((rule.referencedKeys ++ rule.protectedPrefixes).mapM resolveKey : Except _ _)
  cleanupDirectory rule depth []

/-! ### Usage -/

/-- The inner loop of `directory_usage`: a directory is pushed, a file is counted. -/
def usageEntries (directory : Path) : Entries → List Path → ℕ → Walk (List Path × ℕ)
  | [], pending, total => return (pending, total)
  | entry :: entries, pending, total => do
      let name ← entry
      let path := directory ++ [name]
      let metadata ← Walk.symlinkMetadata path
      match metadata.fileType with
      | .directory => usageEntries directory entries (path :: pending) total
      | .file => do
          let total ← addLength total metadata.len
          usageEntries directory entries pending total
      | .symlink | .other => usageEntries directory entries pending total

/-- The outer loop, with the last directory pushed at the head. -/
def usageFrom : ℕ → List Path → ℕ → Walk ℕ
  | 0, _, _ => throw .io
  | _ + 1, [], total => return total
  | steps + 1, directory :: pending, total => do
      let entries ← Walk.readDirectory directory
      let (pending, total) ← usageEntries directory entries pending total
      usageFrom steps pending total

/-- `directory_usage` of the root. -/
def directoryUsage (steps : ℕ) : Walk ℕ := usageFrom steps [[]] 0

end TaskHarbor
