import Mathlib.Algebra.GroupWithZero.Nat
import Mathlib.Data.List.Infix
import TaskHarbor.Core.Job
import TaskHarbor.Library.Transaction

/-! `storage.rs`: the files under the storage root. A path is the list of its components below the
root. The file system refuses an access as `Disk.faults` says; a tree is removed entry by entry, and
an entry whose removal it refuses stays. A directory is made in one step with its ancestors. -/
namespace TaskHarbor

open Transaction

inductive StorageError where
  | io
  | invalidKey
  | join
  | usageOverflow
  deriving DecidableEq, Repr

abbrev Path := List String

instance : LawfulBEq Path := inferInstance

structure StoredFile where
  path : Path
  content : List UInt8
  modified : ℤ
  deriving DecidableEq

structure Storage where
  files : List StoredFile
  directories : List Path

abbrev FileSession (α : Type) := Transaction.Session Storage StorageError α

/-! ### Keys -/

/-- `resolve_key`: a leading `.` and every `..` are components of their own, other dots and empty
parts are dropped. -/
def resolveKey (key : String) : Except StorageError Path :=
  let parts := (key.toList.splitOn '/').map String.ofList
  if key.toList = [] ∨ '\\' ∈ key.toList ∨ ':' ∈ key.toList ∨ key.toList.head? = some '/' ∨
      parts.head? = some "." ∨ ".." ∈ parts then .error .invalidKey
  else .ok (parts.filter fun part => part != "" && part != ".")

/-- The key of a path. -/
def keyOf (path : Path) : String := String.ofList (['/'].intercalate (path.map String.toList))

/-- A part of a key that names a file or a directory. -/
structure PlainPart (part : String) : Prop where
  named : part ≠ "" ∧ part ≠ "." ∧ part ≠ ".."
  safe : ∀ c ∈ part.toList, c ≠ '/' ∧ c ≠ '\\' ∧ c ≠ ':'

theorem keyOf_singleton (part : String) : keyOf [part] = part := by
  simp [keyOf]

theorem keyOf_cons {part : String} {path : Path} (h : path ≠ []) :
    keyOf (part :: path) = part ++ "/" ++ keyOf path := by
  obtain ⟨next, rest, rfl⟩ := List.exists_cons_of_ne_nil h
  apply String.toList_inj.mp
  simp [keyOf, List.intercalate_cons_cons]

theorem mem_keyOf {path : Path} {c : Char} (hc : c ∈ (keyOf path).toList) :
    c = '/' ∨ ∃ part ∈ path, c ∈ part.toList := by
  induction path with
  | nil => simp [keyOf] at hc
  | cons part path ih =>
    by_cases hp : path = []
    · rw [hp, keyOf_singleton] at hc
      exact Or.inr ⟨part, List.mem_cons_self, hc⟩
    · rw [keyOf_cons hp] at hc
      simp only [String.toList_append, List.mem_append] at hc
      rcases hc with (hc | hc) | hc
      · exact Or.inr ⟨part, List.mem_cons_self, hc⟩
      · left
        simpa using hc
      · rcases ih hc with rfl | ⟨other, hother, hc⟩
        · exact Or.inl rfl
        · exact Or.inr ⟨other, List.mem_cons_of_mem _ hother, hc⟩

/-- The parts of a key are the components of its path. -/
theorem keyOf_parts {path : Path} (hne : path ≠ []) (hplain : ∀ part ∈ path, PlainPart part) :
    ((keyOf path).toList.splitOn '/').map String.ofList = path := by
  rw [keyOf, String.toList_ofList, List.splitOn_intercalate]
  · simp [Function.comp_def]
  · intro l hl
    obtain ⟨part, hpart, rfl⟩ := List.mem_map.mp hl
    exact fun h => ((hplain part hpart).safe '/' h).1 rfl
  · simpa using hne

/-- A path of plain parts is what its key resolves to. -/
theorem resolveKey_keyOf {path : Path} (hne : path ≠ [])
    (hplain : ∀ part ∈ path, PlainPart part) : resolveKey (keyOf path) = .ok path := by
  obtain ⟨first, rest, rfl⟩ := List.exists_cons_of_ne_nil hne
  have hfirst := hplain first List.mem_cons_self
  have hsafe : ∀ c ∈ (keyOf (first :: rest)).toList, c ≠ '\\' ∧ c ≠ ':' := by
    intro c hc
    rcases mem_keyOf hc with rfl | ⟨part, hpart, hc⟩
    · decide
    · exact ((hplain part hpart).safe c hc).2
  have hhead : ∃ c l, (keyOf (first :: rest)).toList = c :: l ∧ c ∈ first.toList := by
    have hchars : first.toList ≠ [] := by
      intro h
      exact hfirst.named.1 (String.toList_inj.mp (by simpa using h))
    obtain ⟨c, l, hl⟩ := List.exists_cons_of_ne_nil hchars
    by_cases hr : rest = []
    · subst hr
      rw [keyOf_singleton, hl]
      exact ⟨c, l, rfl, List.mem_cons_self⟩
    · rw [keyOf_cons hr]
      simp only [String.toList_append, hl, List.cons_append]
      exact ⟨c, _, rfl, List.mem_cons_self⟩
  obtain ⟨c, l, hkey, hc⟩ := hhead
  unfold resolveKey
  simp only [keyOf_parts hne hplain]
  rw [if_neg]
  · congr 1
    rw [List.filter_eq_self]
    intro part hpart
    obtain ⟨hempty, hdot, -⟩ := (hplain part hpart).named
    simp [hempty, hdot]
  · rintro (h | h | h | h | h | h)
    · rw [hkey] at h
      cases h
    · exact (hsafe _ h).1 rfl
    · exact (hsafe _ h).2 rfl
    · rw [hkey] at h
      cases h
      exact (hfirst.safe _ hc).1 rfl
    · cases h
      exact hfirst.named.2.1 rfl
    · exact (hplain _ h).named.2.2 rfl

/-! ### The text of a UUID -/

/-- The hexadecimal digits of `u`, of 32, from place `i` on. -/
def hexDigits (u : Uuid) (i n : ℕ) : List Char :=
  (List.range n).map fun k => Nat.digitChar (u / 16 ^ (31 - (i + k)) % 16)

/-- `Uuid::to_string`. -/
def uuidText (u : Uuid) : String :=
  String.ofList (hexDigits u 0 8 ++ '-' :: hexDigits u 8 4 ++ '-' :: hexDigits u 12 4 ++
    '-' :: hexDigits u 16 4 ++ '-' :: hexDigits u 20 12)

theorem digitChar_mem (n : ℕ) : Nat.digitChar (n % 16) ∈ "0123456789abcdef".toList := by
  have h : ∀ k : Fin 16, Nat.digitChar k ∈ "0123456789abcdef".toList := by decide
  exact h ⟨n % 16, Nat.mod_lt n (by decide)⟩

theorem mem_uuidText {u : Uuid} {c : Char} (hc : c ∈ (uuidText u).toList) :
    c ∈ "-0123456789abcdef".toList := by
  have hdigits : ∀ {i n : ℕ}, c ∈ hexDigits u i n → c ∈ "-0123456789abcdef".toList := by
    intro i n h
    obtain ⟨k, -, rfl⟩ := List.mem_map.mp h
    exact List.mem_cons_of_mem _ (digitChar_mem _)
  have hdash : c = '-' → c ∈ "-0123456789abcdef".toList := by
    rintro rfl
    decide
  simp only [uuidText, String.toList_ofList, List.mem_append, List.mem_cons] at hc
  rcases hc with (((h | h | h) | h | h) | h | h) | h | h
  all_goals first | exact hdigits h | exact hdash h

theorem uuidText_length (u : Uuid) : (uuidText u).length = 36 := by
  have hdigits : ∀ i n : ℕ, (hexDigits u i n).length = n := by
    intro i n
    rw [hexDigits, List.length_map, List.length_range]
  simp only [uuidText, String.length_ofList, List.length_append, List.length_cons, hdigits]

theorem plain_of_mem {part : String} (hlength : 2 < part.length)
    (h : ∀ c ∈ part.toList, c ≠ '/' ∧ c ≠ '\\' ∧ c ≠ ':') : PlainPart part where
  named := by
    refine ⟨?_, ?_, ?_⟩ <;> rintro rfl <;> exact absurd hlength (by decide)
  safe := h

theorem uuidText_plain (u : Uuid) : PlainPart (uuidText u) := by
  refine plain_of_mem (by rw [uuidText_length]; decide) fun c hc => ?_
  have h : ∀ c ∈ "-0123456789abcdef".toList, c ≠ '/' ∧ c ≠ '\\' ∧ c ≠ ':' := by decide
  exact h c (mem_uuidText hc)

theorem inputs_plain : PlainPart "inputs" := plain_of_mem (by decide) (by decide)

/-! ### The file system -/

/-- What the program asks of the file system. -/
inductive Access where
  | usage
  | createDirectory (path : Path)
  | createFile (path : Path)
  | write (path : Path) (offset : ℕ)
  | flush (path : Path)
  | metadata (path : Path)
  | removeFile (path : Path)
  | removeEntry (path : Path)

/-- A file system: the accesses that fail, and the time of the last write to each file. -/
structure Disk where
  faults : Access → Option StorageError
  modified : Path → ℤ

def Disk.attempt (disk : Disk) (access : Access) : Except StorageError Unit :=
  match disk.faults access with
  | none => .ok ()
  | some e => .error e

/-- `create_dir_all`: the directory and its missing ancestors, at once. -/
def Storage.createDirAll (st : Storage) (path : Path) : Storage :=
  { st with directories := st.directories ++
      path.inits.filter fun p => p != [] && !st.directories.contains p }

/-- `File::create`: an existing file is truncated. -/
def Storage.createFile (st : Storage) (path : Path) (modified : ℤ) : Storage :=
  { st with files := st.files.filter (fun f => f.path != path) ++ [⟨path, [], modified⟩] }

def Storage.append (st : Storage) (path : Path) (bytes : List UInt8) : Storage :=
  { st with files := st.files.map fun f =>
      if f.path = path then { f with content := f.content ++ bytes } else f }

/-- `remove_dir_all`. -/
def Storage.removeTree (st : Storage) (path : Path) : Storage where
  files := st.files.filter fun f => !path.isPrefixOf f.path
  directories := st.directories.filter fun d => !path.isPrefixOf d

/-- `remove_dir_all` on a file system that refuses to remove some entries. -/
def Disk.removeTree (disk : Disk) (path : Path) (st : Storage) : Storage where
  files := st.files.filter fun f =>
    !path.isPrefixOf f.path || (disk.faults (.removeEntry f.path)).isSome
  directories := st.directories.filter fun d =>
    !path.isPrefixOf d || (disk.faults (.removeEntry d)).isSome

/-- The error of `remove_dir_all`, where an entry stays. -/
def Disk.refusal (disk : Disk) (path : Path) (st : Storage) : Option StorageError :=
  ((st.files.map StoredFile.path ++ st.directories).filter path.isPrefixOf).findSome?
    fun p => disk.faults (.removeEntry p)

def Storage.read? (st : Storage) (path : Path) : Option (List UInt8) :=
  (st.files.find? fun f => f.path == path).map StoredFile.content

/-- The bytes of all files. -/
def Storage.bytes (st : Storage) : ℕ := (st.files.map fun f => f.content.length).sum

/-! ### `LocalStorage` -/

/-- `usage_bytes`. -/
def usageBytes (disk : Disk) : FileSession ℕ := do
  disk.attempt .usage
  query fun st => if st.bytes ≤ u64Max then .ok st.bytes else .error .usageOverflow

/-- `remove_tree`. -/
def removeTree (disk : Disk) (key : String) : FileSession Unit := do
  let path ← resolveKey key
  let refusal ← query fun st => .ok (disk.refusal path st)
  modify (disk.removeTree path)
  if let some e := refusal then throw e

structure UploadBatch where
  batchKey : String

/-- `begin_upload`; `id` is its fresh UUID. -/
def beginUpload (disk : Disk) (id : Uuid) : FileSession UploadBatch := do
  let batchKey := "inputs/" ++ uuidText id
  let path ← resolveKey batchKey
  disk.attempt (.createDirectory path)
  modify fun st => st.createDirAll path
  return ⟨batchKey⟩

/-- `UploadBatch::create_file`; `id` is its fresh UUID. -/
def UploadBatch.createFile (batch : UploadBatch) (disk : Disk) (id : Uuid) :
    FileSession (String × Path) := do
  let key := batch.batchKey ++ "/" ++ uuidText id
  let path ← resolveKey key
  disk.attempt (.createFile path)
  modify fun st => st.createFile path (disk.modified path)
  return (key, path)

/-- `UploadBatch::cleanup`. -/
def UploadBatch.cleanup (batch : UploadBatch) (disk : Disk) : FileSession Unit :=
  removeTree disk batch.batchKey

/-- `write_all` at an offset of the open file. -/
def writeAll (disk : Disk) (path : Path) (offset : ℕ) (chunk : List UInt8) : FileSession Unit := do
  disk.attempt (.write path offset)
  modify fun st => st.append path chunk

def flush (disk : Disk) (path : Path) : FileSession Unit := do
  disk.attempt (.flush path)

end TaskHarbor
