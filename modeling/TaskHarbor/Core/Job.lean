import TaskHarbor.Core.Text

/-! The domain types of `crates/core` and the error type of the repository. -/
namespace TaskHarbor

abbrev Uuid := ℕ

def u8Max : ℕ := 255

def i16Max : ℕ := 32767

def i32Max : ℕ := 2147483647

def i64Max : ℕ := 9223372036854775807

def u32Max : ℕ := 4294967295

def u64Max : ℕ := 18446744073709551615

/-- `RepositoryError` without the migration case. A database error carries the constraint or the
condition PostgreSQL reports. -/
inductive RepositoryError where
  | database (condition : String)
  | invalidData (message : String)
  | stateConflict (operation : String)
  | idempotencyConflict
  | claimLost
  deriving DecidableEq, Repr

structure JobId where
  get : ℕ
  positive : 0 < get
  bounded : get ≤ i64Max
  deriving DecidableEq

theorem JobId.ext {i j : JobId} (h : i.get = j.get) : i = j := by
  cases i
  cases j
  cases h
  rfl

/-- `JobId::new`. -/
def JobId.new (value : ℕ) : Option JobId :=
  if h : 0 < value ∧ value ≤ i64Max then some ⟨value, h.1, h.2⟩ else none

theorem JobId.new_get (i : JobId) : JobId.new i.get = some i :=
  dif_pos ⟨i.positive, i.bounded⟩

structure ScheduleId where
  get : ℕ
  positive : 0 < get
  bounded : get ≤ i64Max
  deriving DecidableEq

/-- `ScheduleId::new`. -/
def ScheduleId.new (value : ℕ) : Option ScheduleId :=
  if h : 0 < value ∧ value ≤ i64Max then some ⟨value, h.1, h.2⟩ else none

theorem ScheduleId.new_get (i : ScheduleId) : ScheduleId.new i.get = some i :=
  dif_pos ⟨i.positive, i.bounded⟩

def maxJobNameLength : ℕ := 100

/-- A name that passed `JobName::new`. -/
structure JobName where
  asStr : String
  nonblank : ∃ c ∈ asStr.toList, isWhitespace c = false
  short : asStr.length ≤ maxJobNameLength

inductive JobNameError where
  | empty
  | tooLong (max actual : ℕ)
  deriving DecidableEq, Repr

/-- `value.trim().is_empty()`, then the length in code points. -/
def JobName.new (value : String) : Except JobNameError JobName :=
  if hb : ∃ c ∈ value.toList, isWhitespace c = false then
    if hs : value.length ≤ maxJobNameLength then .ok ⟨value, hb, hs⟩
    else .error (.tooLong maxJobNameLength value.length)
  else .error .empty

theorem JobName.new_asStr (name : JobName) : JobName.new name.asStr = .ok name := by
  rw [JobName.new, dif_pos name.nonblank, dif_pos name.short]

theorem JobName.asStr_of_new {value : String} {name : JobName} (h : JobName.new value = .ok name) :
    name.asStr = value := by
  unfold JobName.new at h
  split at h
  · split at h
    · cases h
      rfl
    · cases h
  · cases h

/-- Every name meets the name constraints of the schema, which know ASCII spaces only. -/
theorem JobName.btrim (name : JobName) : btrimLengthBetween 100 name.asStr = true := by
  obtain ⟨c, hc, hblank⟩ := name.nonblank
  refine (btrimLengthBetween_iff name.short).mpr ⟨c, hc, ?_⟩
  rintro rfl
  exact absurd hblank (by decide)

/-- The test of `JobName.new` is the emptiness of the trimmed text. -/
theorem trim_ne_empty_iff (value : String) :
    trim value ≠ "" ↔ ∃ c ∈ value.toList, isWhitespace c = false := by
  rw [trim, ne_eq, String.ofList_eq_empty_iff, trimBy_eq_nil]
  simp

inductive JobStatus where
  | queued
  | running
  | retryWaiting
  | cancelRequested
  | succeeded
  | failed
  | cancelled
  deriving DecidableEq, Repr

/-- The states that `claim_next` selects. -/
def JobStatus.isPending : JobStatus → Bool
  | .queued | .retryWaiting => true
  | _ => false

/-- The states of a job whose attempt is running. -/
def JobStatus.isActive : JobStatus → Bool
  | .running | .cancelRequested => true
  | _ => false

def JobStatus.isTerminal : JobStatus → Bool
  | .succeeded | .failed | .cancelled => true
  | _ => false

inductive JobType where
  | demoDelay
  | imageResize
  deriving DecidableEq, Repr

inductive JobPriority where
  | high
  | normal
  | low
  deriving DecidableEq, Repr

/-- `JobPriority::from_str`. -/
def JobPriority.fromStr : String → Option JobPriority
  | "high" => some .high
  | "normal" => some .normal
  | "low" => some .low
  | _ => none

/-- `JobPriority::as_str`. -/
def JobPriority.asStr : JobPriority → String
  | .high => "high"
  | .normal => "normal"
  | .low => "low"

/-- The rank in the queue order of `claim_next`. -/
def JobPriority.rank : JobPriority → ℕ
  | .high => 0
  | .normal => 1
  | .low => 2

inductive AttemptStatus where
  | running
  | succeeded
  | failed
  | cancelled
  deriving DecidableEq, Repr

inductive ErrorKind where
  | transient
  | permanent
  | cancelled
  deriving DecidableEq, Repr

inductive FailureKind where
  | transient
  | permanent
  deriving DecidableEq, Repr

/-- `FailureKind::as_str` as the `error_kind` column reads it. -/
def FailureKind.errorKind : FailureKind → ErrorKind
  | .transient => .transient
  | .permanent => .permanent

inductive ArtifactKind where
  | input
  | output
  deriving DecidableEq, Repr

end TaskHarbor
