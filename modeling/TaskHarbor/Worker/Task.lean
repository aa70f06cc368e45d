import TaskHarbor.Library.Program
import TaskHarbor.Lifecycle.OutputName
import TaskHarbor.Repository.Worker
import TaskHarbor.Storage.Process
import TaskHarbor.Storage.Protection

/-! `apps/worker/src/lib.rs`: what a worker does with one claim, from `process_claimed` down, as
programs that wait for one answer after another. Log lines are left out. -/
namespace TaskHarbor

open Interleaving

/-! ### Calls -/

/-- The two stopwatches of an attempt: `started_at` and `encoding_started_at`. -/
inductive Stopwatch where
  | started
  | encodingStarted

/-- What a task waits for. -/
inductive TaskRequest where
  | cancellationRequested (claimed : ClaimedJob)
  | finishCancelled (claimed : ClaimedJob) (duration : ℕ)
  | complete (claimed : ClaimedJob) (duration : ℕ)
  | completeImageJob (claimed : ClaimedJob) (duration : ℕ) (outputs : List PendingOutputArtifact)
  | recordEncodingDuration (claimed : ClaimedJob) (duration : ℕ)
  | recordFailure (claimed : ClaimedJob) (duration : ℕ) (kind : FailureKind) (message : String)
  | updateProgress (claimed : ClaimedJob) (completed : ℕ)
  | elapsed (stopwatch : Stopwatch)
  | sleep (delay : ℕ)
  | resizeToJpeg (inputKey outputKey : String) (maxWidth jpegQuality : ℕ)
  | usageBytes
  | removeTree (key : String)

def TaskRequest.Reply : TaskRequest → Type
  | cancellationRequested _ => Except RepositoryError Bool
  | finishCancelled _ _ => Except RepositoryError Unit
  | complete _ _ => Except RepositoryError Unit
  | completeImageJob _ _ _ => Except RepositoryError Unit
  | recordEncodingDuration _ _ => Except RepositoryError Unit
  | recordFailure _ _ _ _ => Except RepositoryError FailureDisposition
  | updateProgress _ _ => Except RepositoryError Unit
  | elapsed _ => ℕ
  | sleep _ => Unit
  | resizeToJpeg _ _ _ _ => Except ImageError ProcessedImage
  | usageBytes => Except StorageError ℕ
  | removeTree _ => Except StorageError Unit

abbrev TaskProgram (α : Type) := Program TaskRequest TaskRequest.Reply α

abbrev Task (α : Type) := ExceptT RepositoryError (Program TaskRequest TaskRequest.Reply) α

def TaskRequest.send (q : TaskRequest) : TaskProgram q.Reply := .perform q

/-- A call whose answer the caller looks at. -/
def observe (q : TaskRequest) : Task q.Reply := ExceptT.lift q.send

/-- A call whose error ends the caller. -/
def demand {α : Type} (call : TaskProgram (Except RepositoryError α)) : Task α := ExceptT.mk call

/-! ### Ends of an attempt -/

/-- `cleanup_attempt_outputs`; an error is logged only. -/
def cleanupAttemptOutputs (claimed : ClaimedJob) : TaskProgram Unit := do
  let _ ← (TaskRequest.removeTree
    (attemptOutputPrefix claimed.jobId.get claimed.attemptId)).send
  return ()

/-- `finish_if_cancel_requested`. -/
def finishIfCancelRequested (claimed : ClaimedJob) : Task Bool := do
  let requested ← demand (TaskRequest.cancellationRequested claimed).send
  if requested then do
    ExceptT.lift (cleanupAttemptOutputs claimed)
    let duration ← observe (.elapsed .started)
    demand (TaskRequest.finishCancelled claimed duration).send
    return true
  else return false

/-- What every caller does with the answer of a guarded update: a `StateConflict` may be a cancel
request that came first. Answers whether it was. -/
def overtaken {α : Type} (claimed : ClaimedJob) (answer : Except RepositoryError α) : Task Bool :=
  match answer with
  | .ok _ => return false
  | .error (.stateConflict operation) => do
      if ← finishIfCancelRequested claimed then return true
      else throw (.stateConflict operation)
  | .error error => throw error

/-- `record_image_failure`. -/
def recordImageFailure (claimed : ClaimedJob) (kind : FailureKind) (message : String) :
    Task Unit := do
  ExceptT.lift (cleanupAttemptOutputs claimed)
  let duration ← observe (.elapsed .started)
  let failure ← observe (.recordFailure claimed duration kind message)
  let _ ← overtaken claimed failure
  return ()

/-! ### Images -/

/-- The artifact that `process_images` will publish for an input. -/
def pendingOutput (input : ArtifactRecord) (processed : ProcessedImage) :
    PendingOutputArtifact where
  sourceArtifactId := input.id
  itemIndex := input.itemIndex
  storageKey := processed.storageKey
  displayName := outputName input.displayName
  mediaType := processed.mediaType
  byteSize := processed.byteSize
  width := processed.width
  height := processed.height

/-- The second half of the loop body: the new file fits the budget, and the progress is stored. -/
def acceptOutput (claimed : ClaimedJob) (storageBudgetBytes completed : ℕ) (input : ArtifactRecord)
    (processed : ProcessedImage) : Task (Option PendingOutputArtifact) := do
  match ← observe .usageBytes with
  | .error _ => do
      recordImageFailure claimed .transient "storage usage could not be measured"
      return none
  | .ok usage =>
      if storageBudgetBytes < usage then do
        recordImageFailure claimed .permanent "storage budget exceeded while writing output"
        return none
      else if ← finishIfCancelRequested claimed then return none
      else if u32Max < completed + 1 then throw (.invalidData "image progress exceeds u32")
      else do
        let progress ← observe (.updateProgress claimed (completed + 1))
        if ← overtaken claimed progress then return none
        else return some (pendingOutput input processed)

/-- The body of the loop of `process_images`; `none` when the attempt is over. -/
def processInput (claimed : ClaimedJob) (maxWidth jpegQuality storageBudgetBytes completed : ℕ)
    (input : ArtifactRecord) : Task (Option PendingOutputArtifact) := do
  if ← finishIfCancelRequested claimed then return none
  else do
    let key := outputKey claimed.jobId.get claimed.attemptId input.id
    let processingResult ← observe (.resizeToJpeg input.storageKey key maxWidth jpegQuality)
    let encodingDuration ← observe (.elapsed .encodingStarted)
    demand (TaskRequest.recordEncodingDuration claimed encodingDuration).send
    match processingResult with
    | .error imageError => do
        recordImageFailure claimed imageError.failureKind imageError.safeMessage
        return none
    | .ok processed => acceptOutput claimed storageBudgetBytes completed input processed

/-- The loop of `process_images`. -/
def processInputs (claimed : ClaimedJob) (maxWidth jpegQuality storageBudgetBytes : ℕ) :
    ℕ → List ArtifactRecord → List PendingOutputArtifact →
      Task (Option (List PendingOutputArtifact))
  | _, [], outputs => return some outputs
  | completed, input :: inputs, outputs => do
      match ← processInput claimed maxWidth jpegQuality storageBudgetBytes completed input with
      | none => return none
      | some output =>
          processInputs claimed maxWidth jpegQuality storageBudgetBytes (completed + 1) inputs
            (outputs ++ [output])

/-- `process_images`. -/
def processImages (claimed : ClaimedJob) (inputs : List ArtifactRecord)
    (maxWidth jpegQuality storageBudgetBytes : ℕ) : Task Unit := do
  match ← processInputs claimed maxWidth jpegQuality storageBudgetBytes 0 inputs [] with
  | none => return ()
  | some outputs =>
      if ← finishIfCancelRequested claimed then return ()
      else do
        let duration ← observe (.elapsed .started)
        let answer ← observe (.completeImageJob claimed duration outputs)
        let _ ← overtaken claimed answer
        return ()

/-! ### One claim -/

/-- `process_claimed_inner`. -/
def processClaimedInner (claimed : ClaimedJob) (storageBudgetBytes : ℕ) : Task Unit :=
  match claimed.work with
  | .demoDelay delay => do
      observe (.sleep delay)
      if ← finishIfCancelRequested claimed then return ()
      else do
        let duration ← observe (.elapsed .started)
        let answer ← observe (.complete claimed duration)
        let _ ← overtaken claimed answer
        return ()
  | .imageResize maxWidth jpegQuality inputs =>
      processImages claimed inputs maxWidth jpegQuality storageBudgetBytes

/-- `finish_claimed_result`: a lost claim is no error of the task. -/
def finishClaimedResult (claimed : ClaimedJob) (result : Except RepositoryError Unit) :
    TaskProgram (Except RepositoryError Unit) :=
  match result with
  | .error .claimLost => do
      cleanupAttemptOutputs claimed
      return .ok ()
  | result => return result

/-- `process_claimed`. -/
def processClaimed (claimed : ClaimedJob) : Task Unit := ExceptT.mk do
  let result ← (processClaimedInner claimed u64Max).run
  finishClaimedResult claimed result

end TaskHarbor
