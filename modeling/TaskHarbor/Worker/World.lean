import Mathlib.Logic.Relation
import TaskHarbor.System.Cancel
import TaskHarbor.Worker.Task
import TaskHarbor.Worker.Upkeep

/-! A task among the others. Between two calls the rest of the system moves at will, except that
nobody else makes the calls of this claim, and its files see the upkeep of the storage only; a call
itself is one step, or its connection breaks before or after that step. -/
namespace TaskHarbor

open Interleaving Relational Transaction Runs

structure World where
  system : System
  storage : Storage

/-! ### The calls -/

/-- A session on the database as one step, or a connection that breaks before or after it. -/
inductive Commits {α : Type} (op : Op) (x : Session α) (w : World) :
    Except RepositoryError α → World → Prop
  | answered (s : System) (step : w.system.step op = some s) :
      Commits op x w (x w.system.db).1 { w with system := s }
  | broken (message : String) : Commits op x w (.error (.database message)) w
  | unheard (s : System) (message : String) (step : w.system.step op = some s) :
      Commits op x w (.error (.database message)) { w with system := s }

/-- `remove_dir_all` on a tree; a `faulty` storage may stop half way. -/
inductive Removal (faulty : Bool) (key : String) (st : Storage) :
    Except StorageError Unit → Storage → Prop
  | refused (e : StorageError) (key_eq : resolveKey key = .error e) :
      Removal faulty key st (.error e) st
  | removed (path : Path) (key_eq : resolveKey key = .ok path) :
      Removal faulty key st (.ok ()) (st.removeTree path)
  | stopped (e : StorageError) (path : Path) (st' : Storage) (key_eq : resolveKey key = .ok path)
      (fault : faulty = true) (outside : SameOutside path st st')
      (inside : ∀ q, st'.read? q = none ∨ st'.read? q = st.read? q) :
      Removal faulty key st (.error e) st'

/-- A stopwatch shows less than 2 ^ 63 milliseconds. -/
def Measured (duration : ℕ) : Prop := duration ≤ i64Max

/-- What each call may answer and change. The usage walk reads sizes that others change under it,
so its answer is arbitrary. -/
def Handles (images : ImageService) (codec : JpegCodec) (faulty : Bool) (w : World) :
    (q : TaskRequest) → q.Reply → World → Prop
  | .cancellationRequested claimed, r, w' => w' = w ∧
      (r = cancellationRequested claimed w.system.now w.system.db ∨
        ∃ message, r = .error (.database message))
  | .finishCancelled claimed duration, r, w' =>
      Commits (.finishCancelled claimed duration)
        (finishCancelled claimed duration w.system.now) w r w'
  | .complete claimed duration, r, w' =>
      Commits (.complete claimed duration) (complete claimed duration w.system.now) w r w'
  | .completeImageJob claimed duration outputs, r, w' =>
      Commits (.completeImageJob claimed duration outputs)
        (completeImageJob claimed duration outputs w.system.now) w r w'
  | .recordEncodingDuration claimed duration, r, w' =>
      Commits (.recordEncodingDuration claimed duration)
        (recordEncodingDuration claimed duration w.system.now) w r w'
  | .recordFailure claimed duration kind message, r, w' =>
      Commits (.recordFailure claimed duration kind message)
        (recordFailure claimed duration kind message w.system.now) w r w'
  | .updateProgress claimed completed, r, w' =>
      Commits (.updateProgress claimed completed)
        (updateProgress claimed completed w.system.now) w r w'
  | .elapsed _, duration, w' => w' = w ∧ Measured duration
  | .sleep _, _, w' => w' = w
  | .resizeToJpeg inputKey outputKey maxWidth jpegQuality, r, w' => ∃ disk st,
      resizeToJpeg images codec disk inputKey outputKey maxWidth jpegQuality w.storage = (r, st) ∧
        w' = { w with storage := st }
  | .usageBytes, _, w' => w' = w
  | .removeTree key, r, w' => ∃ st, Removal faulty key w.storage r st ∧
      w' = { w with storage := st }

/-- A session on the database as one step. -/
def World.commit {α : Type} (w : World) (op : Op) (x : Session α) :
    Except RepositoryError α × World :=
  match w.system.step op with
  | some s => ((x w.system.db).1, { w with system := s })
  | none => (.error (.database "connection closed"), w)

def World.discard (w : World) (disk : Disk) (key : String) : Except StorageError Unit × World :=
  let (r, st) := removeTree disk key w.storage
  (r, { w with storage := st })

/-- The task alone with its database and its files, in no time. -/
def World.serve (images : ImageService) (codec : JpegCodec) (disk : Disk) (w : World) :
    (q : TaskRequest) → q.Reply × World
  | .cancellationRequested claimed =>
      (cancellationRequested claimed w.system.now w.system.db, w)
  | .finishCancelled claimed duration =>
      w.commit (.finishCancelled claimed duration) (finishCancelled claimed duration w.system.now)
  | .complete claimed duration =>
      w.commit (.complete claimed duration) (complete claimed duration w.system.now)
  | .completeImageJob claimed duration outputs =>
      w.commit (.completeImageJob claimed duration outputs)
        (completeImageJob claimed duration outputs w.system.now)
  | .recordEncodingDuration claimed duration =>
      w.commit (.recordEncodingDuration claimed duration)
        (recordEncodingDuration claimed duration w.system.now)
  | .recordFailure claimed duration kind message =>
      w.commit (.recordFailure claimed duration kind message)
        (recordFailure claimed duration kind message w.system.now)
  | .updateProgress claimed completed =>
      w.commit (.updateProgress claimed completed)
        (updateProgress claimed completed w.system.now)
  | .elapsed _ => ((0 : ℕ), w)
  | .sleep _ => ((), w)
  | .resizeToJpeg inputKey outputKey maxWidth jpegQuality =>
      let (r, st) :=
        resizeToJpeg images codec disk inputKey outputKey maxWidth jpegQuality w.storage
      (r, { w with storage := st })
  | .usageBytes => (.ok w.storage.bytes, w)
  | .removeTree key => w.discard disk key

theorem World.commit_commits {α : Type} (w : World) (op : Op) (x : Session α) :
    Commits op x w (w.commit op x).1 (w.commit op x).2 := by
  unfold World.commit
  cases hstep : w.system.step op with
  | none => exact .broken _
  | some s => exact .answered s hstep

/-- `remove_tree` removes, and stops half way on a faulty storage only. -/
theorem removeTree_removal {disk : Disk} {faulty : Bool}
    (hquiet : faulty = false → ∀ p, disk.Removes p) (key : String) (st : Storage) :
    Removal faulty key st (removeTree disk key st).1 (removeTree disk key st).2 := by
  cases hkey : resolveKey key with
  | error e =>
    unfold removeTree
    rw [Session.bind_run, Session.liftExcept_run, hkey]
    exact .refused e hkey
  | ok path =>
    rw [removeTree_run disk hkey]
    cases hrefusal : disk.refusal path st with
    | none =>
      rw [Disk.removeTree_unrefused hrefusal]
      exact .removed path hkey
    | some e =>
      refine .stopped e path _ hkey ?_ (disk.removeTree_outside path st)
        (disk.removeTree_shrinks path st)
      cases faulty with
      | true => rfl
      | false =>
        rw [(hquiet rfl path).refusal st] at hrefusal
        cases hrefusal

theorem World.serve_handles (images : ImageService) (codec : JpegCodec) {disk : Disk}
    {faulty : Bool} (hquiet : faulty = false → ∀ p, disk.Removes p) (w : World) (q : TaskRequest) :
    Handles images codec faulty w q (w.serve images codec disk q).1
      (w.serve images codec disk q).2 := by
  cases q with
  | cancellationRequested claimed => exact ⟨rfl, Or.inl rfl⟩
  | elapsed stopwatch => exact ⟨rfl, Nat.zero_le _⟩
  | sleep delay => exact rfl
  | resizeToJpeg inputKey outputKey maxWidth jpegQuality => exact ⟨disk, _, rfl, rfl⟩
  | usageBytes => exact rfl
  | removeTree key => exact ⟨_, removeTree_removal hquiet key w.storage, rfl⟩
  | _ => exact w.commit_commits _ _

/-! ### The others -/

/-- The steps of the others: no call of this claim but its renewal, which runs beside the task. -/
def Op.Beside (claimed : ClaimedJob) (op : Op) : Prop :=
  op.Foreign claimed.attemptId ∨ op = .renewLease claimed

/-- One move of another party. -/
inductive Other (claimed : ClaimedJob) (w : World) : World → Prop
  | system (op : Op) (s : System) (beside : op.Beside claimed) (step : w.system.step op = some s) :
      Other claimed w { w with system := s }
  | storage (st : Storage) (upkeep : Upkeep claimed w.system w.storage st) :
      Other claimed w { w with storage := st }

def Others (claimed : ClaimedJob) : World → World → Prop := Relation.ReflTransGen (Other claimed)

theorem Others.refl (claimed : ClaimedJob) (w : World) : Others claimed w w :=
  Relation.ReflTransGen.refl

theorem Others.trans {claimed : ClaimedJob} (u v w : World) (h : Others claimed u v)
    (h' : Others claimed v w) : Others claimed u w := Relation.ReflTransGen.trans h h'

/-- The others cannot break `P`. -/
def Stable (claimed : ClaimedJob) (P : World → Prop) : Prop :=
  ∀ w w', Other claimed w w' → P w → P w'

theorem Stable.others {claimed : ClaimedJob} {P : World → Prop} (hP : Stable claimed P)
    {w w' : World} (h : Others claimed w w') (hw : P w) : P w' := by
  induction h with
  | refl => exact hw
  | tail _ hlast ih => exact hP _ _ hlast ih

theorem stable_true (claimed : ClaimedJob) : Stable claimed fun _ => True := fun _ _ _ _ => trivial

theorem stable_const {claimed : ClaimedJob} (p : Prop) : Stable claimed fun _ => p :=
  fun _ _ _ hp => hp

theorem Stable.and {claimed : ClaimedJob} {P Q : World → Prop} (hP : Stable claimed P)
    (hQ : Stable claimed Q) : Stable claimed fun w => P w ∧ Q w :=
  fun w w' h hw => ⟨hP w w' h hw.1, hQ w w' h hw.2⟩

/-! ### What the task may rely on -/

section Rely

variable {claimed : ClaimedJob} {s t : System} {w : World} {op : Op} {n : ℕ}

theorem ClaimedJob.HeldIn.step (h : claimed.HeldIn s) (hstep : s.step op = some t) :
    claimed.HeldIn t :=
  h.run (Run.single op trivial hstep : Run System.step Always s t)

theorem ClaimedJob.HeldIn.lost_step (h : claimed.HeldIn s) (hlost : claimed.Lost s.db s.now)
    (hstep : s.step op = some t) : claimed.Lost t.db t.now :=
  hlost.run h.reachable.inv h.mem (Run.single op trivial hstep : Run System.step Always s t)

/-- A renewal writes the lease and nothing else. -/
theorem renewLease_writes {db : Db} {now : ℤ} :
    (renewLease claimed none now db).2 = db ∨ ∃ a e,
      db.jobAttempts.get? claimed.attemptId = some a ∧
        (renewLease claimed none now db).2 = db.setAttempt { a with leaseExpiresAt := e } := by
  unfold renewLease
  rcases commit_cases (renewLeaseTx claimed none now) db with ⟨e, db', htx, hc⟩ | ⟨e, -, hc⟩
  · obtain ⟨a, r, worker, hlive, -, -, -, rfl⟩ := renewLeaseTx_ok.mp htx
    exact Or.inr ⟨a, some e, hlive.attempt, by rw [hc]⟩
  · exact Or.inl (by rw [hc])

/-- What a step of the others leaves of the attempt row. -/
theorem Op.Beside.attempt (h : op.Beside claimed) (hstep : s.step op = some t) {a : AttemptRow}
    (ha : s.db.jobAttempts.get? claimed.attemptId = some a) :
    ∃ a', t.db.jobAttempts.get? claimed.attemptId = some a' ∧
      (a'.GivenUp ∨ a'.state = a.state ∧ a'.progressCompleted = a.progressCompleted) := by
  rcases h with hforeign | rfl
  · rcases System.step_overlooks hstep hforeign with hleaves | ⟨asOf, -, hoverlooks⟩
    · exact ⟨a, hleaves a ha, Or.inr ⟨rfl, rfl⟩⟩
    · rcases hoverlooks a ha with hsame | ⟨-, a', ha', hgiven⟩
      · exact ⟨a, hsame, Or.inr ⟨rfl, rfl⟩⟩
      · exact ⟨a', ha', Or.inl hgiven⟩
  · obtain ⟨-, rfl⟩ := System.step_eq_some.mp hstep
    show ∃ a', (TaskHarbor.renewLease claimed none s.now s.db).2.jobAttempts.get?
      claimed.attemptId = some a' ∧ _
    rcases @renewLease_writes claimed s.db s.now with hsame | hwrites
    · rw [hsame]
      exact ⟨a, ha, Or.inr ⟨rfl, rfl⟩⟩
    · obtain ⟨b, e, hb, hwrites⟩ := hwrites
      obtain rfl : a = b := Option.some.inj (ha.symm.trans hb)
      have hkey : a.id = claimed.attemptId := Table.key_of_get? ha
      refine ⟨{ a with leaseExpiresAt := e }, ?_, Or.inr ⟨rfl, rfl⟩⟩
      rw [hwrites, ← hkey]
      exact Table.get?_put_self (hkey ▸ ha) rfl

/-- The claim is held, its attempt has not succeeded, and `n` units are done as long as it runs. -/
structure Holding (claimed : ClaimedJob) (n : ℕ) (w : World) : Prop where
  held : claimed.HeldIn w.system
  standing : ∀ a, w.system.db.jobAttempts.get? claimed.attemptId = some a →
    a.state ≠ .succeeded ∧ (a.state = .running → a.progressCompleted = n)

/-- A cancel of the job was requested. -/
def Asked (claimed : ClaimedJob) (w : World) : Prop :=
  claimed.HeldIn w.system ∧
    ∃ r, w.system.db.jobs.get? claimed.jobId.get = some r ∧ r.state.isCancelling = true

/-- The claim is lost, or it is one of an image job that is being cancelled. -/
structure Concluded (claimed : ClaimedJob) (w : World) : Prop where
  held : claimed.HeldIn w.system
  ended : claimed.Lost w.system.db w.system.now ∨
    (∃ maxWidth jpegQuality inputs, claimed.work = .imageResize maxWidth jpegQuality inputs) ∧
      Asked claimed w

/-- The file of an output is in its place, with the size that its row will show. -/
structure Placed (claimed : ClaimedJob) (st : Storage) (o : PendingOutputArtifact) : Prop where
  key : o.storageKey = outputKey claimed.jobId.get claimed.attemptId o.sourceArtifactId
  file : ∃ bytes,
    st.read? (outputPath claimed.jobId.get claimed.attemptId o.sourceArtifactId) = some bytes ∧
      bytes.length = o.byteSize

/-- The files of the outputs are in their places as long as the claim is not lost. -/
def Shelved (claimed : ClaimedJob) (outputs : List PendingOutputArtifact) (w : World) : Prop :=
  claimed.HeldIn w.system ∧
    (claimed.Lost w.system.db w.system.now ∨ ∀ o ∈ outputs, Placed claimed w.storage o)

theorem stable_heldIn : Stable claimed fun w => claimed.HeldIn w.system := by
  intro w w' hother h
  cases hother with
  | system op s beside step => exact h.step step
  | storage st upkeep => exact h

theorem stable_lost :
    Stable claimed fun w => claimed.HeldIn w.system ∧ claimed.Lost w.system.db w.system.now := by
  intro w w' hother h
  cases hother with
  | system op s beside step => exact ⟨h.1.step step, h.1.lost_step h.2 step⟩
  | storage st upkeep => exact h

theorem stable_holding (n : ℕ) : Stable claimed (Holding claimed n) := by
  intro w w' hother h
  cases hother with
  | storage st upkeep => exact ⟨h.held, h.standing⟩
  | system op s beside step =>
    refine ⟨h.held.step step, fun a' ha' => ?_⟩
    obtain ⟨a, ha, -⟩ := h.held.issued.attempt
    obtain ⟨b, hb, hgiven | ⟨hstate, hprogress⟩⟩ := beside.attempt step ha
    · obtain rfl : b = a' := Option.some.inj (hb.symm.trans ha')
      exact ⟨hgiven.closed.2, fun hrunning => absurd hrunning hgiven.closed.1⟩
    · obtain rfl : b = a' := Option.some.inj (hb.symm.trans ha')
      rw [hstate, hprogress]
      exact h.standing a ha

theorem Asked.step (h : Asked claimed w) (hstep : w.system.step op = some t) :
    Asked claimed { w with system := t } := by
  obtain ⟨hheld, r, hr, hc⟩ := h
  exact ⟨hheld.step hstep, ((System.step_db hheld.reachable.inv hstep).turns
    claimed.jobId.get).cancelling hr hc⟩

theorem stable_asked : Stable claimed (Asked claimed) := by
  intro w w' hother h
  cases hother with
  | system op s beside step => exact h.step step
  | storage st upkeep => exact h

theorem stable_concluded : Stable claimed (Concluded claimed) := by
  intro w w' hother h
  refine ⟨stable_heldIn w w' hother h.held, ?_⟩
  rcases h.ended with hlost | ⟨hwork, hasked⟩
  · exact Or.inl (stable_lost w w' hother ⟨h.held, hlost⟩).2
  · exact Or.inr ⟨hwork, stable_asked w w' hother hasked⟩

theorem stable_shelved (outputs : List PendingOutputArtifact) :
    Stable claimed (Shelved claimed outputs) := by
  intro w w' hother h
  refine ⟨stable_heldIn w w' hother h.1, ?_⟩
  by_cases hlost : claimed.Lost w.system.db w.system.now
  · exact Or.inl (stable_lost w w' hother ⟨h.1, hlost⟩).2
  · have hplaced := h.2.resolve_left hlost
    right
    intro o ho
    obtain ⟨hkey, bytes, hfile, hsize⟩ := hplaced o ho
    refine ⟨hkey, bytes, ?_, hsize⟩
    cases hother with
    | system op s beside step => exact hfile
    | storage st upkeep =>
      refine (upkeep.running h.1 hlost _ ?_).trans hfile
      exact attemptPath_under_iff.mpr ⟨rfl, rfl⟩

/-- A held claim without a success shows no outputs. -/
theorem Holding.unpublished (h : Holding claimed n w) :
    w.system.db.publishedBy claimed.attemptId = [] :=
  h.held.reachable.publishedBy fun a ha => (h.standing a ha).1

end Rely

end TaskHarbor
