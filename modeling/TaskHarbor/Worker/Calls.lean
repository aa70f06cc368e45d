import TaskHarbor.Worker.World

/-! What a task knows before and after each of its calls. `Achieves` is the postcondition of a
program that may fail: with `ClaimLost` on a concluded claim, and otherwise by the database only. -/
namespace TaskHarbor

open Interleaving Relational Transaction Runs

/-- The outputs are one for each input of the claim, in order, and can be stored. -/
structure Fills (claimed : ClaimedJob) (outputs : List PendingOutputArtifact) : Prop where
  inputs : ∃ maxWidth jpegQuality inputs,
    claimed.work = .imageResize maxWidth jpegQuality inputs ∧
      outputs.map (fun o => (o.sourceArtifactId, o.itemIndex)) =
        inputs.map fun i => (i.id, i.itemIndex)
  storable : ∀ o ∈ outputs, o.Storable

/-- What a call must find: it is about the claim of the task, no published output is touched, and a
publication finds its files. -/
def Safe (claimed : ClaimedJob) : TaskRequest → World → Prop
  | .cancellationRequested c, _ | .finishCancelled c _, _ | .complete c _, _
  | .recordEncodingDuration c _, _ | .recordFailure c _ _ _, _ | .updateProgress c _, _ =>
      c = claimed
  | .completeImageJob c duration outputs, w =>
      c = claimed ∧ Measured duration ∧ Fills claimed outputs ∧ Shelved claimed outputs w
  | .resizeToJpeg _ key _ _, w =>
      (∃ id, key = outputKey claimed.jobId.get claimed.attemptId id) ∧
        w.system.db.publishedBy claimed.attemptId = []
  | .removeTree key, w => key = attemptOutputPrefix claimed.jobId.get claimed.attemptId ∧
      w.system.db.publishedBy claimed.attemptId = []
  | .elapsed _, _ | .sleep _, _ | .usageBytes, _ => True

/-- How a program of the task ends. -/
def TaskEnds (claimed : ClaimedJob) {α : Type} (post : α → World → Prop) :
    Except RepositoryError α → World → Prop
  | .ok a, w => post a w
  | .error .claimLost, w => Concluded claimed w ∧ ∃ n, Holding claimed n w
  | .error (.database _), _ => True
  | .error _, _ => False

section Achieves

variable (images : ImageService) (codec : JpegCodec) (faulty : Bool) (claimed : ClaimedJob)

structure Performs {α : Type} (post : α → World → Prop) (p : TaskProgram α) (w : World) :
    Prop where
  meets : Meets (Others claimed) (Handles images codec faulty) (Safe claimed) post p w

structure Achieves {α : Type} (post : α → World → Prop) (x : Task α) (w : World) : Prop where
  meets :
    Meets (Others claimed) (Handles images codec faulty) (Safe claimed) (TaskEnds claimed post)
    x.run w

end Achieves

section Rules

variable {images : ImageService} {codec : JpegCodec} {faulty : Bool} {claimed : ClaimedJob}
  {α β : Type} {w : World}

theorem stable_taskEnds {post : α → World → Prop} (hpost : ∀ a, Stable claimed (post a))
    (r : Except RepositoryError α) : Stable claimed (TaskEnds claimed post r) := by
  cases r with
  | ok a => exact hpost a
  | error e =>
    cases e with
    | claimLost =>
      rintro w w' hother ⟨hconcluded, n, hholding⟩
      exact ⟨stable_concluded w w' hother hconcluded, n, stable_holding n w w' hother hholding⟩
    | _ => exact stable_const _

theorem TaskEnds.imp {post post' : α → World → Prop} {r : Except RepositoryError α}
    (h : TaskEnds claimed post r w) (himp : ∀ a, post a w → post' a w) :
    TaskEnds claimed post' r w := by
  cases r with
  | ok a => exact himp a h
  | error e => cases e <;> exact h

/-- The errors of a program do not depend on what it achieves. -/
theorem TaskEnds.error {post : α → World → Prop} {post' : β → World → Prop} {e : RepositoryError}
    (h : TaskEnds claimed post (.error e) w) : TaskEnds claimed post' (.error e) w := by
  cases e <;> exact h

theorem Performs.consequence {post post' : α → World → Prop} {p : TaskProgram α}
    (h : Performs images codec faulty claimed post p w) (himp : ∀ a w, post a w → post' a w) :
    Performs images codec faulty claimed post' p w := ⟨h.meets.consequence himp⟩

theorem performs_done {post : α → World → Prop} {a : α} (hpost : Stable claimed (post a))
    (h : post a w) : Performs images codec faulty claimed post (.done a) w :=
  ⟨meets_done fun _ hw => hpost.others hw h⟩

theorem performs_bind {post : β → World → Prop} {p : TaskProgram α} {f : α → TaskProgram β}
    (h : Performs images codec faulty claimed
      (fun a w => Performs images codec faulty claimed post (f a) w) p w) :
    Performs images codec faulty claimed post (p >>= f) w :=
  ⟨meets_bind (Others.refl claimed) (h.meets.consequence fun _ _ ha => ha.meets)⟩

/-- One call, between stable assertions. -/
theorem performs_send {q : TaskRequest} {pre : World → Prop} {post : q.Reply → World → Prop}
    (hpre : Stable claimed pre) (hpost : ∀ r, Stable claimed (post r))
    (hsafe : ∀ w, pre w → Safe claimed q w)
    (hanswer : ∀ w r w', pre w → Handles images codec faulty w q r w' → post r w') (hw : pre w) :
    Performs images codec faulty claimed post q.send w := by
  refine ⟨meets_perform fun w₁ hw₁ => ?_⟩
  have hfound := hpre.others hw₁ hw
  exact ⟨hsafe w₁ hfound,
    fun r w₂ hr w₃ hw₃ => (hpost r).others hw₃ (hanswer w₁ r w₂ hfound hr)⟩

theorem Achieves.consequence {post post' : α → World → Prop} {x : Task α}
    (h : Achieves images codec faulty claimed post x w) (himp : ∀ a w, post a w → post' a w) :
    Achieves images codec faulty claimed post' x w :=
  ⟨h.meets.consequence fun _ _ hr => hr.imp fun a => himp a _⟩

theorem achieves_pure {post : α → World → Prop} {a : α} (hpost : Stable claimed (post a))
    (h : post a w) : Achieves images codec faulty claimed post (pure a) w :=
  ⟨meets_done fun _ hw => hpost.others hw h⟩

theorem achieves_throw {post : α → World → Prop} {e : RepositoryError}
    (h : TaskEnds claimed post (.error e) w) :
    Achieves images codec faulty claimed post (throw e) w := by
  refine ⟨meets_done fun w' hw => ?_⟩
  have hstable : Stable claimed (TaskEnds claimed (fun (_ : α) _ => True) (.error e)) :=
    stable_taskEnds (fun _ => stable_true claimed) _
  exact (hstable.others hw h.error).error

theorem achieves_bind {post : β → World → Prop} {x : Task α} {f : α → Task β}
    (h : Achieves images codec faulty claimed
      (fun a w => Achieves images codec faulty claimed post (f a) w) x w) :
    Achieves images codec faulty claimed post (x >>= f) w := by
  refine ⟨meets_except_bind (Others.refl claimed) (h.meets.consequence fun r w' hr => ?_)⟩
  cases r with
  | ok a => exact hr.meets
  | error e =>
    intro w'' hw
    have hstable : Stable claimed (TaskEnds claimed (fun (_ : β) _ => True) (.error e)) :=
      stable_taskEnds (fun _ => stable_true claimed) _
    exact (hstable.others hw hr.error).error

theorem achieves_demand {post : α → World → Prop}
    {call : TaskProgram (Except RepositoryError α)}
    (h : Performs images codec faulty claimed (TaskEnds claimed post) call w) :
    Achieves images codec faulty claimed post (demand call) w := ⟨h.meets⟩

theorem achieves_lift {post : α → World → Prop} (hpost : ∀ a, Stable claimed (post a))
    {p : TaskProgram α} (h : Performs images codec faulty claimed post p w) :
    Achieves images codec faulty claimed post (ExceptT.lift p) w := by
  constructor
  apply meets_bind (Others.refl claimed)
  exact h.meets.consequence fun a w' ha => meets_done fun w'' hw => (hpost a).others hw ha

/-- A call whose answer is looked at. -/
theorem achieves_observe {q : TaskRequest} {pre : World → Prop} {post : q.Reply → World → Prop}
    (hpre : Stable claimed pre) (hpost : ∀ r, Stable claimed (post r))
    (hsafe : ∀ w, pre w → Safe claimed q w)
    (hanswer : ∀ w r w', pre w → Handles images codec faulty w q r w' → post r w') (hw : pre w) :
    Achieves images codec faulty claimed post (observe q) w :=
  achieves_lift hpost (performs_send hpre hpost hsafe hanswer hw)

end Rules

/-! ### Answers of the database -/

section Answers

variable {claimed : ClaimedJob} {w w' : World} {n : ℕ} {op : Op} {α : Type} {x : Session α}
  {r : Except RepositoryError α}

/-- A call is a step of the system, or no step. -/
theorem Commits.cases (h : Commits op x w r w') :
    w'.storage = w.storage ∧ (w'.system = w.system ∨ w.system.step op = some w'.system) := by
  cases h with
  | answered s step => exact ⟨rfl, Or.inr step⟩
  | broken message => exact ⟨rfl, Or.inl rfl⟩
  | unheard s message step => exact ⟨rfl, Or.inr step⟩

theorem Commits.held (h : Commits op x w r w') (hheld : claimed.HeldIn w.system) :
    claimed.HeldIn w'.system := by
  rcases h.cases.2 with hsame | hstep
  · rw [hsame]
    exact hheld
  · exact hheld.step hstep

/-- What the caller of a session learns from an answer. -/
theorem Commits.answer (h : Commits op x w r w') (happly : w.system.apply op = w.system.run x) :
    (∃ message, r = .error (.database message)) ∨
      r = (x w.system.db).1 ∧ w'.system.db = (x w.system.db).2 ∧
        w'.system.now = w.system.now := by
  cases h with
  | broken message => exact Or.inl ⟨message, rfl⟩
  | unheard s message step => exact Or.inl ⟨message, rfl⟩
  | answered s step =>
    obtain ⟨-, rfl⟩ := System.step_eq_some.mp step
    rw [happly]
    exact Or.inr ⟨rfl, rfl, rfl⟩

theorem Holding.of_db (h : Holding claimed n w) (hheld : claimed.HeldIn w'.system)
    (hdb : w'.system.db = w.system.db) : Holding claimed n w' := by
  refine ⟨hheld, ?_⟩
  rw [hdb]
  exact h.standing

theorem ClaimedJob.Working.asked {s : System} {a : AttemptRow} {row : JobRow}
    (h : claimed.Working s a row) (hstate : row.state ≠ .running)
    (hheld : claimed.HeldIn w'.system) (hdb : w'.system.db = s.db) : Asked claimed w' := by
  refine ⟨hheld, row, ?_, ?_⟩
  · rw [hdb]
    exact h.live.job
  · rw [h.active.resolve_left hstate]
    rfl

/-- The answer to a guarded call. -/
inductive Replied (claimed : ClaimedJob) (w : World) (wanted : JobStatus) (done : Db → Prop)
    {α : Type} : Except RepositoryError α → World → Prop
  | failed (message : String) (w' : World) :
      Replied claimed w wanted done (.error (.database message)) w'
  | lost (w' : World) (held : claimed.HeldIn w'.system)
      (claim : claimed.Lost w'.system.db w'.system.now) (db : w'.system.db = w.system.db) :
      Replied claimed w wanted done (.error .claimLost) w'
  | conflict (w' : World) (a : AttemptRow) (row : JobRow) (operation : String)
      (held : claimed.HeldIn w'.system) (working : claimed.Working w.system a row)
      (state : row.state ≠ wanted) (db : w'.system.db = w.system.db) :
      Replied claimed w wanted done (.error (.stateConflict operation)) w'
  | committed (w' : World) (v : α) (held : claimed.HeldIn w'.system) (made : done w'.system.db) :
      Replied claimed w wanted done (.ok v) w'

theorem Guarded.replied {wanted : JobStatus} {done : Db → Prop}
    (hguarded : Guarded claimed w.system wanted done (x w.system.db))
    (hheld : claimed.HeldIn w.system) (happly : w.system.apply op = w.system.run x)
    (h : Commits op x w r w') : Replied claimed w wanted done r w' := by
  have hheld' := h.held hheld
  rcases h.answer happly with ⟨message, rfl⟩ | ⟨rfl, hdb, hnow⟩
  · exact .failed message w'
  · generalize x w.system.db = answer at hguarded hdb
    cases hguarded with
    | lost claim =>
      refine .lost w' hheld' ?_ hdb
      rw [hdb, hnow]
      exact claim
    | conflict a row operation working state =>
      exact .conflict w' a row operation hheld' working state hdb
    | committed a row v db' working state made =>
      refine .committed w' v hheld' ?_
      rw [hdb]
      exact made

end Answers

end TaskHarbor
