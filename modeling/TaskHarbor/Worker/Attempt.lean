import TaskHarbor.Worker.Images

/-! One claim from its return to the end of its task, whatever the others do meanwhile. -/
namespace TaskHarbor

open Interleaving Relational Transaction Runs

/-! ### The start -/

/-- The step returns the claim. -/
structure System.HandsOut (s : System) (claimed : ClaimedJob) (t : System) : Prop where
  step : ∃ workerId claimToken locked, s.step (.claimNext workerId claimToken locked) = some t ∧
    (claimNext workerId none s.now claimToken locked s.db).1 = .ok (some claimed)

section Start

variable {s t : System} {claimed : ClaimedJob}

theorem System.HandsOut.heldIn (h : s.HandsOut claimed t) (hs : s.Reachable) :
    claimed.HeldIn t := by
  obtain ⟨workerId, claimToken, locked, hstep, hclaimed⟩ := h.step
  refine ⟨hs.run (Run.single _ trivial hstep : Run System.step Always s t), ?_⟩
  obtain ⟨-, rfl⟩ := System.step_eq_some.mp hstep
  rw [System.apply_claims]
  simp only [hclaimed, returnedClaim]
  exact List.mem_append_left _ List.mem_cons_self

/-- A returned claim is held, and no unit of its work is done. -/
theorem System.HandsOut.holding (h : s.HandsOut claimed t) (hs : s.Reachable) (st : Storage) :
    Holding claimed 0 ⟨t, st⟩ := by
  have hheld := h.heldIn hs
  obtain ⟨workerId, claimToken, locked, hstep, hclaimed⟩ := h.step
  refine ⟨hheld, fun a ha => ?_⟩
  obtain ⟨-, rfl⟩ := System.step_eq_some.mp hstep
  have ha' : (claimNext workerId none s.now claimToken locked s.db).2.jobAttempts.get?
      claimed.attemptId = some a := ha
  unfold claimNext at hclaimed ha'
  rcases commit_cases (claimNextWithTime workerId none s.now claimToken locked) s.db with
    ⟨result, db', htx, hc⟩ | ⟨e, -, hc⟩
  · rw [hc] at hclaimed ha'
    obtain rfl : result = some claimed := Except.ok.inj hclaimed
    rcases claimNextWithTime_ok htx with ⟨hnone, -⟩ | ⟨candidate, worker, issued, hsome, hclaims⟩
    · cases hnone
    · obtain rfl : claimed = issued := Option.some.inj hsome
      rw [hclaims.written, hclaims.attemptId] at ha'
      obtain rfl := Option.some.inj ((get?_addAttempt _ _ _).symm.trans ha')
      exact ⟨by rintro ⟨⟩, fun _ => rfl⟩
  · rw [hc] at hclaimed
    cases hclaimed

end Start

/-! ### The task -/

section Task

variable {images : ImageService} {codec : JpegCodec} {faulty : Bool} {claimed : ClaimedJob}
  {w w' : World} {maxWidth quality budget : ℕ} {inputs : List ArtifactRecord}
  {outputs : List PendingOutputArtifact}

theorem completeImageJob_settles {n duration : ℕ} (hduration : Measured duration)
    (hwork : claimed.work = .imageResize maxWidth quality inputs)
    (hfollows : Follows outputs inputs)
    (hw : Holding claimed n w) {r : Except RepositoryError Unit}
    (h : Commits (.completeImageJob claimed duration outputs)
      (completeImageJob claimed duration outputs w.system.now) w r w') :
    Settles claimed (Concluded claimed) r w' := by
  have hheld := h.held hw.held
  rcases h.answer rfl with ⟨message, rfl⟩ | ⟨rfl, hdb, hnow⟩
  · trivial
  rcases completeImageJob_answers hw.held hwork hduration hfollows.storable hfollows.pairs with
    ⟨hlost, hr⟩ | ⟨a, row, hworking, ⟨hstate, hr⟩ | ⟨message, hr⟩ | ⟨db', hr, hclosed, -⟩⟩
  · rw [hr] at hdb ⊢
    refine ⟨.of_lost hheld ?_, n, hw.of_db hheld hdb⟩
    rw [hdb, hnow]
    exact hlost
  · rw [hr] at hdb ⊢
    have hnot : row.state ≠ .running := by
      rw [hstate]
      decide
    exact ⟨⟨hheld, Or.inr ⟨⟨maxWidth, quality, inputs, hwork⟩, hworking.asked hnot hheld hdb⟩⟩, n,
      hw.of_db hheld hdb⟩
  · rw [hr]
    trivial
  · rw [hr] at hdb ⊢
    refine .of_lost hheld ?_
    rw [hdb]
    exact hclosed.lost (by decide) _

/-- What a task that asks for a cancel and then closes the attempt achieves. -/
theorem closing_achieves (q : ℕ → TaskRequest)
    (answer : ∀ d, (q d).Reply → Except RepositoryError Unit) {R : World → Prop}
    (hR : Stable claimed R) (hholding : ∀ w, R w → ∃ n, Holding claimed n w)
    (hcall : ∀ d w, Measured d ∧ R w → Achieves images codec faulty claimed
      (fun r w => Settles claimed (Concluded claimed) (answer d r) w) (observe (q d)) w)
    (hw : R w) :
    Achieves images codec faulty claimed (fun _ w => Concluded claimed w)
      (do
        if ← finishIfCancelRequested claimed then return ()
        else do
          let duration ← observe (.elapsed .started)
          let r ← observe (q duration)
          let _ ← overtaken claimed (answer duration r)
          return ()) w := by
  refine achieves_bind ((finishIfCancelRequested_achieves False hR hholding hw
    False.elim).consequence fun b w hw => ?_)
  cases b with
  | true => exact achieves_pure stable_concluded (by simpa using hw)
  | false =>
    have hkept : R w := by simpa using hw
    refine achieves_bind ((elapsed_achieves hR .started hkept).consequence fun duration w hw => ?_)
    refine achieves_bind ((hcall duration w hw).consequence fun r w hw => ?_)
    refine achieves_bind ((overtaken_achieves stable_concluded hw).consequence fun b w hw => ?_)
    exact achieves_pure stable_concluded (by cases b <;> simpa using hw)

theorem processImages_achieves (hcodec : codec.Marked)
    (hwork : claimed.work = .imageResize maxWidth quality inputs) (hw : Holding claimed 0 w) :
    Achieves images codec faulty claimed (fun _ w => Concluded claimed w)
      (processImages claimed inputs maxWidth quality budget) w := by
  have hstart : Advanced claimed 0 [] w :=
    ⟨hw, hw.held, Or.inr fun o ho => absurd ho List.not_mem_nil⟩
  refine achieves_bind ((processInputs_achieves hcodec [] hwork ⟨rfl, ?_⟩
    hstart).consequence fun r w hr => ?_)
  · exact fun o ho => absurd ho List.not_mem_nil
  cases r with
  | none => exact achieves_pure stable_concluded hr
  | some all =>
    obtain ⟨hfollows, hadvanced⟩ := hr
    refine closing_achieves (fun d => .completeImageJob claimed d all) (fun _ r => r)
      stable_advanced (fun w h => ⟨_, h.1⟩) ?_ hadvanced
    intro d w hw
    refine achieves_observe (q := .completeImageJob claimed d all)
      ((stable_const (Measured d)).and stable_advanced) (stable_settles stable_concluded) ?_ ?_ hw
    · rintro w ⟨hmeasured, hw⟩
      exact ⟨rfl, hmeasured, ⟨⟨maxWidth, quality, inputs, hwork, hfollows.pairs⟩,
        hfollows.storable⟩, hw.2⟩
    · rintro w r w' ⟨hmeasured, hw⟩ hr
      exact completeImageJob_settles hmeasured hwork hfollows hw.1 hr

theorem processClaimedInner_achieves (hcodec : codec.Marked) (hw : Holding claimed 0 w) :
    Achieves images codec faulty claimed (fun _ w => Concluded claimed w)
      (processClaimedInner claimed budget) w := by
  unfold processClaimedInner
  cases hwork : claimed.work with
  | imageResize maxWidth quality inputs => exact processImages_achieves hcodec hwork hw
  | demoDelay delay =>
    have hR : Stable claimed (Holding claimed 0) := stable_holding 0
    refine achieves_bind ((quiet_achieves (q := .sleep delay) hR (fun _ => trivial)
      (fun w r w' hr => hr) hw).consequence fun _ w hw => ?_)
    refine closing_achieves (fun d => .complete claimed d) (fun _ r => r) hR
      (fun w h => ⟨0, h⟩) ?_ hw
    intro d w hw
    refine achieves_observe (q := .complete claimed d) ((stable_const (Measured d)).and hR)
      (stable_settles stable_concluded) (fun _ _ => rfl) ?_ hw
    rintro w r w' ⟨hmeasured, hw⟩ hr
    exact ((complete_guarded hw.held hwork hmeasured).replied hw.held rfl hr).concludes
      (by decide) hw

/-- How `process_claimed` ends. -/
def Answered (claimed : ClaimedJob) : Except RepositoryError Unit → World → Prop
  | .ok _, w => Concluded claimed w
  | .error (.database _), _ => True
  | .error _, _ => False

theorem stable_answered (r : Except RepositoryError Unit) :
    Stable claimed (Answered claimed r) := by
  cases r with
  | ok u => exact stable_concluded
  | error e => cases e <;> exact stable_const _

theorem finishClaimedResult_performs {r : Except RepositoryError Unit}
    (hw : TaskEnds claimed (fun _ w => Concluded claimed w) r w) :
    Performs images codec faulty claimed (Answered claimed) (finishClaimedResult claimed r) w := by
  cases r with
  | ok u => exact performs_done (stable_answered _) hw
  | error e =>
    cases e with
    | claimLost =>
      refine performs_bind ((cleanupAttemptOutputs_performs
        (stable_concluded.and stable_someHolding) (fun w h => h.2) ?_ hw).consequence
          fun _ w hw => performs_done (stable_answered _) hw.1)
      rintro w st ⟨hconcluded, n, hn⟩
      exact ⟨⟨hconcluded.held, hconcluded.ended⟩, n, hn.held, hn.standing⟩
    | database message => exact performs_done (stable_answered _) trivial
    | _ => exact hw.elim

theorem processClaimed_performs (hcodec : codec.Marked) (hw : Holding claimed 0 w) :
    Performs images codec faulty claimed (Answered claimed) (processClaimed claimed).run w :=
  performs_bind (Performs.consequence ⟨(processClaimedInner_achieves hcodec hw).meets⟩
    fun _ _ hr => finishClaimedResult_performs hr)

end Task

/-! ### Whole interleavings -/

section Interleaved

variable {images : ImageService} {codec : JpegCodec} {faulty : Bool} {claimed : ClaimedJob}
  {s t : System} {st : Storage}

/-- Whatever the others do, `process_claimed` ends with `Ok` or with an error of the database. With
`Ok` the claim is over; only an image job may still wait for its cancel. -/
theorem process_claimed_answers {w : World} {r : Except RepositoryError Unit}
    (hcodec : codec.Marked) (hs : s.Reachable) (hclaim : s.HandsOut claimed t)
    (hrun : Relation.ReflTransGen (Step (Others claimed) (Handles images codec faulty))
      ((processClaimed claimed).run, ⟨t, st⟩) (.done r, w)) :
    (∃ message, r = .error (.database message)) ∨
      r = .ok () ∧ (claimed.Lost w.system.db w.system.now ∨
        (∃ maxWidth quality inputs, claimed.work = .imageResize maxWidth quality inputs) ∧
          ∃ row, w.system.db.jobs.get? claimed.jobId.get = some row ∧
            row.state.isCancelling = true) := by
  have hends := (processClaimed_performs hcodec (hclaim.holding hs st)).meets.result
    (Others.refl claimed) Others.trans hrun
  cases r with
  | ok u => exact Or.inr ⟨rfl, hends.ended.imp_right fun h => ⟨h.1, h.2.2⟩⟩
  | error e =>
    cases e with
    | database message => exact Or.inl ⟨message, rfl⟩
    | _ => exact hends.elim

end Interleaved

/-! ### A task alone -/

def squareImages : ImageService :=
  ⟨fun _ => some .png, fun _ _ => .ok (4, 4), fun _ => .ok false, fun _ => none⟩

/-- A codec for black squares, with the markers of an empty stream. -/
def squareCodec : JpegCodec where
  decode := fun _ => .ok ⟨4, 4, List.replicate 16 ⟨0, 0, 0, 255⟩⟩
  resize := fun image _ _ => image
  encode := fun _ _ => .ok [0xFF, 0xD8, 0xFF, 0xD9]

theorem squareCodec_marked : squareCodec.Marked := by
  refine ⟨fun image quality bytes h => ?_⟩
  obtain rfl := Except.ok.inj h
  decide

def quietDisk : Disk := ⟨fun _ => none, fun _ => 0⟩

theorem quietDisk_removes {faulty : Bool} : faulty = false → ∀ p, quietDisk.Removes p :=
  fun _ _ _ _ => rfl

def squareStorage : Storage :=
  ⟨[⟨["inputs", "a"], [1], 0⟩, ⟨["inputs", "b"], [1], 0⟩], [["inputs"]]⟩

def World.serveSample (w : World) (q : TaskRequest) : q.Reply × World :=
  w.serve squareImages squareCodec quietDisk q

theorem sample_steps (claimed : ClaimedJob) (faulty : Bool) {α : Type} (p : TaskProgram α)
    (w : World) :
    Relation.ReflTransGen (Step (Others claimed) (Handles squareImages squareCodec faulty)) (p, w)
      (.done (p.run World.serveSample w).1, (p.run World.serveSample w).2) :=
  run_steps (World.serve_handles squareImages squareCodec quietDisk_removes) p w

/-- A task of two images publishes both. -/
theorem sample_published : ∃ (s t : System) (claimed : ClaimedJob) (w : World),
    exec System.step (System.initial 0) (sampleImageOps.take 3) = some s ∧
    s.HandsOut claimed t ∧ (processClaimedInner claimed u64Max).run.run World.serveSample
      ⟨t, squareStorage⟩ = (.ok (), w) ∧
    (w.system.db.publishedBy claimed.attemptId).length = 2 ∧
    ∃ keys, (expireOutputArtifacts 0 w.system.now w.system.db).1 = .ok keys ∧ keys.length = 2 := by
  have hrun : (exec System.step (System.initial 0) (sampleImageOps.take 3)).any (fun s =>
      (s.step (.claimNext 7 5 [])).any fun t =>
        (claimNext 7 none s.now 5 [] s.db).1.toOption.any fun result => result.any fun claimed =>
          let answer := (processClaimedInner claimed u64Max).run.run World.serveSample
            ⟨t, squareStorage⟩
          answer.1.toOption.any fun _ =>
            (answer.2.system.db.publishedBy claimed.attemptId).length == 2 &&
              (expireOutputArtifacts 0 answer.2.system.now answer.2.system.db).1.toOption.any
                fun keys => keys.length == 2) = true := by
    decide +kernel
  obtain ⟨s, hexec, hstep⟩ := (Option.any_eq_true _ _).mp hrun
  obtain ⟨t, ht, hclaim⟩ := (Option.any_eq_true _ _).mp hstep
  obtain ⟨result, hclaimed, hsome⟩ := except_any_eq_true.mp hclaim
  obtain ⟨claimed, rfl, hanswer⟩ := (Option.any_eq_true _ _).mp hsome
  obtain ⟨u, hok, hboth⟩ := except_any_eq_true.mp hanswer
  rw [Bool.and_eq_true, beq_iff_eq] at hboth
  obtain ⟨keys, hkeys, hlength⟩ := except_any_eq_true.mp hboth.2
  exact ⟨s, t, claimed, _, hexec, ⟨7, 5, [], ht, hclaimed⟩, Prod.ext hok rfl, hboth.1, keys, hkeys,
    by simpa using hlength⟩

theorem processClaimed_alone {claimed : ClaimedJob} {w w' : World}
    (h : (processClaimedInner claimed u64Max).run.run World.serveSample w = (.ok (), w')) :
    (processClaimed claimed).run.run World.serveSample w = (.ok (), w') := by
  show ((processClaimedInner claimed u64Max).run >>= finishClaimedResult claimed).run
    World.serveSample w = _
  rw [Program.run_bind, h]
  rfl

theorem process_claimed_answers_published : ∃ (claimed : ClaimedJob) (w : World),
    (w.system.db.publishedBy claimed.attemptId).length = 2 ∧
      (claimed.Lost w.system.db w.system.now ∨
        (∃ maxWidth quality inputs, claimed.work = .imageResize maxWidth quality inputs) ∧
          ∃ row, w.system.db.jobs.get? claimed.jobId.get = some row ∧
            row.state.isCancelling = true) := by
  obtain ⟨s, t, claimed, w, hexec, hclaim, hanswer, hcount, -⟩ := sample_published
  have hrun := sample_steps claimed false (processClaimed claimed).run ⟨t, squareStorage⟩
  rw [processClaimed_alone hanswer] at hrun
  have hs := reachable_of_exec hexec
  rcases process_claimed_answers squareCodec_marked hs hclaim hrun with ⟨message, h⟩ | ⟨-, h⟩
  · cases h
  · exact ⟨claimed, w, hcount, h⟩

end TaskHarbor
