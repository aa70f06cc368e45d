import TaskHarbor.Library.Parallel
import TaskHarbor.Worker.Outputs

/-! `process_with_lease_renewal`: a `select!` loop over the processing of a claim and the ticks of a
renewal timer. A refused renewal ends the task with `ClaimLost` whatever the processing answers, so
the task then removes the outputs of its attempt even where they are published. -/
namespace TaskHarbor

open Interleaving Relational Transaction Runs

/-! ### The task -/

/-- Where a task is: in the loop, waiting for the processing after a refused renewal, at its end, or
aborted. -/
inductive RenewingTask where
  | processing (p : TaskProgram (Except RepositoryError Unit))
  | finishing (p : TaskProgram (Except RepositoryError Unit))
  | concluding (refused : Bool) (p : TaskProgram (Except RepositoryError Unit))
  | aborted (refused : Bool)

/-- `result.and(Err(RepositoryError::ClaimLost))`. -/
def andClaimLost : Except RepositoryError Unit → Except RepositoryError Unit
  | .ok _ => .error .claimLost
  | .error e => .error e

/-- A renewal was refused. -/
def RenewingTask.refused : RenewingTask → Bool
  | .processing _ => false
  | .finishing _ => true
  | .concluding refused _ => refused
  | .aborted refused => refused

/-- `process_with_lease_renewal`. -/
def processWithLeaseRenewal (claimed : ClaimedJob) (storageBudgetBytes : ℕ) : RenewingTask :=
  .processing (processClaimedInner claimed storageBudgetBytes).run

/-- What the task does next. A call that is in flight when the timer ticks may be answered before
the renewal is. -/
inductive RenewingTask.Acts (images : ImageService) (codec : JpegCodec) (faulty : Bool)
    (claimed : ClaimedJob) : RenewingTask × World → RenewingTask × World → Prop
  | processing {q : TaskRequest} {k : q.Reply → TaskProgram (Except RepositoryError Unit)}
      {r : q.Reply} {w w' : World} (call : Handles images codec faulty w q r w') :
      Acts images codec faulty claimed (.processing (.call q k), w) (.processing (k r), w')
  | renewed {p : TaskProgram (Except RepositoryError Unit)} {r : Except RepositoryError ℤ}
      {w w' : World} (renewal : Commits (.renewLease claimed)
        (renewLease claimed none w.system.now) w r w') (granted : r ≠ .error .claimLost) :
      Acts images codec faulty claimed (.processing p, w) (.processing p, w')
  | refused {p : TaskProgram (Except RepositoryError Unit)} {w w' : World}
      (renewal : Commits (.renewLease claimed) (renewLease claimed none w.system.now) w
        (.error .claimLost) w') :
      Acts images codec faulty claimed (.processing p, w) (.finishing p, w')
  | joined (r : Except RepositoryError Unit) (w : World) :
      Acts images codec faulty claimed (.processing (.done r), w)
        (.concluding false (finishClaimedResult claimed r), w)
  | finishing {q : TaskRequest} {k : q.Reply → TaskProgram (Except RepositoryError Unit)}
      {r : q.Reply} {w w' : World} (call : Handles images codec faulty w q r w') :
      Acts images codec faulty claimed (.finishing (.call q k), w) (.finishing (k r), w')
  | rejoined (r : Except RepositoryError Unit) (w : World) :
      Acts images codec faulty claimed (.finishing (.done r), w)
        (.concluding true (finishClaimedResult claimed (andClaimLost r)), w)
  | concluding {refused : Bool} {q : TaskRequest}
      {k : q.Reply → TaskProgram (Except RepositoryError Unit)} {r : q.Reply} {w w' : World}
      (call : Handles images codec faulty w q r w') :
      Acts images codec faulty claimed (.concluding refused (.call q k), w)
        (.concluding refused (k r), w')
  | aborted (task : RenewingTask) (w : World) :
      Acts images codec faulty claimed (task, w) (.aborted task.refused, w)

/-! ### What holds of it -/

/-- No file of the attempt is left. -/
def Cleared (claimed : ClaimedJob) (w : World) : Prop :=
  ∀ path, attemptPath claimed.jobId.get claimed.attemptId <+: path → w.storage.read? path = none

/-- The world without the outputs of the attempt. -/
def World.without (w : World) (claimed : ClaimedJob) : World :=
  { w with storage := w.storage.removeTree (attemptPath claimed.jobId.get claimed.attemptId) }

/-- The end of a task whose renewal was refused: it removes its outputs, or has removed them, or
the database has failed. -/
inductive Discarding (faulty : Bool) (claimed : ClaimedJob) (w : World) :
    TaskProgram (Except RepositoryError Unit) → Prop
  | removing (ended : Concluded claimed w) :
      Discarding faulty claimed w (finishClaimedResult claimed (.error .claimLost))
  | removed (ended : Concluded claimed w) (cleared : faulty = false → Cleared claimed w) :
      Discarding faulty claimed w (.done (.ok ()))
  | failed (message : String) (disk : OnDisk claimed w) :
      Discarding faulty claimed w (.done (.error (.database message)))

section Sound

variable (images : ImageService) (codec : JpegCodec) (faulty : Bool) (claimed : ClaimedJob)

/-- What a task knows, wherever it is. -/
def RenewingTask.Sound : RenewingTask → World → Prop
  | .processing p, w | .finishing p, w =>
      Meets (Others claimed) (Handles images codec faulty) (Safe claimed)
        (TaskEnds claimed fun _ w => Concluded claimed w) p w ∧ OnDisk claimed w
  | .concluding false p, w =>
      Meets (Others claimed) (Handles images codec faulty) (Safe claimed) (Answered claimed) p w ∧
        OnDisk claimed w
  | .concluding true p, w => OwnKeys claimed w ∧ Discarding faulty claimed w p
  | .aborted false, w => OnDisk claimed w
  | .aborted true, w => OwnKeys claimed w

end Sound

section Kept

variable {images : ImageService} {codec : JpegCodec} {faulty : Bool} {claimed : ClaimedJob}
  {w w' : World} {task task' : RenewingTask}

theorem stable_cleared : Stable claimed (Cleared claimed) := by
  intro w w' hother h
  cases hother with
  | system op s beside step => exact h
  | storage st upkeep => exact fun path hpath => upkeep.adds path hpath (h path hpath)

theorem stable_discarding (p : TaskProgram (Except RepositoryError Unit)) :
    Stable claimed fun w => Discarding faulty claimed w p := by
  intro w w' hother h
  cases h with
  | removing ended => exact .removing (stable_concluded w w' hother ended)
  | removed ended cleared =>
    exact .removed (stable_concluded w w' hother ended) fun hf =>
      stable_cleared w w' hother (cleared hf)
  | failed message disk => exact .failed message (stable_onDisk w w' hother disk)

theorem RenewingTask.Sound.keys (h : task.Sound images codec faulty claimed w) :
    OwnKeys claimed w := by
  cases task with
  | processing p => exact h.2.toOwnKeys
  | finishing p => exact h.2.toOwnKeys
  | concluding refused p =>
    cases refused with
    | false => exact h.2.toOwnKeys
    | true => exact h.1
  | aborted refused =>
    cases refused with
    | false => exact OnDisk.toOwnKeys h
    | true => exact h

theorem RenewingTask.Sound.disk (h : task.Sound images codec faulty claimed w)
    (hrefused : task.refused = false) : OnDisk claimed w := by
  cases task with
  | processing p => exact h.2
  | finishing p => cases hrefused
  | concluding refused p =>
    obtain rfl : refused = false := hrefused
    exact h.2
  | aborted refused =>
    obtain rfl : refused = false := hrefused
    exact h

theorem RenewingTask.Sound.others (h : task.Sound images codec faulty claimed w)
    (hw : Others claimed w w') : task.Sound images codec faulty claimed w' := by
  cases task with
  | processing p => exact ⟨h.1.stable Others.trans hw, stable_onDisk.others hw h.2⟩
  | finishing p => exact ⟨h.1.stable Others.trans hw, stable_onDisk.others hw h.2⟩
  | concluding refused p =>
    cases refused with
    | false => exact ⟨h.1.stable Others.trans hw, stable_onDisk.others hw h.2⟩
    | true => exact ⟨stable_ownKeys.others hw h.1, (stable_discarding p).others hw h.2⟩
  | aborted refused =>
    cases refused with
    | false => exact stable_onDisk.others hw h
    | true => exact stable_ownKeys.others hw h

/-- A renewal is a step of the others. -/
theorem renewal_others {r : Except RepositoryError ℤ} (h : Commits (.renewLease claimed)
    (renewLease claimed none w.system.now) w r w') : Others claimed w w' := by
  obtain ⟨hstorage, hsystem⟩ := h.cases
  obtain ⟨system, storage⟩ := w
  obtain ⟨system', storage'⟩ := w'
  obtain rfl : storage' = storage := hstorage
  rcases hsystem with hsame | hstep
  · obtain rfl : system' = system := hsame
    exact .refl claimed _
  · exact Relation.ReflTransGen.single (.system _ _ (Or.inr rfl) hstep)

theorem attemptPath_resolves (jobId attemptId : ℕ) :
    resolveKey (attemptOutputPrefix jobId attemptId) = .ok (attemptPath jobId attemptId) := by
  rw [attemptOutputPrefix_eq]
  exact resolveKey_keyOf (by simp [attemptPath]) attemptPath_plain

theorem removeTree_read? {p path : Path} (h : p <+: path) (st : Storage) :
    (st.removeTree p).read? path = none := by
  unfold Storage.read? Storage.removeTree
  rw [Option.map_eq_none_iff, List.find?_eq_none]
  intro f hf heq
  rw [beq_iff_eq] at heq
  have hoff := (List.mem_filter.mp hf).2
  rw [heq, List.isPrefixOf_iff_prefix.mpr h] at hoff
  cases hoff

/-- The removal of the outputs of the attempt. -/
theorem Removal.cleared {st st' : Storage} {r : Except StorageError Unit} {s : System}
    (h : Removal false (attemptOutputPrefix claimed.jobId.get claimed.attemptId) st r st') :
    Cleared claimed ⟨s, st'⟩ := by
  cases h with
  | refused e key_eq =>
    rw [attemptPath_resolves] at key_eq
    cases key_eq
  | stopped e path st' key_eq fault => cases fault
  | removed path key_eq =>
    rw [attemptPath_resolves, Except.ok.injEq] at key_eq
    subst key_eq
    exact fun path hpath => removeTree_read? hpath st

theorem sound_rejoined {r : Except RepositoryError Unit} (hdisk : OnDisk claimed w)
    (h : TaskEnds claimed (fun _ w => Concluded claimed w) r w) :
    Discarding faulty claimed w (finishClaimedResult claimed (andClaimLost r)) := by
  cases r with
  | ok u => exact .removing h
  | error e =>
    cases e with
    | claimLost => exact .removing h.1
    | database message => exact .failed message hdisk
    | _ => exact h.elim

/-- The task keeps what it knows. -/
theorem RenewingTask.Sound.act (h : task.Sound images codec faulty claimed w)
    (hact : RenewingTask.Acts images codec faulty claimed (task, w) (task', w')) :
    task'.Sound images codec faulty claimed w' := by
  cases hact with
  | processing call =>
    obtain ⟨hmeets, hdisk⟩ := h
    obtain ⟨hsafe, hrest⟩ := hmeets.act (Others.refl claimed) call
    exact ⟨hrest, hsafe.onDisk hdisk call⟩
  | finishing call =>
    obtain ⟨hmeets, hdisk⟩ := h
    obtain ⟨hsafe, hrest⟩ := hmeets.act (Others.refl claimed) call
    exact ⟨hrest, hsafe.onDisk hdisk call⟩
  | renewed renewal granted => exact RenewingTask.Sound.others h (renewal_others renewal)
  | refused renewal =>
    have hloop := RenewingTask.Sound.others h (renewal_others renewal)
    exact hloop
  | joined r w =>
    have hends := h.1 w (Others.refl claimed w)
    exact ⟨(finishClaimedResult_performs hends).meets, h.2⟩
  | rejoined r w =>
    exact ⟨h.2.toOwnKeys, sound_rejoined h.2 (h.1 w (Others.refl claimed w))⟩
  | aborted task w =>
    cases hrefused : task.refused with
    | false => exact h.disk hrefused
    | true => exact h.keys
  | @concluding refused q k r w w' call =>
    cases refused with
    | false =>
      obtain ⟨hmeets, hdisk⟩ := h
      obtain ⟨hsafe, hrest⟩ := hmeets.act (Others.refl claimed) call
      exact ⟨hrest, hsafe.onDisk hdisk call⟩
    | true =>
      obtain ⟨hkeys, hdiscarding⟩ := h
      generalize hp : Program.call q k = p at hdiscarding
      cases hdiscarding with
      | removed ended cleared => cases hp
      | failed message disk => cases hp
      | removing ended =>
        cases hp
        obtain ⟨st, hremoval, rfl⟩ := call
        refine ⟨⟨hkeys.held, hkeys.keys⟩, .removed ⟨ended.held, ended.ended⟩ ?_⟩
        rintro rfl
        exact hremoval.cleared

/-- The assertion of a task among others. -/
theorem kept_sound : Kept (fun _ => Others claimed) (RenewingTask.Acts images codec faulty claimed)
    fun task w => task.Sound images codec faulty claimed w where
  other := fun _ _ _ h hw => h.others hw
  act := fun _ _ _ _ h hact => h.act hact

theorem processWithLeaseRenewal_sound {budget : ℕ} (hcodec : codec.Marked)
    (hw : Holding claimed 0 w) :
    (processWithLeaseRenewal claimed budget).Sound images codec faulty claimed w :=
  ⟨(processClaimedInner_achieves hcodec hw).meets, .of_unpublished hw.held hw.unpublished⟩

/-- A removed tree holds no published row. -/
theorem Cleared.not_holds (h : Cleared claimed w) (hkeys : OwnKeys claimed w) {row : ArtifactRow}
    (hrow : row ∈ w.system.db.publishedBy claimed.attemptId) : ¬w.storage.Holds row := by
  rintro ⟨path, bytes, hpath, hfile, -⟩
  obtain ⟨id, hkey⟩ := hkeys.keys row hrow
  rw [hkey, outputKey_resolves, Except.ok.injEq] at hpath
  subst hpath
  rw [h _ (attemptPath_under_iff.mpr ⟨rfl, rfl⟩)] at hfile
  cases hfile

theorem RenewingTask.Sound.answers {refused : Bool} {r : Except RepositoryError Unit}
    (h : (RenewingTask.concluding refused (.done r)).Sound images codec faulty claimed w) :
    (∃ message, r = .error (.database message)) ∨ r = .ok () ∧ Concluded claimed w := by
  cases refused with
  | false =>
    have hanswered := h.1 w (Others.refl claimed w)
    cases r with
    | ok u => exact Or.inr ⟨rfl, hanswered⟩
    | error e =>
      cases e with
      | database message => exact Or.inl ⟨message, rfl⟩
      | _ => exact hanswered.elim
  | true =>
    have hdiscarding := h.2
    generalize hp : Program.done r = p at hdiscarding
    cases hdiscarding with
    | removing ended => cases hp
    | removed ended cleared =>
      cases hp
      exact Or.inr ⟨rfl, ended⟩
    | failed message disk =>
      cases hp
      exact Or.inl ⟨message, rfl⟩

end Kept

/-! ### Refused renewals -/

section Refused

variable {images : ImageService} {codec : JpegCodec} {claimed : ClaimedJob} {s t : System}
  {st : Storage} {w : World} {budget : ℕ} {faulty : Bool}

/-- However a task with renewals ends, it answers `Ok` on a claim that is over, or the database has
failed; and the outputs that its attempt shows have their files unless a renewal was refused and the
answer is `Ok`: then they have none, or the storage has failed to remove them. -/
theorem refused_renewal_discards {refused : Bool} {r : Except RepositoryError Unit}
    (hcodec : codec.Marked) (hs : s.Reachable) (hclaim : s.HandsOut claimed t)
    (hrun : Relation.ReflTransGen
      (Among (fun _ => Others claimed) (RenewingTask.Acts images codec faulty claimed))
      (processWithLeaseRenewal claimed budget, ⟨t, st⟩) (.concluding refused (.done r), w)) :
    ((∃ message, r = .error (.database message)) ∨ r = .ok () ∧ Concluded claimed w) ∧
      ∀ row ∈ w.system.db.publishedBy claimed.attemptId,
        (¬(refused = true ∧ r = .ok ()) → w.storage.Holds row) ∧
        (faulty = false → refused = true → r = .ok () → ¬w.storage.Holds row) := by
  have hsound := kept_sound.run (processWithLeaseRenewal_sound hcodec (hclaim.holding hs st)) hrun
  refine ⟨hsound.answers, fun row hrow => ?_⟩
  cases refused with
  | false =>
    exact ⟨fun _ => hsound.2.files row hrow, fun _ h => absurd h Bool.false_ne_true⟩
  | true =>
    obtain ⟨hkeys, hdiscarding⟩ := hsound
    generalize hp : Program.done r = p at hdiscarding
    cases hdiscarding with
    | removing ended => cases hp
    | removed ended cleared =>
      cases hp
      exact ⟨fun h => absurd ⟨rfl, rfl⟩ h, fun hsound _ _ => (cleared hsound).not_holds hkeys hrow⟩
    | failed message disk =>
      cases hp
      exact ⟨fun _ => disk.files row hrow, fun _ _ h => by cases h⟩

/-- The claim of a publication is lost. -/
theorem published_lost (hheld : claimed.HeldIn w.system)
    (hshown : w.system.db.publishedBy claimed.attemptId ≠ []) :
    claimed.Lost w.system.db w.system.now := by
  by_contra hlive
  refine hshown (hheld.reachable.publishedBy fun b hb hsucceeded => hlive ?_)
  exact ClaimedJob.ClosedAs.lost ⟨b, hb, hsucceeded⟩ (by decide) _

/-- A refused renewal before the loop sees the answer of the processing. -/
theorem refused_run (hheld : claimed.HeldIn w.system)
    (hlost : claimed.Lost w.system.db w.system.now) :
    Relation.ReflTransGen (RenewingTask.Acts images codec faulty claimed)
      (.processing (.done (.ok ())), w)
      (.concluding true (.done (.ok ())), w.without claimed) := by
  have hanswer := renewLease_lost hlost
  have happly : w.system.apply (.renewLease claimed) = w.system := by
    show w.system.run (renewLease claimed none w.system.now) = w.system
    unfold System.run
    rw [hanswer]
  have hstep : w.system.step (.renewLease claimed) = some w.system := by
    refine System.step_eq_some.mpr ⟨?_, happly.symm⟩
    simp [Op.enabled, Op.claim, Op.clock, hheld.mem]
  have hrenewal : Commits (.renewLease claimed) (renewLease claimed none w.system.now) w
      (.error .claimLost) w := by
    have h := Commits.answered (x := renewLease claimed none w.system.now) w.system hstep
    rw [hanswer] at h
    exact h
  refine .head (.refused hrenewal) (.head (.rejoined (.ok ()) w) (.single ?_))
  exact .concluding ⟨_, .removed _ (attemptPath_resolves _ _), rfl⟩

/-- Whenever a task has published its outputs and its loop has not yet seen the answer, the next
tick of the timer may make it remove the files that its rows show. -/
theorem late_renewal_discards (hcodec : codec.Marked) (hs : s.Reachable)
    (hclaim : s.HandsOut claimed t)
    (hrun : Relation.ReflTransGen
      (Among (fun _ => Others claimed) (RenewingTask.Acts images codec faulty claimed))
      (processWithLeaseRenewal claimed budget, ⟨t, st⟩) (.processing (.done (.ok ())), w))
    (hshown : w.system.db.publishedBy claimed.attemptId ≠ []) :
    (∀ row ∈ w.system.db.publishedBy claimed.attemptId, w.storage.Holds row) ∧
      ∃ w' : World, w'.system = w.system ∧
        Relation.ReflTransGen (RenewingTask.Acts images codec faulty claimed)
          (.processing (.done (.ok ())), w) (.concluding true (.done (.ok ())), w') ∧
        ∀ row ∈ w.system.db.publishedBy claimed.attemptId, ¬w'.storage.Holds row := by
  have hsound := kept_sound.run (processWithLeaseRenewal_sound hcodec (hclaim.holding hs st)) hrun
  have hdisk : OnDisk claimed w := hsound.2
  have hlost := published_lost hdisk.held hshown
  refine ⟨hdisk.files, _, ?_, refused_run hdisk.held hlost, fun row hrow => ?_⟩
  · rfl
  · have hcleared : Cleared claimed (w.without claimed) :=
      fun path hpath => removeTree_read? hpath w.storage
    exact hcleared.not_holds ⟨hdisk.held, hdisk.keys⟩ hrow

end Refused

/-! ### A task alone -/

theorem processing_steps (claimed : ClaimedJob) (faulty : Bool)
    (p : TaskProgram (Except RepositoryError Unit)) (w : World) :
    Relation.ReflTransGen (RenewingTask.Acts squareImages squareCodec faulty claimed)
      (.processing p, w)
      (.processing (.done (p.run World.serveSample w).1), (p.run World.serveSample w).2) := by
  induction p generalizing w with
  | done r => exact .refl
  | call q k ih =>
    exact .head (.processing (World.serve_handles squareImages squareCodec quietDisk_removes w q))
      (ih _ _)

/-- The two images of the sample, published and not yet seen by the loop. -/
theorem sample_processed : ∃ (s t : System) (claimed : ClaimedJob) (w : World),
    exec System.step (System.initial 0) (sampleImageOps.take 3) = some s ∧
    s.HandsOut claimed t ∧
    Relation.ReflTransGen (RenewingTask.Acts squareImages squareCodec false claimed)
      (processWithLeaseRenewal claimed u64Max, ⟨t, squareStorage⟩)
      (.processing (.done (.ok ())), w) ∧
    (w.system.db.publishedBy claimed.attemptId).length = 2 ∧
    ∃ keys, (expireOutputArtifacts 0 w.system.now w.system.db).1 = .ok keys ∧ keys.length = 2 := by
  obtain ⟨s, t, claimed, w, hexec, hclaim, hanswer, hcount, hkeys⟩ := sample_published
  have hrun := processing_steps claimed false (processClaimedInner claimed u64Max).run
    ⟨t, squareStorage⟩
  rw [hanswer] at hrun
  exact ⟨s, t, claimed, w, hexec, hclaim, hrun, hcount, hkeys⟩

theorem acts_among {images : ImageService} {codec : JpegCodec} {claimed : ClaimedJob}
    {a b : RenewingTask × World}
    (h : Relation.ReflTransGen (RenewingTask.Acts images codec false claimed) a b) :
    Relation.ReflTransGen
      (Among (fun _ => Others claimed) (RenewingTask.Acts images codec false claimed)) a b :=
  Relation.ReflTransGen.mono (fun _ _ hact => .act hact) _ _ h

theorem refused_renewal_discards_both : ∃ (claimed : ClaimedJob) (w : World),
    (w.system.db.publishedBy claimed.attemptId).length = 2 ∧
      ∀ row ∈ w.system.db.publishedBy claimed.attemptId, ¬w.storage.Holds row := by
  obtain ⟨s, t, claimed, w, hexec, hclaim, hacts, hcount, -⟩ := sample_processed
  have hs := reachable_of_exec hexec
  have hrun := acts_among hacts
  have hsound := kept_sound.run
    (processWithLeaseRenewal_sound squareCodec_marked (hclaim.holding hs squareStorage)) hrun
  have hlost : claimed.Lost w.system.db w.system.now := by
    refine published_lost hsound.2.held fun hnil => ?_
    rw [hnil] at hcount
    cases hcount
  have hlast := hrun.trans (acts_among (refused_run hsound.2.held hlost))
  obtain ⟨-, hrows⟩ := refused_renewal_discards squareCodec_marked hs hclaim hlast
  exact ⟨claimed, w.without claimed, hcount,
    fun row hrow => (hrows row hrow).2 rfl rfl rfl⟩

theorem late_renewal_discards_both : ∃ (claimed : ClaimedJob) (w w' : World),
    (w.system.db.publishedBy claimed.attemptId).length = 2 ∧ w'.system = w.system ∧
      ∀ row ∈ w.system.db.publishedBy claimed.attemptId,
        w.storage.Holds row ∧ ¬w'.storage.Holds row := by
  obtain ⟨s, t, claimed, w, hexec, hclaim, hacts, hcount, -⟩ := sample_processed
  have hs := reachable_of_exec hexec
  have hrun := acts_among hacts
  have hshown : w.system.db.publishedBy claimed.attemptId ≠ [] := by
    intro hnil
    rw [hnil] at hcount
    cases hcount
  obtain ⟨hfiles, w', hsystem, -, hgone⟩ :=
    late_renewal_discards squareCodec_marked hs hclaim hrun hshown
  exact ⟨claimed, w, w', hcount, hsystem, fun row hrow => ⟨hfiles row hrow, hgone row hrow⟩⟩

end TaskHarbor
