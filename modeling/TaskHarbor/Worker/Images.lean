import TaskHarbor.Worker.Outcome

/-! The image loop of a task. While the claim is held each accepted output lies in its place, so the
publication at the end finds one storable output and one file for each input. -/
namespace TaskHarbor

open Interleaving Relational Transaction Runs

/-! ### One output -/

section Output

variable {images : ImageService} {codec : JpegCodec} {disk : Disk} {claimed : ClaimedJob}
  {st st' : Storage} {input : ArtifactRecord} {processed : ProcessedImage} {jobId attemptId i j : ℕ}

theorem outputPath_inj (h : outputPath jobId attemptId i = outputPath jobId attemptId j) :
    i = j := by
  have hlast := List.append_cancel_left h
  rw [List.cons.injEq] at hlast
  exact toString_inj ((String.append_right_inj _).mp ((String.append_left_inj _).mp hlast.1))

theorem outputKey_resolves :
    resolveKey (outputKey jobId attemptId i) = .ok (outputPath jobId attemptId i) := by
  rw [outputKey_eq]
  exact resolveKey_keyOf (by simp [outputPath]) outputPath_plain

theorem outputKey_storable : storableText (outputKey jobId attemptId i) = true := by
  have hnumber : ∀ n : ℕ, '\x00' ∉ (toString n).toList := fun n hc =>
    absurd (repr_digits hc) (by decide)
  simp only [storableText, Bool.not_eq_true', List.contains_eq_mem, decide_eq_false_iff_not,
    outputKey, attemptOutputPrefix, String.toList_append, List.mem_append, not_or]
  exact ⟨⟨⟨⟨⟨⟨by decide, hnumber _⟩, by decide⟩, hnumber _⟩, by decide⟩, hnumber _⟩, by decide⟩

/-- The row of a processed input can be stored. -/
theorem pendingOutput_storable (hinput : input.Fits) (hmedia : processed.mediaType = "image/jpeg")
    (hkey : storableText processed.storageKey = true)
    (hbytes : 0 < processed.byteSize ∧ processed.byteSize ≤ i64Max)
    (hwidth : 0 < processed.width ∧ processed.width ≤ maxImageDimension)
    (hheight : 0 < processed.height ∧ processed.height ≤ maxImageDimension) :
    (pendingOutput input processed).Storable := by
  have hdimension : maxImageDimension ≤ i32Max := by decide
  obtain ⟨hstorable, hlength, hbtrim⟩ := outputName_artifactName hinput.name
  refine ⟨hinput.id, hinput.index, hbytes, ⟨hwidth.1, hwidth.2.trans hdimension⟩,
    ⟨hheight.1, hheight.2.trans hdimension⟩, hkey, hmedia, outputName input.displayName, ?_, hbtrim⟩
  exact varcharParam_ok.mpr ⟨hstorable, if_pos hlength⟩

/-- A resize to the output key of an input leaves a storable output in its place. -/
theorem resizeToJpeg_placed (hcodec : codec.Marked) (hinput : input.Fits) {maxWidth quality : ℕ}
    (h : resizeToJpeg images codec disk input.storageKey
      (outputKey claimed.jobId.get claimed.attemptId input.id) maxWidth quality st =
        (.ok processed, st')) :
    (pendingOutput input processed).Storable ∧
      Placed claimed st' (pendingOutput input processed) := by
  obtain ⟨hsettings, inputPath, path, -, hkey, hprocess⟩ := resizeToJpeg_ok h
  rw [outputKey_resolves, Except.ok.injEq] at hkey
  subst hkey
  obtain ⟨source, bytes, -, hrenders, hfile, hstored, hmedia, hsize⟩ := processPath_ok hprocess
  obtain ⟨hwidth, hheight⟩ := hrenders.size hsettings
  obtain ⟨metadata, decoded, -, -, -, hencode⟩ := hrenders.rendered
  have hmarked := hcodec.bytes _ _ _ hencode
  rw [← hsize] at hmarked
  refine ⟨pendingOutput_storable hinput hmedia ?_ hmarked hwidth hheight, hstored, bytes, hfile,
    hsize.symm⟩
  rw [hstored]
  exact outputKey_storable

/-- A resize for another input leaves a placed output. -/
theorem Placed.resize {o : PendingOutputArtifact} (h : Placed claimed st o)
    (hne : o.sourceArtifactId ≠ i) {inputKey : String} {maxWidth quality : ℕ}
    {r : Except ImageError ProcessedImage}
    (hrun : resizeToJpeg images codec disk inputKey
      (outputKey claimed.jobId.get claimed.attemptId i) maxWidth quality st = (r, st')) :
    Placed claimed st' o := by
  obtain ⟨hkey, bytes, hfile, hsize⟩ := h
  have hbut : SameBut (outputPath claimed.jobId.get claimed.attemptId i) st st' :=
    (resizeToJpeg_moves (writesAt_sameBut _) outputKey_resolves inputKey maxWidth quality).run hrun
  refine ⟨hkey, bytes, ?_, hsize⟩
  rw [hbut.read? fun heq => hne (outputPath_inj heq)]
  exact hfile

end Output

/-! ### The inputs of a claim -/

section Inputs

variable {claimed : ClaimedJob} {s : System} {maxWidth quality : ℕ} {inputs : List ArtifactRecord}

theorem ClaimedJob.HeldIn.count (h : claimed.HeldIn s)
    (hwork : claimed.work = .imageResize maxWidth quality inputs) :
    inputs.length ≤ maxFilesPerJob := by
  obtain ⟨r, hr, htotal⟩ := h.issued.total hwork
  rw [htotal]
  exact h.reachable.bounded r (Table.mem_of_get? hr)

/-- No input is listed twice. -/
theorem ClaimedJob.HeldIn.nodup (h : claimed.HeldIn s)
    (hwork : claimed.work = .imageResize maxWidth quality inputs) :
    (inputs.map fun i => i.id).Nodup := by
  have hrows : (((s.db.artifactsOf claimed.jobId.get .input).insertionSort artifactOrder).map
      fun a => a.id).Nodup := by
    have hperm := (List.perm_insertionSort artifactOrder
      (s.db.artifactsOf claimed.jobId.get .input)).map fun a : ArtifactRow => a.id
    refine hperm.nodup_iff.mpr (List.Nodup.sublist ?_ s.db.artifacts.nodup)
    exact List.Sublist.map _ List.filter_sublist
  have hsame := congrArg (List.map Prod.fst) (loaded_ids (h.issued.inputRows hwork))
  rw [List.map_map, List.map_map] at hsame
  have hids : inputs.map (fun i => i.id) = _ := hsame
  rw [hids]
  exact hrows

end Inputs

/-! ### The loop -/

/-- The attempt is over, or the loop goes on. -/
def Continues (claimed : ClaimedJob) {α : Type} (post : α → World → Prop) :
    Option α → World → Prop
  | none, w => Concluded claimed w
  | some a, w => post a w

/-- `n` inputs are done, and the files of `outputs` are in their places. -/
def Advanced (claimed : ClaimedJob) (n : ℕ) (outputs : List PendingOutputArtifact) (w : World) :
    Prop := Holding claimed n w ∧ Shelved claimed outputs w

section Loop

variable {images : ImageService} {codec : JpegCodec} {faulty : Bool} {claimed : ClaimedJob}
  {w w' : World} {n maxWidth quality budget : ℕ} {inputs : List ArtifactRecord}
  {outputs : List PendingOutputArtifact}

theorem stable_advanced : Stable claimed (Advanced claimed n outputs) :=
  (stable_holding n).and (stable_shelved outputs)

/-- A call to the database touches no file. -/
theorem Shelved.commits {op : Op} {α : Type} {x : Session α} {r : Except RepositoryError α}
    (hw : Shelved claimed outputs w) (h : Commits op x w r w') : Shelved claimed outputs w' := by
  obtain ⟨hstorage, hsystem⟩ := h.cases
  refine ⟨h.held hw.1, ?_⟩
  rw [hstorage]
  refine hw.2.imp_left fun hlost => ?_
  rcases hsystem with hsame | hstep
  · rw [hsame]
    exact hlost
  · exact hw.1.lost_step hlost hstep

/-- `finish_if_cancel_requested` between two steps of the loop. -/
theorem checkpoint_achieves {α : Type} {post : α → World → Prop} {f : Task (Option α)}
    (hw : Advanced claimed n outputs w)
    (hf : ∀ w, Advanced claimed n outputs w →
      Achieves images codec faulty claimed (Continues claimed post) f w) :
    Achieves images codec faulty claimed (Continues claimed post)
      (do if ← finishIfCancelRequested claimed then return none else f) w := by
  refine achieves_bind ((finishIfCancelRequested_achieves False stable_advanced
    (fun _ h => ⟨n, h.1⟩) hw False.elim).consequence fun b w hw => ?_)
  cases b with
  | true => exact achieves_pure stable_concluded (by simpa [Continues] using hw)
  | false => exact hf w (by simpa using hw)

/-- A failure ends the loop. -/
theorem failure_achieves {α : Type} {post : α → World → Prop} {kind : FailureKind}
    {message : String} (hw : ∃ n, Holding claimed n w) :
    Achieves images codec faulty claimed (Continues claimed post)
      (do recordImageFailure claimed kind message; return none) w :=
  achieves_bind ((recordImageFailure_achieves hw).consequence fun _ _ hw =>
    achieves_pure stable_concluded hw)

theorem updateProgress_settles (hwork : claimed.work = .imageResize maxWidth quality inputs)
    (hn : n < inputs.length) (hw : Advanced claimed n outputs w) {r : Except RepositoryError Unit}
    (h : Commits (.updateProgress claimed (n + 1))
      (updateProgress claimed (n + 1) w.system.now) w r w') :
    Settles claimed (Advanced claimed (n + 1) outputs) r w' := by
  obtain ⟨hholding, hshelved⟩ := hw
  have hbound : ∀ a row, claimed.Working w.system a row →
      a.progressCompleted ≤ n + 1 ∧ n + 1 ≤ row.progressTotal := by
    intro a row hworking
    have hstanding := (hholding.standing a hworking.live.attempt).2 hworking.live.running
    obtain ⟨row', hrow', htotal⟩ := hholding.held.issued.total hwork
    obtain rfl : row = row' := Option.some.inj (hworking.live.job.symm.trans hrow')
    omega
  have hsmall : n + 1 ≤ i32Max := by
    have hcount := hholding.held.count hwork
    have hfiles : maxFilesPerJob ≤ i32Max := by decide
    omega
  refine ((updateProgress_guarded hholding.held hbound hsmall).replied hholding.held rfl
    h).settles hholding fun held ⟨a, ha, hrunning, hprogress⟩ => ⟨⟨held, ?_⟩, hshelved.commits h⟩
  intro b hb
  obtain rfl : a = b := Option.some.inj (ha.symm.trans hb)
  rw [hrunning]
  exact ⟨by decide, fun _ => hprogress⟩

/-- The second half of the loop body counts the input. -/
theorem acceptOutput_achieves (hwork : claimed.work = .imageResize maxWidth quality inputs)
    (hn : n < inputs.length) {input : ArtifactRecord} {processed : ProcessedImage}
    (hw : Advanced claimed n outputs w) :
    Achieves images codec faulty claimed
      (Continues claimed fun o w =>
        o = pendingOutput input processed ∧ Advanced claimed (n + 1) outputs w)
      (acceptOutput claimed budget n input processed) w := by
  refine achieves_bind ((quiet_achieves (q := .usageBytes) stable_advanced (fun _ => trivial)
    (fun w r w' hr => hr) hw).consequence fun usage w hw => ?_)
  cases usage with
  | error e => exact failure_achieves ⟨n, hw.1⟩
  | ok usage =>
    dsimp only
    split
    · exact failure_achieves ⟨n, hw.1⟩
    refine checkpoint_achieves hw fun w hw => ?_
    have hsmall : ¬u32Max < n + 1 := by
      have hcount := hw.1.held.count hwork
      have hfiles : maxFilesPerJob ≤ u32Max := by decide
      omega
    rw [if_neg hsmall]
    refine achieves_bind ((achieves_observe (q := .updateProgress claimed (n + 1)) stable_advanced
      (stable_settles stable_advanced) (fun _ _ => rfl)
      (fun w r w' hw hr => updateProgress_settles hwork hn hw hr) hw).consequence
        fun progress w hw => ?_)
    refine achieves_bind ((overtaken_achieves stable_advanced hw).consequence fun b w hw => ?_)
    cases b with
    | true => exact achieves_pure stable_concluded (by simpa [Continues] using hw)
    | false =>
      exact achieves_pure ((stable_const _).and stable_advanced) ⟨rfl, by simpa using hw⟩

theorem recordEncodingDuration_settles {duration : ℕ} (hduration : Measured duration)
    (hw : Advanced claimed n outputs w) {r : Except RepositoryError Unit}
    (h : Commits (.recordEncodingDuration claimed duration)
      (recordEncodingDuration claimed duration w.system.now) w r w') :
    TaskEnds claimed (fun _ => Advanced claimed n outputs) r w' := by
  obtain ⟨hholding, hshelved⟩ := hw
  have hheld := h.held hholding.held
  have hshelved' := hshelved.commits h
  rcases h.answer rfl with ⟨message, rfl⟩ | ⟨rfl, hdb, hnow⟩
  · trivial
  rcases recordEncodingDuration_answers hholding.held hduration with
    ⟨hlost, hr⟩ | ⟨a, row, hworking, ⟨message, hr⟩ | ⟨db', hr, b, hb, hrunning, hprogress⟩⟩
  · rw [hr] at hdb ⊢
    refine ⟨.of_lost hheld ?_, n, hholding.of_db hheld hdb⟩
    rw [hdb, hnow]
    exact hlost
  · rw [hr]
    trivial
  · rw [hr] at hdb ⊢
    refine ⟨⟨hheld, fun c hc => ?_⟩, hshelved'⟩
    rw [hdb] at hc
    obtain rfl : b = c := Option.some.inj (hb.symm.trans hc)
    rw [hrunning]
    refine ⟨by decide, fun _ => hprogress.trans ?_⟩
    exact (hholding.standing a hworking.live.attempt).2 hworking.live.running

/-- What the loop knows of a resize. -/
def Resized (claimed : ClaimedJob) (n : ℕ) (outputs : List PendingOutputArtifact)
    (input : ArtifactRecord) : Except ImageError ProcessedImage → World → Prop
  | .error _, w => Advanced claimed n [] w
  | .ok processed, w => (pendingOutput input processed).Storable ∧
      Advanced claimed n (outputs ++ [pendingOutput input processed]) w

theorem stable_resized {input : ArtifactRecord} (r : Except ImageError ProcessedImage) :
    Stable claimed (Resized claimed n outputs input r) := by
  cases r with
  | error e => exact stable_advanced
  | ok processed => exact (stable_const _).and stable_advanced

theorem Resized.advanced {input : ArtifactRecord} {r : Except ImageError ProcessedImage}
    (h : Resized claimed n outputs input r w) : ∃ outputs', Advanced claimed n outputs' w := by
  cases r with
  | error e => exact ⟨[], h⟩
  | ok processed => exact ⟨_, h.2⟩

theorem resize_resized (hcodec : codec.Marked) {input : ArtifactRecord} (hinput : input.Fits)
    (hfresh : ∀ o ∈ outputs, o.sourceArtifactId ≠ input.id) (hw : Advanced claimed n outputs w)
    {disk : Disk} {r : Except ImageError ProcessedImage} {st : Storage}
    (h : resizeToJpeg images codec disk input.storageKey
      (outputKey claimed.jobId.get claimed.attemptId input.id) maxWidth quality w.storage =
        (r, st)) :
    Resized claimed n outputs input r { w with storage := st } := by
  have hheld : Holding claimed n { w with storage := st } := ⟨hw.1.held, hw.1.standing⟩
  cases r with
  | error e => exact ⟨hheld, hw.1.held, Or.inr fun o ho => absurd ho List.not_mem_nil⟩
  | ok processed =>
    obtain ⟨hstorable, hplaced⟩ := resizeToJpeg_placed hcodec hinput h
    refine ⟨hstorable, hheld, hw.1.held, hw.2.2.imp_right fun hall o ho => ?_⟩
    rcases List.mem_append.mp ho with ho | ho
    · exact (hall o ho).resize (hfresh o ho) h
    · rw [List.mem_singleton.mp ho]
      exact hplaced

theorem resize_achieves (hcodec : codec.Marked) {input : ArtifactRecord} (hinput : input.Fits)
    (hfresh : ∀ o ∈ outputs, o.sourceArtifactId ≠ input.id) (hw : Advanced claimed n outputs w) :
    Achieves images codec faulty claimed (Resized claimed n outputs input)
      (observe (.resizeToJpeg input.storageKey
        (outputKey claimed.jobId.get claimed.attemptId input.id) maxWidth quality)) w := by
  refine achieves_observe (q := .resizeToJpeg _ _ _ _) stable_advanced stable_resized
    (fun w hw => ⟨⟨_, rfl⟩, hw.1.unpublished⟩) ?_ hw
  rintro w r w' hw ⟨disk, st, hrun, rfl⟩
  exact resize_resized hcodec hinput hfresh hw hrun

theorem recordEncodingDuration_achieves {input : ArtifactRecord}
    {result : Except ImageError ProcessedImage} {duration : ℕ}
    (hw : Measured duration ∧ Resized claimed n outputs input result w) :
    Achieves images codec faulty claimed (fun _ => Resized claimed n outputs input result)
      (demand (TaskRequest.recordEncodingDuration claimed duration).send) w := by
  refine achieves_demand (performs_send (q := .recordEncodingDuration claimed duration)
    ((stable_const _).and (stable_resized result)) (stable_taskEnds fun _ => stable_resized result)
      (fun _ _ => rfl) ?_ hw)
  rintro w r w' ⟨hmeasured, hw⟩ hr
  cases result with
  | error e => exact recordEncodingDuration_settles hmeasured hw hr
  | ok processed =>
    exact (recordEncodingDuration_settles hmeasured hw.2 hr).imp fun _ h => ⟨hw.1, h⟩

/-- The loop body places the output of its input and counts it, or it ends the attempt. -/
theorem processInput_achieves (hcodec : codec.Marked)
    (hwork : claimed.work = .imageResize maxWidth quality inputs) (hn : n < inputs.length)
    {input : ArtifactRecord} (hinput : input.Fits)
    (hfresh : ∀ o ∈ outputs, o.sourceArtifactId ≠ input.id) (hw : Advanced claimed n outputs w) :
    Achieves images codec faulty claimed
      (Continues claimed fun o w =>
        (∃ processed, o = pendingOutput input processed) ∧ o.Storable ∧
          Advanced claimed (n + 1) (outputs ++ [o]) w)
      (processInput claimed maxWidth quality budget n input) w := by
  refine checkpoint_achieves hw fun w hw => ?_
  refine achieves_bind ((resize_achieves hcodec hinput hfresh hw).consequence
    fun result w hw => ?_)
  refine achieves_bind ((elapsed_achieves (stable_resized result) .encodingStarted hw).consequence
    fun duration w hw => ?_)
  refine achieves_bind ((recordEncodingDuration_achieves hw).consequence fun _ w hw => ?_)
  cases result with
  | error e => exact failure_achieves ⟨n, hw.1⟩
  | ok processed =>
    refine (acceptOutput_achieves hwork hn hw.2).consequence fun r w' hr => ?_
    cases r with
    | none => exact hr
    | some o =>
      obtain ⟨rfl, hadvanced⟩ := hr
      exact ⟨⟨processed, rfl⟩, hw.1, hadvanced⟩

/-- The outputs so far follow the inputs done so far. -/
structure Follows (outputs : List PendingOutputArtifact) (inputs : List ArtifactRecord) : Prop where
  pairs : outputs.map (fun o => (o.sourceArtifactId, o.itemIndex)) =
    inputs.map fun i => (i.id, i.itemIndex)
  storable : ∀ o ∈ outputs, o.Storable

theorem Follows.snoc {done : List ArtifactRecord} {input : ArtifactRecord}
    {o : PendingOutputArtifact} (h : Follows outputs done)
    (ho : ∃ processed, o = pendingOutput input processed) (hstorable : o.Storable) :
    Follows (outputs ++ [o]) (done ++ [input]) := by
  obtain ⟨processed, rfl⟩ := ho
  refine ⟨?_, fun o ho => ?_⟩
  · rw [List.map_append, List.map_append, h.pairs]
    rfl
  · rcases List.mem_append.mp ho with ho | ho
    · exact h.storable o ho
    · rw [List.mem_singleton.mp ho]
      exact hstorable

theorem Follows.fresh {done rest : List ArtifactRecord} {input : ArtifactRecord}
    (h : Follows outputs done) (hnodup : ((done ++ input :: rest).map fun i => i.id).Nodup) :
    ∀ o ∈ outputs, o.sourceArtifactId ≠ input.id := by
  intro o ho heq
  have hids := congrArg (List.map Prod.fst) h.pairs
  rw [List.map_map, List.map_map] at hids
  have hmem : input.id ∈ done.map fun i => i.id := by
    have hsource := List.mem_map_of_mem (f := Prod.fst ∘ fun o : PendingOutputArtifact =>
      (o.sourceArtifactId, o.itemIndex)) ho
    rw [hids] at hsource
    rw [← heq]
    exact hsource
  rw [List.map_append, List.map_cons, List.nodup_append] at hnodup
  exact hnodup.2.2 _ hmem _ List.mem_cons_self rfl

/-- The loop: induction on the inputs that are left. -/
theorem processInputs_achieves (hcodec : codec.Marked) (done : List ArtifactRecord)
    {rest : List ArtifactRecord}
    (hwork : claimed.work = .imageResize maxWidth quality (done ++ rest))
    (hfollows : Follows outputs done) (hw : Advanced claimed done.length outputs w) :
    Achieves images codec faulty claimed
      (Continues claimed fun all w =>
        Follows all (done ++ rest) ∧ Advanced claimed (done ++ rest).length all w)
      (processInputs claimed maxWidth quality budget done.length rest outputs) w := by
  induction rest generalizing done outputs w with
  | nil =>
    rw [List.append_nil]
    exact achieves_pure ((stable_const _).and stable_advanced) ⟨hfollows, hw⟩
  | cons input rest ih =>
    have hheld := hw.1.held
    refine achieves_bind ((processInput_achieves hcodec hwork (by simp)
      (hheld.fits hwork input (by simp)) (hfollows.fresh (hheld.nodup hwork)) hw).consequence
        fun r w hr => ?_)
    cases r with
    | none => exact achieves_pure stable_concluded hr
    | some o =>
      obtain ⟨ho, hstorable, hadvanced⟩ := hr
      have hsplit : done ++ input :: rest = (done ++ [input]) ++ rest := by simp
      rw [hsplit] at hwork ⊢
      have hlength : done.length + 1 = (done ++ [input]).length := by simp
      rw [hlength] at hadvanced ⊢
      exact ih (done ++ [input]) hwork (hfollows.snoc ho hstorable) hadvanced

end Loop

end TaskHarbor
