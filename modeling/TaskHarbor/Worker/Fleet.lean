import TaskHarbor.Worker.Renewal

/-! All tasks of all workers at once, over one database and one storage. What a task does is what
the tasks of other attempts rely on, so what each knows alone it knows among any number of
others. -/
namespace TaskHarbor

open Interleaving Relational Transaction Runs

structure Member where
  claimed : ClaimedJob
  task : RenewingTask

/-- A step of one task. -/
def Member.Acts (images : ImageService) (codec : JpegCodec) (faulty : Bool)
    (before after : Member × World) : Prop :=
  after.1.claimed = before.1.claimed ∧ RenewingTask.Acts images codec faulty before.1.claimed
    (before.1.task, before.2) (after.1.task, after.2)

/-- What the rest does to the storage: it works outside the outputs, removes some of what a
reclaimed attempt left, removes an expired output, or sweeps. -/
inductive Housekeeping (members : List Member) (w : World) (st : Storage) : Prop
  | elsewhere (outside : ∀ path, ["outputs"] <+: path → st.read? path = w.storage.read? path)
  | reclaimed (a : AttemptRow) (row : w.system.db.jobAttempts.get? a.id = some a)
      (given : a.GivenUp) (outside : SameOutside (attemptPath a.jobId a.id) w.storage st)
      (fewer : ∀ path, st.read? path = none ∨ st.read? path = w.storage.read? path)
  | expired (jobId attemptId inputId : ℕ) (withdrawn : Withdrawn attemptId w.system)
      (removed : st = w.storage.removeFile (outputPath jobId attemptId inputId))
  | swept (sweep : Sweep) (before : sweep.Before w.system)
      (heeds : ∀ m ∈ members, sweep.Heeds m.claimed)
      (clears : sweep.rule.Clears sweep.seen w.storage st)

/-- A step of the rest: a call that is not about a claim, or housekeeping. -/
inductive Rest (members : List Member) (w : World) : World → Prop
  | system (op : Op) (s : System) (unclaimed : op.claim = none) (step : w.system.step op = some s) :
      Rest members w { w with system := s }
  | storage (st : Storage) (keeping : Housekeeping members w st) :
      Rest members w { w with storage := st }

/-- `worker_loop` spawns a task for a claim that it was returned. -/
inductive Spawns (w : World) : Member → World → Prop
  | spawned (claimed : ClaimedJob) (budget : ℕ) (s : System) (claim : w.system.HandsOut claimed s) :
      Spawns w ⟨claimed, processWithLeaseRenewal claimed budget⟩ { w with system := s }

/-- A step of the fleet. -/
def Fleet (images : ImageService) (codec : JpegCodec) (faulty : Bool) :
    List Member × World → List Member × World → Prop :=
  Crowd (Member.Acts images codec faulty) Rest Spawns

/-! ### What a task leaves the others -/

/-- Only files of the attempt change. -/
structure Confined (jobId attemptId : ℕ) (w w' : World) : Prop where
  system : w'.system = w.system
  storage : ∀ path, ¬attemptPath jobId attemptId <+: path →
    w'.storage.read? path = w.storage.read? path

/-- What one step of a task does: it changes files of its attempt, or it makes a call about its
claim. -/
inductive Effect (claimed : ClaimedJob) (w w' : World) : Prop
  | files (confined : Confined claimed.jobId.get claimed.attemptId w w')
  | call (op : Op) (claim : op.claim = some claimed) (storage : w'.storage = w.storage)
      (step : w.system.step op = some w'.system)

section Guarantee

variable {images : ImageService} {codec : JpegCodec} {faulty : Bool} {claimed other : ClaimedJob}
  {w w' : World} {p path : Path} {st st' : Storage}

theorem SameOutside.read? (h : SameOutside p st st') (hpath : ¬p <+: path) :
    st'.read? path = st.read? path := by
  have hkeep : ∀ files : List StoredFile, (files.filter fun f => !p.isPrefixOf f.path).find?
      (fun f => f.path == path) = files.find? fun f => f.path == path := by
    intro files
    rw [List.find?_filter]
    congr 1
    funext f
    rcases eq_or_ne f.path path with rfl | hf
    · simp [outside_iff.mpr hpath]
    · simp [hf]
  unfold SameOutside Storage.removeTree at h
  unfold Storage.read?
  rw [← hkeep st'.files, ← hkeep st.files]
  exact congrArg (fun files => (files.find? fun f => f.path == path).map StoredFile.content) h

theorem removeTree_outside (st : Storage) (p : Path) : SameOutside p st (st.removeTree p) := by
  unfold SameOutside Storage.removeTree
  simp only [List.filter_filter, Bool.and_self]

theorem Removal.outside {key : String} (hkey : resolveKey key = .ok p)
    {r : Except StorageError Unit} (h : Removal faulty key st r st') : SameOutside p st st' := by
  cases h with
  | refused e key_eq => exact .refl p st
  | removed path key_eq =>
    obtain rfl := Except.ok.inj (hkey.symm.trans key_eq)
    exact removeTree_outside st p
  | stopped e path st' key_eq fault outside inside =>
    obtain rfl := Except.ok.inj (hkey.symm.trans key_eq)
    exact outside

/-- A removal leaves a path as it is, or takes its file. -/
theorem Removal.shrinks {key : String} {r : Except StorageError Unit}
    (h : Removal faulty key st r st') (q : Path) :
    st'.read? q = none ∨ st'.read? q = st.read? q := by
  cases h with
  | refused e key_eq => exact Or.inr rfl
  | stopped e path st' key_eq fault outside inside => exact inside q
  | removed path key_eq =>
    by_cases hunder : path <+: q
    · exact Or.inl (removeTree_read? hunder st)
    · exact Or.inr ((removeTree_outside st path).read? hunder)

/-- No path lies below the directories of two attempts. -/
theorem attemptPath_apart {j a k b : ℕ} (hne : a ≠ b) (h : attemptPath j a <+: path) :
    ¬attemptPath k b <+: path := by
  intro h'
  have hsame := List.prefix_of_prefix_length_le h h' (Nat.le_refl 3)
  exact hne (attemptPath_inj (hsame.eq_of_length rfl)).2

theorem Confined.refl (jobId attemptId : ℕ) (w : World) : Confined jobId attemptId w w :=
  ⟨rfl, fun _ _ => rfl⟩

theorem Confined.others {jobId attemptId : ℕ} (h : Confined jobId attemptId w w')
    (hne : attemptId ≠ other.attemptId) : Others other w w' := by
  have hupkeep : Upkeep other w.system w.storage w'.storage :=
    .elsewhere fun path hpath => h.storage path (attemptPath_apart hne.symm hpath)
  obtain ⟨system, storage⟩ := w
  obtain ⟨system', storage'⟩ := w'
  obtain rfl : system' = system := h.system
  exact Relation.ReflTransGen.single (.storage _ hupkeep)

/-- A task of another attempt may rely on it. -/
theorem Effect.others (h : Effect claimed w w') (hne : claimed.attemptId ≠ other.attemptId) :
    Others other w w' := by
  cases h with
  | files confined => exact confined.others hne
  | call op claim storage step =>
    obtain ⟨system, st⟩ := w
    obtain ⟨system', st'⟩ := w'
    obtain rfl : st' = st := storage
    refine Relation.ReflTransGen.single (.system op _ (Or.inl fun c hc => ?_) step)
    obtain rfl := Option.some.inj (claim.symm.trans hc)
    exact hne

/-- It shows no new row of another attempt. -/
theorem Effect.publishedBy (h : Effect claimed w w') (hw : w.system.Reachable) {id : ℕ}
    (hne : claimed.attemptId ≠ id) : w'.system.db.publishedBy id ⊆ w.system.db.publishedBy id := by
  cases h with
  | files confined =>
    rw [confined.system]
    exact fun _ hrow => hrow
  | call op claim storage step =>
    have hforeign : op.Foreign id := by
      intro c hc
      obtain rfl := Option.some.inj (claim.symm.trans hc)
      exact hne
    exact hforeign.publishedBy hw step

theorem Commits.effect {op : Op} {α : Type} {x : Session α} {r : Except RepositoryError α}
    (h : Commits op x w r w') (hclaim : op.claim = some claimed) : Effect claimed w w' := by
  obtain ⟨hstorage, hsame | hstep⟩ := h.cases
  · refine .files ⟨hsame, fun _ _ => ?_⟩
    rw [hstorage]
  · exact .call op hclaim hstorage hstep

theorem Removal.effect {r : Except StorageError Unit} (h : Removal faulty
    (attemptOutputPrefix claimed.jobId.get claimed.attemptId) w.storage r st') :
    Effect claimed w { w with storage := st' } :=
  .files ⟨rfl, fun _ hpath => (h.outside (attemptPath_resolves _ _)).read? hpath⟩

theorem Safe.effect {q : TaskRequest} {r : q.Reply} (hsafe : Safe claimed q w)
    (h : Handles images codec faulty w q r w') : Effect claimed w w' := by
  cases q with
  | cancellationRequested c =>
    obtain ⟨rfl, -⟩ := h
    exact .files (.refl _ _ _)
  | elapsed stopwatch =>
    obtain ⟨rfl, -⟩ := h
    exact .files (.refl _ _ _)
  | sleep delay =>
    obtain rfl : w' = w := h
    exact .files (.refl _ _ _)
  | usageBytes =>
    obtain rfl : w' = w := h
    exact .files (.refl _ _ _)
  | finishCancelled c duration =>
    obtain rfl : c = claimed := hsafe
    exact Commits.effect h rfl
  | complete c duration =>
    obtain rfl : c = claimed := hsafe
    exact Commits.effect h rfl
  | completeImageJob c duration outputs =>
    obtain ⟨rfl, -⟩ := hsafe
    exact Commits.effect h rfl
  | recordEncodingDuration c duration =>
    obtain rfl : c = claimed := hsafe
    exact Commits.effect h rfl
  | recordFailure c duration kind message =>
    obtain rfl : c = claimed := hsafe
    exact Commits.effect h rfl
  | updateProgress c completed =>
    obtain rfl : c = claimed := hsafe
    exact Commits.effect h rfl
  | removeTree key =>
    obtain ⟨rfl, -⟩ := hsafe
    obtain ⟨st, hremoval, rfl⟩ := h
    exact hremoval.effect
  | resizeToJpeg inputKey key maxWidth quality =>
    obtain ⟨⟨id, rfl⟩, -⟩ := hsafe
    obtain ⟨disk, st, hrun, rfl⟩ := h
    have houtside : SameOutside (attemptPath claimed.jobId.get claimed.attemptId) w.storage st :=
      (resizeToJpeg_moves (writesAt_outside (attemptPath_under_iff.mpr ⟨rfl, rfl⟩))
        outputKey_resolves inputKey maxWidth quality).run hrun
    exact .files ⟨rfl, fun _ hpath => houtside.read? hpath⟩

/-- Every step of a task is one about its own claim or its own files. -/
theorem RenewingTask.Sound.effect {task task' : RenewingTask}
    (h : task.Sound images codec faulty claimed w)
    (hact : RenewingTask.Acts images codec faulty claimed (task, w) (task', w')) :
    Effect claimed w w' := by
  cases hact with
  | processing call => exact (h.1.act (Others.refl claimed) call).1.effect call
  | finishing call => exact (h.1.act (Others.refl claimed) call).1.effect call
  | renewed renewal granted => exact renewal.effect rfl
  | refused renewal => exact renewal.effect rfl
  | joined r w => exact .files (.refl _ _ _)
  | rejoined r w => exact .files (.refl _ _ _)
  | aborted task w => exact .files (.refl _ _ _)
  | @concluding refused q k r w w' call =>
    cases refused with
    | false => exact (h.1.act (Others.refl claimed) call).1.effect call
    | true =>
      have hdiscarding := h.2
      generalize hp : Program.call q k = p at hdiscarding
      cases hdiscarding with
      | removed ended cleared => cases hp
      | failed message disk => cases hp
      | removing ended =>
        cases hp
        obtain ⟨st, hremoval, rfl⟩ := call
        exact hremoval.effect

end Guarantee

/-! ### The fleet -/

section Fleet

variable {images : ImageService} {codec : JpegCodec} {faulty : Bool} {w w' : World}
  {members members' : List Member}

/-- A returned claim is one of a new attempt. -/
theorem System.HandsOut.fresh {s t : System} {claimed : ClaimedJob} (h : s.HandsOut claimed t) :
    s.db.jobAttempts.get? claimed.attemptId = none := by
  obtain ⟨workerId, claimToken, locked, -, hclaimed⟩ := h.step
  unfold claimNext at hclaimed
  rcases commit_cases (claimNextWithTime workerId none s.now claimToken locked) s.db with
    ⟨result, db', htx, hc⟩ | ⟨e, -, hc⟩
  · rw [hc] at hclaimed
    obtain rfl : result = some claimed := Except.ok.inj hclaimed
    rcases claimNextWithTime_ok htx with ⟨hnone, -⟩ | ⟨candidate, worker, issued, hsome, hclaims⟩
    · cases hnone
    · obtain rfl : claimed = issued := Option.some.inj hsome
      rw [hclaims.attemptId]
      exact Table.get?_next _
  · rw [hc] at hclaimed
    cases hclaimed

/-- The removal of what a given-up attempt left, even where it stops half way. -/
theorem Removal.housekeeping {a : AttemptRow} {r : Except StorageError Unit} {st : Storage}
    (h : Removal faulty (attemptOutputPrefix a.jobId a.id) w.storage r st)
    (hrow : w.system.db.jobAttempts.get? a.id = some a) (hgiven : a.GivenUp) :
    Housekeeping members w st :=
  .reclaimed a hrow hgiven (h.outside (attemptPath_resolves _ _)) h.shrinks

/-- To each task housekeeping is upkeep. -/
theorem Housekeeping.upkeep {st : Storage} (h : Housekeeping members w st)
    (hw : w.system.Reachable) {m : Member} (hm : m ∈ members) :
    Upkeep m.claimed w.system w.storage st := by
  cases h with
  | elsewhere outside =>
    refine .elsewhere fun path hpath => outside path (List.IsPrefix.trans ?_ hpath)
    exact ⟨_, rfl⟩
  | swept sweep before heeds clears => exact .swept sweep before (heeds m hm) clears
  | reclaimed a row given outside fewer =>
    by_cases hsame : a.id = m.claimed.attemptId
    · rw [hsame] at row
      refine .discarded a row given.closed.1 (hw.publishedBy fun b hb => ?_) fun path _ =>
        fewer path
      obtain rfl : a = b := Option.some.inj (row.symm.trans hb)
      exact given.closed.2
    · exact .elsewhere fun path hpath =>
        outside.read? (attemptPath_apart (Ne.symm hsame) hpath)
  | expired jobId attemptId inputId withdrawn removed =>
    subst removed
    by_cases hsame : attemptId = m.claimed.attemptId
    · subst hsame
      obtain ⟨b, hb, hsucceeded⟩ := withdrawn.closed
      refine .discarded b hb ?_ withdrawn.rows fun path _ => removeFile_read? _ _ path
      rw [hsucceeded]
      decide
    · refine .elsewhere fun path hpath => ?_
      refine SameBut.read? ((writesAt_sameBut _).removeFile w.storage) ?_
      rintro rfl
      exact hsame (attemptPath_under_iff.mp hpath).2.symm

theorem fleet_composes (hcodec : codec.Marked) :
    Composes (fun m : Member => Others m.claimed) (Member.Acts images codec faulty) Rest Spawns
      (fun m w => m.task.Sound images codec faulty m.claimed w)
      (fun m o => m.claimed.attemptId ≠ o.claimed.attemptId) (fun w => w.system.Reachable) where
  kept := {
    other := fun _ _ _ h hw => h.others hw
    act := fun m w m' w' h hact => by
      rw [hact.1]
      exact h.act hact.2 }
  symm := fun _ _ h => h.symm
  env := by
    intro l w w' hw hrest
    cases hrest with
    | system op s unclaimed step =>
      refine ⟨hw.run (Run.single op trivial step : Run System.step Always w.system s), ?_⟩
      intro m _ _
      refine Relation.ReflTransGen.single (.system op s (Or.inl fun c hc => ?_) step)
      rw [unclaimed] at hc
      cases hc
    | storage st keeping =>
      exact ⟨hw, fun m hm _ => Relation.ReflTransGen.single (.storage st (keeping.upkeep hw hm))⟩
  act := by
    intro m w m' w' _ h hact
    refine ⟨(h.act hact.2).keys.held.reachable, fun o hne hkeys => ⟨?_, ?_⟩⟩
    · exact (h.effect hact.2).others hne
    · rw [hact.1]
      exact hne
  birth := by
    intro w m w' hw hspawns
    cases hspawns with
    | spawned claimed budget s claim =>
      have hholding := claim.holding hw w.storage
      refine ⟨hholding.held.reachable, processWithLeaseRenewal_sound hcodec hholding, ?_⟩
      intro o ho
      constructor
      · obtain ⟨workerId, claimToken, locked, step, -⟩ := claim.step
        refine Relation.ReflTransGen.single (.system _ s (Or.inl fun c hc => ?_) step)
        cases hc
      · intro hsame
        obtain ⟨a, ha, -⟩ := ho.keys.held.issued.attempt
        rw [hsame, claim.fresh] at ha
        cases ha

/-- The fleet before its first task. -/
theorem composed_initial {G : World → Prop} (hw : G w) :
    Composed (fun (m : Member) w => m.task.Sound images codec faulty m.claimed w)
      (fun m o => m.claimed.attemptId ≠ o.claimed.attemptId) G ([], w) :=
  ⟨hw, fun _ hm => absurd hm List.not_mem_nil, .nil⟩

/-- What all tasks know in every reachable state of the fleet. -/
theorem fleet_sound (hcodec : codec.Marked) (hw : w.system.Reachable)
    (hrun : Relation.ReflTransGen (Fleet images codec faulty) ([], w) (members, w')) :
    Composed (fun (m : Member) w => m.task.Sound images codec faulty m.claimed w)
      (fun m o => m.claimed.attemptId ≠ o.claimed.attemptId) (fun w => w.system.Reachable)
      (members, w') :=
  (fleet_composes hcodec).run (composed_initial hw) hrun

/-- Every published row has a task. -/
def Manned (members : List Member) (w : World) : Prop :=
  ∀ id, w.system.db.publishedBy id ≠ [] → ∃ m ∈ members, m.claimed.attemptId = id

theorem Manned.of_subset (h : Manned members w) {members' : List Member}
    (hmembers : ∀ m ∈ members, ∃ m' ∈ members', m'.claimed = m.claimed)
    (hrows : ∀ id, w'.system.db.publishedBy id ≠ [] →
      (∃ m' ∈ members', m'.claimed.attemptId = id) ∨ w.system.db.publishedBy id ≠ []) :
    Manned members' w' := by
  intro id hshown
  rcases hrows id hshown with hmanned | hbefore
  · exact hmanned
  · obtain ⟨m, hm, hid⟩ := h id hbefore
    obtain ⟨m', hm', hsame⟩ := hmembers m hm
    exact ⟨m', hm', by rw [hsame, hid]⟩

theorem ne_nil_of_subset {α : Type} {l l' : List α} (h : l' ⊆ l) (hne : l' ≠ []) : l ≠ [] := by
  rintro rfl
  exact hne (List.subset_nil.mp h)

theorem Manned.step (h : Manned members w) (hsound :
    Composed (fun (m : Member) w => m.task.Sound images codec faulty m.claimed w)
      (fun m o => m.claimed.attemptId ≠ o.claimed.attemptId) (fun w => w.system.Reachable)
      (members, w)) (hstep : Fleet images codec faulty (members, w) (members', w')) :
    Manned members' w' := by
  cases hstep with
  | env l step =>
    refine h.of_subset (fun m hm => ⟨m, hm, rfl⟩) fun id hshown => Or.inr ?_
    cases step with
    | system op s unclaimed step =>
      have hforeign : op.Foreign id := by
        intro c hc
        rw [unclaimed] at hc
        cases hc
      exact ne_nil_of_subset (hforeign.publishedBy hsound.world step) hshown
    | storage st keeping => exact hshown
  | act l₁ l₂ m m' w w' step =>
    have hself := hsound.parties m (List.mem_append_right _ List.mem_cons_self)
    have heffect := hself.effect step.2
    have hsame : m'.claimed = m.claimed := step.1
    refine h.of_subset (fun o ho => ?_) fun id hshown => ?_
    · rcases List.mem_append.mp ho with ho | ho
      · exact ⟨o, List.mem_append_left _ ho, rfl⟩
      · rcases List.mem_cons.mp ho with rfl | ho
        · exact ⟨m', List.mem_append_right _ List.mem_cons_self, hsame⟩
        · exact ⟨o, List.mem_append_right _ (List.mem_cons_of_mem _ ho), rfl⟩
    · by_cases hid : m.claimed.attemptId = id
      · exact Or.inl ⟨m', List.mem_append_right _ List.mem_cons_self, by rw [hsame, hid]⟩
      · exact Or.inr (ne_nil_of_subset (heffect.publishedBy hsound.world hid) hshown)
  | birth l step =>
    cases step with
    | spawned claimed budget s claim =>
      refine h.of_subset (fun m hm => ⟨m, List.mem_append_left _ hm, rfl⟩) fun id hshown =>
        Or.inr ?_
      obtain ⟨workerId, claimToken, locked, step, -⟩ := claim.step
      have hforeign : (Op.claimNext workerId claimToken locked).Foreign id := by
        intro c hc
        cases hc
      exact ne_nil_of_subset (hforeign.publishedBy hsound.world step) hshown

theorem manned_run (hcodec : codec.Marked) (hw : w.system.Reachable) (hstart : Manned [] w)
    (hrun : Relation.ReflTransGen (Fleet images codec faulty) ([], w) (members, w')) :
    Manned members w' := by
  generalize hc : (members, w') = c at hrun
  induction hrun generalizing members w' with
  | refl =>
    cases hc
    exact hstart
  | @tail c d hprefix hlast ih =>
    subst hc
    obtain ⟨l, u⟩ := c
    exact (ih rfl).step (fleet_sound hcodec hw hprefix) hlast

end Fleet

/-! ### Whole runs of the fleet -/

section Runs

variable {images : ImageService} {codec : JpegCodec} {faulty : Bool} {now : ℤ} {st : Storage}
  {members : List Member} {w : World}

/-- From an empty database, with any number of tasks that come and act in any order: every output
row of the database was published by one of the tasks, and its file is there with the size that the
row shows unless a renewal of that task was refused; and no task ends with an error that is not one
of the database. -/
theorem fleet_outputs_on_disk (hcodec : codec.Marked)
    (hrun : Relation.ReflTransGen (Fleet images codec faulty) ([], ⟨.initial now, st⟩)
      (members, w)) :
    (∀ row ∈ w.system.db.artifacts, row.kind = .output →
      ∃ m ∈ members, row.attemptId = some m.claimed.attemptId ∧
        (m.task.refused = false → w.storage.Holds row)) ∧
    ∀ m ∈ members, ∀ refused r, m.task = .concluding refused (.done r) →
      (∃ message, r = .error (.database message)) ∨ r = .ok () ∧ Concluded m.claimed w := by
  have hstart : System.Reachable (.initial now) := ⟨now, .refl _⟩
  have hsound := fleet_sound hcodec (w := ⟨.initial now, st⟩) hstart hrun
  have hmanned := manned_run hcodec (w := ⟨.initial now, st⟩) hstart
    (fun id hshown => absurd rfl hshown) hrun
  constructor
  · intro row hrow hkind
    have hchecks := (hsound.world.inv.db.readable row.jobId).outputs row
      (mem_artifactsOf.mpr ⟨hrow, rfl, hkind⟩)
    have hattempt := (ArtifactRow.checks_iff.mp hchecks).2.2.2.2.2.1
    rw [hkind] at hattempt
    obtain ⟨id, hid⟩ := Option.isSome_iff_exists.mp hattempt.1
    have hshown : row ∈ w.system.db.publishedBy id := mem_publishedBy.mpr ⟨hrow, hid⟩
    obtain ⟨m, hm, rfl⟩ := hmanned id (List.ne_nil_of_mem hshown)
    exact ⟨m, hm, hid, fun hrefused => ((hsound.parties m hm).disk hrefused).files row hshown⟩
  · intro m hm refused r htask
    have hparty : m.task.Sound images codec faulty m.claimed w := hsound.parties m hm
    rw [htask] at hparty
    exact RenewingTask.Sound.answers hparty

/-- Calls that are about no claim. -/
theorem rest_steps {ops : List Op} (hops : ∀ op ∈ ops, op.claim = none) {s t : System}
    (h : exec System.step s ops = some t) :
    Relation.ReflTransGen (Fleet images codec faulty) (members, ⟨s, st⟩) (members, ⟨t, st⟩) := by
  induction ops generalizing s with
  | nil =>
    cases h
    exact .refl
  | cons op ops ih =>
    obtain ⟨u, hstep, hrest⟩ := Option.bind_eq_some_iff.mp h
    exact .head (.env members (.system op u (hops op List.mem_cons_self) hstep))
      (ih (fun o ho => hops o (List.mem_cons_of_mem _ ho)) hrest)

/-- Steps of the only task. -/
theorem member_steps {claimed : ClaimedJob} {a b : RenewingTask × World}
    (h : Relation.ReflTransGen (RenewingTask.Acts images codec faulty claimed) a b) :
    Relation.ReflTransGen (Fleet images codec faulty) ([⟨claimed, a.1⟩], a.2)
      ([⟨claimed, b.1⟩], b.2) := by
  induction h with
  | refl => exact .refl
  | tail _ hlast ih => exact .tail ih (.act [] [] _ _ _ _ ⟨rfl, hlast⟩)

end Runs

/-- A fleet of one task that publishes two images. -/
theorem sample_fleet : ∃ (claimed : ClaimedJob) (w : World),
    Relation.ReflTransGen (Fleet squareImages squareCodec false)
      ([], ⟨.initial 0, squareStorage⟩) ([⟨claimed, .processing (.done (.ok ()))⟩], w) ∧
    (w.system.db.publishedBy claimed.attemptId).length = 2 ∧
    ∃ keys, (expireOutputArtifacts 0 w.system.now w.system.db).1 = .ok keys ∧ keys.length = 2 := by
  obtain ⟨s, t, claimed, w, hexec, hclaim, hacts, hcount, hkeys⟩ := sample_processed
  have hrest : Relation.ReflTransGen (Fleet squareImages squareCodec false)
      ([], ⟨.initial 0, squareStorage⟩) ([], ⟨s, squareStorage⟩) := rest_steps (by decide) hexec
  have hspawn : Fleet squareImages squareCodec false ([], ⟨s, squareStorage⟩)
      ([⟨claimed, processWithLeaseRenewal claimed u64Max⟩], ⟨t, squareStorage⟩) :=
    .birth [] (.spawned claimed u64Max t hclaim)
  exact ⟨claimed, w, (hrest.tail hspawn).trans (member_steps hacts), hcount, hkeys⟩

theorem fleet_outputs_on_disk_both : ∃ (claimed : ClaimedJob) (w : World),
    (w.system.db.publishedBy claimed.attemptId).length = 2 ∧
      ∀ row ∈ w.system.db.artifacts, row.kind = .output → w.storage.Holds row := by
  obtain ⟨claimed, w, hrun, hcount, -⟩ := sample_fleet
  obtain ⟨hrows, -⟩ := fleet_outputs_on_disk squareCodec_marked hrun
  refine ⟨claimed, w, hcount, fun row hrow hkind => ?_⟩
  obtain ⟨m, hm, -, hholds⟩ := hrows row hrow hkind
  rw [List.mem_singleton.mp hm] at hholds
  exact hholds rfl

end TaskHarbor
