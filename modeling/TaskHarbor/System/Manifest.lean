import TaskHarbor.System.Fencing

/-! In every reachable state an image job shows one output for each input, all of its one successful
attempt, from its success to the expiry of its outputs. -/
namespace TaskHarbor

open Relational Transaction Runs

/-- The output rows of a job against its attempts and inputs. -/
structure JobRow.Manifested (r : JobRow) (attempts : List AttemptRow)
    (inputs outputs : List ArtifactRow) : Prop where
  onlySucceeded : outputs ≠ [] → r.state = .succeeded ∧ r.jobType = .imageResize
  oneAttempt : outputs ≠ [] → ∃ a ∈ attempts, a.state = .succeeded ∧
    (∀ b ∈ attempts, b.state = .succeeded → b = a) ∧ ∀ o ∈ outputs, o.attemptId = some a.id
  complete : r.state = .succeeded → r.jobType = .imageResize → r.outputsExpiredAt = none →
    (outputs.map fun o => (o.sourceArtifactId, o.itemIndex)).Perm
      (inputs.map fun i => (some i.id, i.itemIndex))
  expired : r.outputsExpiredAt.isSome = true → outputs = []

theorem JobView.Manifest.manifested {v : JobView} (hv : v.Lifecycle) (hm : v.Manifest) {r : JobRow}
    (hr : v.job = some r) : r.Manifested v.attempts v.inputs v.outputs := by
  have hshowing : v.outputs ≠ [] → r.Showing := by
    intro hne
    by_contra hnot
    exact hne (hm.unpublished r hr hnot)
  refine ⟨fun hne => ⟨(hshowing hne).1, (hshowing hne).2.1⟩, ?_, ?_, ?_⟩
  · intro hne
    have hshow := hshowing hne
    obtain ⟨earlier, a, hlast, hpublished⟩ := hm.published r hr hshow
    have hadmits := (hv.course r hr).admits
    rw [hshow.1] at hadmits
    obtain ⟨earlier', a', hlast', hspent, ha⟩ := hadmits
    obtain ⟨rfl, heq⟩ := List.append_inj' (hlast.symm.trans hlast') rfl
    cases heq
    refine ⟨a, by simp [hlast], ha, ?_, fun o ho => (hpublished.shows o ho).1⟩
    intro b hb hsucceeded
    rw [hlast] at hb
    rcases List.mem_append.mp hb with hb | hb
    · rw [(hspent b hb).1] at hsucceeded
      cases hsucceeded
    · exact List.mem_singleton.mp hb
  · intro hs himage hnone
    obtain ⟨earlier, a, -, hpublished⟩ := hm.published r hr ⟨hs, himage, hnone⟩
    exact hpublished.perm
  · intro hexpired
    refine hm.unpublished r hr fun hshow => ?_
    rw [hshow.2.2] at hexpired
    cases hexpired

/-! ### Publication -/

section Publication

variable {claimed : ClaimedJob} {now : ℤ} {db : Db} {a : AttemptRow} {r : JobRow}

/-- The given outputs are one for each input, with its id and its index. -/
def Matches (outputs : List PendingOutputArtifact) (inputs : List ArtifactRow) : Prop :=
  (outputs.map fun o => (o.sourceArtifactId, o.itemIndex)).Perm
    (inputs.map fun i => (i.id, i.itemIndex))

/-- Stored outputs match the inputs. -/
theorem insertOutputArtifacts_matches {jobId attemptId : ℕ} {outputs : List PendingOutputArtifact}
    {db' : Db} {u : Unit} (hcount : outputs.length = (db.artifactsOf jobId .input).length)
    (h : insertOutputArtifacts jobId attemptId now outputs db = .ok (u, db')) :
    Matches outputs (db.artifactsOf jobId .input) := by
  obtain ⟨-, rows, happended, hrows⟩ := insertOutputArtifacts_ok h
  have hpublished : Published (db.artifactsOf jobId .input) rows attemptId := by
    refine ⟨happended.batch.indexes, ?_, hrows.length_eq.symm.trans hcount⟩
    intro o ho
    obtain ⟨output, -, -, source, stored, i, hsource, rfl⟩ := forall₂_mem_right hrows ho
    exact ⟨rfl, source, mem_artifactsOf.mpr ⟨Table.mem_of_get? hsource.row, hsource.job,
      hsource.kind⟩, rfl, hsource.index.symm⟩
  have hsame : (rows.map fun o => (o.sourceArtifactId, o.itemIndex)) =
      outputs.map fun o => (some o.sourceArtifactId, o.itemIndex) := by
    clear hcount hpublished happended h
    induction hrows with
    | nil => rfl
    | cons hrow _ ih =>
      obtain ⟨-, source, stored, i, hsource, rfl⟩ := hrow
      have hid : source.id = _ := Table.key_of_get? hsource.row
      rw [List.map_cons, List.map_cons, ih]
      simp only [PendingOutputArtifact.row, hid]
  have hperm := hpublished.perm
  rw [hsame] at hperm
  have hinj : Function.Injective fun p : ℕ × ℕ => (some p.1, p.2) := by
    rintro ⟨i, j⟩ ⟨k, l⟩ heq
    simpa using heq
  refine (List.map_perm_map_iff hinj).mp ?_
  rw [List.map_map, List.map_map]
  exact hperm

/-- Matching outputs that can be stored are stored, while the job shows none. -/
theorem insertOutputArtifacts_of_matches {jobId attemptId : ℕ}
    {outputs : List PendingOutputArtifact}
    (hindexes : ((db.artifactsOf jobId .input).map ArtifactRow.itemIndex).Nodup)
    (hnone : db.artifactsOf jobId .output = []) (hroom : db.artifactRoom outputs.length)
    (hstorable : ∀ o ∈ outputs, o.Storable)
    (hmatches : Matches outputs (db.artifactsOf jobId .input)) :
    ∃ db', insertOutputArtifacts jobId attemptId now outputs db = .ok ((), db') := by
  have hperm : (outputs.map PendingOutputArtifact.itemIndex).Perm
      ((db.artifactsOf jobId .input).map ArtifactRow.itemIndex) := by
    have := hmatches.map Prod.snd
    rwa [List.map_map, List.map_map] at this
  refine insertOutputArtifacts_stored hroom hstorable ?_ (hperm.nodup_iff.mpr hindexes) ?_
  · intro o ho
    have hmem : (o.sourceArtifactId, o.itemIndex) ∈
        (db.artifactsOf jobId .input).map fun i => (i.id, i.itemIndex) :=
      hmatches.subset (List.mem_map_of_mem ho)
    obtain ⟨i, hi, heq⟩ := List.mem_map.mp hmem
    simp only [Prod.mk.injEq] at heq
    obtain ⟨hmem, hjob, hkind⟩ := mem_artifactsOf.mp hi
    exact ⟨i, Table.get?_eq_some.mpr ⟨hmem, heq.1⟩, hjob, hkind, heq.2⟩
  · intro b hb hjob hkind
    have hshown : b ∈ db.artifactsOf jobId .output := mem_artifactsOf.mpr ⟨hb, hjob, hkind⟩
    rw [hnone] at hshown
    cases hshown

theorem ClaimedJob.Issued.imageResize {w q : ℕ} {inputs : List ArtifactRecord}
    (h : claimed.Issued db) (hwork : claimed.work = .imageResize w q inputs)
    (hr : db.jobs.get? claimed.jobId.get = some r) : r.jobType = .imageResize := by
  obtain ⟨s, hs, -, hclaimed⟩ := h.job
  obtain rfl : r = s := Option.some.inj (hr.symm.trans hs)
  cases htype : r.jobType with
  | imageResize => rfl
  | demoDelay =>
    rw [hwork, claimedWork, htype] at hclaimed
    cases hclaimed

/-- On a live claim of a running image job, the call commits exactly on matching outputs that can
be stored; otherwise it changes nothing. -/
theorem completeImageJob_ok_iff (hinv : db.Inv) (hissued : claimed.Issued db)
    (hlive : claimed.Live now db a r) (hrunning : r.state = .running) {w q : ℕ}
    {inputs : List ArtifactRecord} (hwork : claimed.work = .imageResize w q inputs)
    (duration : ℕ) (outputs : List PendingOutputArtifact) :
    ((completeImageJob claimed duration outputs now db).1 = .ok () ↔
      Matches outputs (db.artifactsOf claimed.jobId.get .input) ∧ (∀ o ∈ outputs, o.Storable) ∧
        db.artifactRoom outputs.length ∧ duration ≤ i64Max) ∧
      ((completeImageJob claimed duration outputs now db).1 ≠ .ok () →
        (completeImageJob claimed duration outputs now db).2 = db) := by
  have hcount := hissued.inputs_length hwork
  have himage := hissued.imageResize hwork hlive.job
  unfold completeImageJob
  rw [hwork]
  by_cases hlen : outputs.length ≠ inputs.length
  · simp only [if_pos hlen]
    refine ⟨⟨fun h => ?_, fun h => ?_⟩, fun _ => rfl⟩
    · cases h
    · have := h.1.length_eq
      simp only [List.length_map] at this
      omega
  · simp only [if_neg hlen]
    by_cases hfits : duration ≤ i64Max
    · have henc : encodeDuration duration = .ok duration := encodeDuration_ok.mpr ⟨hfits, rfl⟩
      rw [Session.bind_run, Session.liftExcept_run, henc]
      refine ⟨?_, fun hnot => commit_unchanged fun u => hnot⟩
      rw [commit_answers]
      constructor
      · rintro ⟨db', htx⟩
        obtain ⟨a', r', db₁, -, -, -, hinsert, -⟩ := completeImageJobTx_ok.mp htx
        obtain ⟨hroom, rows, -, hrows⟩ := insertOutputArtifacts_ok hinsert
        refine ⟨insertOutputArtifacts_matches (by omega) hinsert, ?_, hroom, hfits⟩
        intro o ho
        obtain ⟨row, -, hrow, -⟩ := forall₂_mem_right hrows.flip ho
        exact hrow
      · rintro ⟨hmatches, hstorable, hroom, -⟩
        have hnotShowing : ¬r.Showing := fun hshow => by
          rw [JobRow.Showing, hrunning] at hshow
          cases hshow.1
        have hnone := (hinv.manifest claimed.jobId.get).unpublished r hlive.job hnotShowing
        obtain ⟨db₁, hinsert⟩ := insertOutputArtifacts_of_matches
          (hinv.manifest claimed.jobId.get).inputs hnone hroom hstorable hmatches
        exact ⟨_, completeImageJobTx_ok.mpr ⟨a, r, db₁, hlive, hrunning, himage, hinsert, rfl⟩⟩
    · have henc :
          encodeDuration duration = .error (.invalidData "worker duration exceeds BIGINT") :=
        if_neg hfits
      rw [Session.bind_run, Session.liftExcept_run, henc]
      refine ⟨⟨fun h => ?_, fun h => absurd h.2.2.2 hfits⟩, fun _ => rfl⟩
      cases h

end Publication

/-! ### Expiry -/

theorem expireOutputArtifacts_outputs (db : Db) (now : ℤ) (retentionSeconds id : ℕ) :
    (expireOutputArtifacts retentionSeconds now db).2.artifactsOf id .output = [] ∨
      (expireOutputArtifacts retentionSeconds now db).2.artifactsOf id .output =
        db.artifactsOf id .output := by
  unfold expireOutputArtifacts
  by_cases hlong : i64Max < retentionSeconds
  · rw [if_pos hlong]
    exact Or.inr rfl
  · have hexpired : (commit (expireOutputArtifactsTx retentionSeconds now) db).2 =
        db.outputsExpired retentionSeconds now :=
      congrArg Prod.snd (commit_ok expireOutputArtifactsTx_ok)
    rw [if_neg hlong]
    simp only [hexpired, artifactsOf_outputsExpired]
    split
    · exact Or.inl rfl
    · exact Or.inr rfl

/-- The manifest of every job is complete and has one winner; a publication commits exactly on
matching outputs; an expiry takes all outputs of a job or none. -/
theorem complete_single_winner_manifest {s : System} (hs : s.Reachable) :
    (∀ o ∈ s.db.artifacts, o.kind = .output → ∃ r ∈ s.db.jobs, r.id = o.jobId) ∧
    (∀ r ∈ s.db.jobs, r.Manifested (s.db.attemptsOf r.id) (s.db.artifactsOf r.id .input)
      (s.db.artifactsOf r.id .output)) ∧
    (∀ claimed ∈ s.claims, ∀ a r, claimed.Live s.now s.db a r → r.state = .running →
      ∀ w q inputs, claimed.work = .imageResize w q inputs → ∀ duration outputs,
      ((completeImageJob claimed duration outputs s.now s.db).1 = .ok () ↔
        Matches outputs (s.db.artifactsOf claimed.jobId.get .input) ∧
          (∀ o ∈ outputs, o.Storable) ∧ s.db.artifactRoom outputs.length ∧ duration ≤ i64Max) ∧
      ((completeImageJob claimed duration outputs s.now s.db).1 ≠ .ok () →
        (completeImageJob claimed duration outputs s.now s.db).2 = s.db)) ∧
    ∀ retentionSeconds id,
      (expireOutputArtifacts retentionSeconds s.now s.db).2.artifactsOf id .output = [] ∨
        (expireOutputArtifacts retentionSeconds s.now s.db).2.artifactsOf id .output =
          s.db.artifactsOf id .output := by
  have hinv := hs.inv
  refine ⟨?_, ?_, ?_, fun retentionSeconds id => expireOutputArtifacts_outputs _ _ _ _⟩
  · intro o ho hkind
    have hmem : o ∈ s.db.artifactsOf o.jobId .output := mem_artifactsOf.mpr ⟨ho, rfl, hkind⟩
    cases hr : s.db.jobs.get? o.jobId with
    | none =>
      have habsent : s.db.artifactsOf o.jobId .output = [] :=
        ((hinv.db.lifecycle o.jobId).absent hr).2.2
      rw [habsent] at hmem
      cases hmem
    | some r => exact ⟨r, Table.mem_of_get? hr, Table.key_of_get? hr⟩
  · intro r hr
    exact (hinv.db.manifest r.id).manifested (hinv.db.lifecycle r.id) (Table.get?_key hr)
  · intro claimed hc a r hlive hrunning w q inputs hwork duration outputs
    exact completeImageJob_ok_iff hinv.db (hinv.issued claimed hc) hlive hrunning hwork duration
      outputs

/-! An image job with two inputs, claimed and published. -/

def sampleInput (key name : String) : NewInputArtifact :=
  ⟨key, name, "image/png", 10, 4, 4, List.replicate 32 0⟩

def sampleImageJob : NewImageJob where
  ownerUserId := 1
  name := sampleName
  maxWidth := 100
  jpegQuality := 80
  availableAt := none
  priority := .normal
  inputs := [sampleInput "inputs/a" "a.png", sampleInput "inputs/b" "b.png"]
  idempotency := none

def sampleOutput (sourceArtifactId itemIndex : ℕ) (key : String) : PendingOutputArtifact :=
  ⟨sourceArtifactId, itemIndex, key, "out.jpg", "image/jpeg", 5, 4, 4⟩

def sampleImageOps : List Op :=
  [.createImageJob sampleImageJob, .readClock, .registerWorker (sampleWorker 7) 0,
    .claimNext 7 5 []]

def sampleOutputs : List PendingOutputArtifact :=
  [sampleOutput 2 1 "outputs/job-1/attempt-1/b", sampleOutput 1 0 "outputs/job-1/attempt-1/a"]

theorem complete_single_winner_manifest_published : ∃ s : System, s.Reachable ∧
    ∃ r ∈ s.db.jobs, (s.db.artifactsOf r.id .output).length = 2 ∧
      r.Manifested (s.db.attemptsOf r.id) (s.db.artifactsOf r.id .input)
        (s.db.artifactsOf r.id .output) := by
  have hrun : (exec System.step (System.initial 0) sampleImageOps).any (fun s =>
      s.claims.any fun claimed =>
        (s.step (.completeImageJob claimed 3 sampleOutputs)).any fun t =>
          (t.db.jobs.get? 1).any fun r =>
            (t.db.artifactsOf r.id .output).length == 2) = true := by
    decide +kernel
  obtain ⟨s, hexec, hclaims⟩ := (Option.any_eq_true _ _).mp hrun
  obtain ⟨claimed, -, hstep⟩ := List.any_eq_true.mp hclaims
  obtain ⟨t, ht, hjob⟩ := (Option.any_eq_true _ _).mp hstep
  obtain ⟨r, hr, hcount⟩ := (Option.any_eq_true _ _).mp hjob
  have hlast : Run System.step Always s t := .single _ trivial ht
  have hreachable : t.Reachable := (reachable_of_exec hexec).run hlast
  exact ⟨t, hreachable, r, Table.mem_of_get? hr, by simpa using hcount,
    (complete_single_winner_manifest hreachable).2.1 r (Table.mem_of_get? hr)⟩

end TaskHarbor
