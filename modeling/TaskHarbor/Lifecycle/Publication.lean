import TaskHarbor.Lifecycle.Artifacts

/-! `complete_image_job`: it publishes exactly when its outputs show the inputs one for one. Nothing
in it compares the two lists; the count check, the source lookup and the unique slot together do. -/
namespace TaskHarbor

open Relational Transaction

/-! ### Outputs that can be stored -/

/-- The source row is an input of the job with the same item index. -/
structure PendingOutputArtifact.Sources (output : PendingOutputArtifact) (db : Db) (jobId : ℕ)
    (source : ArtifactRow) : Prop where
  row : db.artifacts.get? output.sourceArtifactId = some source
  job : source.jobId = jobId
  kind : source.kind = .input
  index : source.itemIndex = output.itemIndex

theorem PendingOutputArtifact.source_eq_some {output : PendingOutputArtifact} {db : Db}
    {jobId : ℕ} {source : ArtifactRow} :
    output.source jobId db = some source ↔ output.Sources db jobId source := by
  unfold PendingOutputArtifact.source
  rw [Option.filter_eq_some_iff]
  simp only [Bool.and_eq_true, beq_iff_eq, and_assoc]
  constructor
  · rintro ⟨hrow, hjob, hkind, hindex⟩
    exact ⟨hrow, hjob, hkind, hindex⟩
  · rintro ⟨hrow, hjob, hkind, hindex⟩
    exact ⟨hrow, hjob, hkind, hindex⟩

/-- The bindings and the row constraints accept the output, whatever its source row is. -/
structure PendingOutputArtifact.Storable (output : PendingOutputArtifact) : Prop where
  source : output.sourceArtifactId ≤ i64Max
  index : output.itemIndex ≤ 9
  size : 0 < output.byteSize ∧ output.byteSize ≤ i64Max
  width : 0 < output.width ∧ output.width ≤ i32Max
  height : 0 < output.height ∧ output.height ≤ i32Max
  key : storableText output.storageKey = true
  media : output.mediaType = "image/jpeg"
  name : ∃ stored, varcharParam 255 output.displayName = .ok stored ∧
    btrimLengthBetween 255 stored = true

theorem PendingOutputArtifact.encode_ok {output : PendingOutputArtifact} {name : String} :
    output.encode = .ok name ↔ output.itemIndex ≤ i16Max ∧ output.byteSize ≤ i64Max ∧
      output.width ≤ i32Max ∧ output.height ≤ i32Max ∧ output.sourceArtifactId ≤ i64Max ∧
      storableText output.storageKey = true ∧ storableText output.mediaType = true ∧
      storableText output.displayName = true ∧ name = output.displayName := by
  unfold PendingOutputArtifact.encode
  by_cases hindex : i16Max < output.itemIndex
  · rw [if_pos hindex]
    constructor
    · intro h
      cases h
    · rintro ⟨h, -⟩
      omega
  · rw [if_neg hindex]
    simp only [except_bind_ok, encodeU64_ok, encodeU32_ok, textParam_ok, not_lt.mp hindex, true_and]
    constructor
    · rintro ⟨_, ⟨h1, -⟩, _, ⟨h2, -⟩, _, ⟨h3, -⟩, _, ⟨h4, -⟩, _, ⟨h5, -⟩, _, ⟨h6, -⟩, h7, h8⟩
      exact ⟨h1, h2, h3, h4, h5, h6, h7, h8⟩
    · rintro ⟨h1, h2, h3, h4, h5, h6, h7, h8⟩
      exact ⟨_, ⟨h1, rfl⟩, _, ⟨h2, rfl⟩, _, ⟨h3, rfl⟩, _, ⟨h4, rfl⟩, _, ⟨h5, rfl⟩, _, ⟨h6, rfl⟩,
        h7, h8⟩

theorem PendingOutputArtifact.checks_row {output : PendingOutputArtifact}
    {jobId attemptId id : ℕ} {source : ArtifactRow} {stored : String} {now : ℤ} :
    holdsAll (output.row jobId attemptId source stored now id).checks = true ↔
      output.itemIndex ≤ 9 ∧ btrimLengthBetween 255 stored = true ∧
        output.mediaType = "image/jpeg" ∧ 0 < output.byteSize ∧ 0 < output.width ∧
        0 < output.height := by
  rw [ArtifactRow.checks_iff]
  constructor
  · rintro ⟨h1, h2, -, h3, ⟨h4, h5⟩, ⟨-, -, h6⟩, -⟩
    exact ⟨h1, h2, h6, h3, h4, h5⟩
  · rintro ⟨h1, h2, h3, h4, h5, h6⟩
    have hmedia : imageMediaType output.mediaType = true := by
      rw [h3]
      decide
    exact ⟨h1, h2, hmedia, h4, ⟨h5, h6⟩, ⟨rfl, rfl, h3⟩, rfl⟩

section Loop

variable {jobId attemptId : ℕ} {now : ℤ} {db db' : Db}

theorem insertOutputArtifact_ok {output : PendingOutputArtifact} {u : Unit} :
    insertOutputArtifact jobId attemptId output now db = .ok (u, db') ↔
      ∃ source stored, output.Storable ∧ output.Sources db jobId source ∧
        varcharParam 255 output.displayName = .ok stored ∧
        (insertArtifact (output.row jobId attemptId source stored now) : Tx Unit) db =
          .ok (u, db') := by
  unfold insertOutputArtifact
  simp only [Tx.bind_ok, lift_ok, Tx.get_run, Except.ok.injEq, Prod.mk.injEq]
  constructor
  · rintro ⟨name, _, ⟨hname, rfl⟩, _, _, ⟨rfl, rfl⟩, h⟩
    obtain ⟨h1, h2, h3, h4, h5, h6, h7, h8, rfl⟩ := PendingOutputArtifact.encode_ok.mp hname
    cases hs : output.source jobId db with
    | none =>
      simp only [hs] at h
      cases h
    | some source =>
      simp only [hs, Tx.bind_ok, lift_ok] at h
      obtain ⟨stored, _, ⟨hstored, rfl⟩, hinsert⟩ := h
      have hchecks := (insertArtifact_ok.mp hinsert).2.1
      obtain ⟨c1, c2, c3, c4, c5, c6⟩ := PendingOutputArtifact.checks_row.mp hchecks
      exact ⟨source, stored, ⟨h5, c1, ⟨c4, h2⟩, ⟨c5, h3⟩, ⟨c6, h4⟩, h6, c3, stored, hstored, c2⟩,
        PendingOutputArtifact.source_eq_some.mp hs, hstored, hinsert⟩
  · rintro ⟨source, stored, hstorable, hsource, hstored, hinsert⟩
    have hindex : output.itemIndex ≤ i16Max := hstorable.index.trans (by decide)
    have hmedia : storableText output.mediaType = true := by
      rw [hstorable.media]
      decide
    have hname : storableText output.displayName = true := (varcharParam_ok.mp hstored).1
    refine ⟨output.displayName, db, ⟨PendingOutputArtifact.encode_ok.mpr ⟨hindex,
      hstorable.size.2, hstorable.width.2, hstorable.height.2, hstorable.source, hstorable.key,
      hmedia, hname, rfl⟩, rfl⟩, db, db, ⟨rfl, rfl⟩, ?_⟩
    simp only [PendingOutputArtifact.source_eq_some.mpr hsource, Tx.bind_ok, lift_ok]
    exact ⟨stored, db, ⟨hstored, rfl⟩, hinsert⟩

/-- The identity column has a value left for each of `n` new artifacts. -/
def Db.artifactRoom (db : Db) (n : ℕ) : Prop := ∀ k < n, db.artifacts.next + k ≤ i64Max

/-- Every output shows its source and is stored in order. -/
theorem insertOutputArtifacts_ok {outputs : List PendingOutputArtifact} {u : Unit}
    (h : insertOutputArtifacts jobId attemptId now outputs db = .ok (u, db')) :
    db.artifactRoom outputs.length ∧ ∃ rows, Appended db db' jobId .output rows ∧
      List.Forall₂ (fun (o : PendingOutputArtifact) a => o.Storable ∧ ∃ source stored id,
        o.Sources db jobId source ∧ a = o.row jobId attemptId source stored now id)
        outputs rows := by
  induction outputs generalizing db with
  | nil =>
    cases h
    exact ⟨fun k hk => absurd hk k.not_lt_zero, [], .refl _ _ _, .nil⟩
  | cons output rest ih =>
    obtain ⟨u₁, db₁, hfirst, hrest⟩ := Tx.bind_ok.mp h
    obtain ⟨source, stored, hstorable, hsource, -, hinsert⟩ := insertOutputArtifact_ok.mp hfirst
    obtain ⟨hroom, rows, happended, hrows⟩ := ih hrest
    obtain ⟨hleft, -, -, hnext⟩ := insertArtifact_ok.mp hinsert
    have hnext' : db₁.artifacts.next = db.artifacts.next + 1 := by
      rw [hnext]
      rfl
    have hone : Appended db db₁ jobId .output _ :=
      (Appended.refl db₁ jobId .output).cons hinsert ⟨rfl, rfl⟩
    refine ⟨?_, _, happended.cons hinsert ⟨rfl, rfl⟩,
      .cons ⟨hstorable, source, stored, _, hsource, rfl⟩ (hrows.imp ?_)⟩
    · intro k hk
      rcases k with - | k
      · exact hleft
      · have := hroom k (Nat.lt_of_succ_lt_succ hk)
        omega
    rintro o a ⟨ho, s, t, id, hs, rfl⟩
    have hrow : db.artifacts.get? o.sourceArtifactId = some s := by
      refine hone.get?_of_kind hs.row ?_
      rw [hs.kind]
      decide
    exact ⟨ho, s, t, id, ⟨hrow, hs.job, hs.kind, hs.index⟩, rfl⟩

/-- Storable outputs with sources and with distinct free slots are all stored. -/
theorem insertOutputArtifacts_stored {outputs : List PendingOutputArtifact}
    (hroom : db.artifactRoom outputs.length) (hstorable : ∀ o ∈ outputs, o.Storable)
    (hsource : ∀ o ∈ outputs, ∃ source, o.Sources db jobId source)
    (hdistinct : (outputs.map PendingOutputArtifact.itemIndex).Nodup)
    (hfree : ∀ a ∈ db.artifacts, a.jobId = jobId → a.kind = .output →
      a.itemIndex ∉ outputs.map PendingOutputArtifact.itemIndex) :
    ∃ db', insertOutputArtifacts jobId attemptId now outputs db = .ok ((), db') := by
  induction outputs generalizing db with
  | nil => exact ⟨db, rfl⟩
  | cons output rest ih =>
    have hmem : output ∈ output :: rest := List.mem_cons_self
    obtain ⟨source, hs⟩ := hsource output hmem
    have hst := hstorable output hmem
    obtain ⟨stored, hstored, hblank⟩ := hst.name
    rw [List.map_cons, List.nodup_cons] at hdistinct
    have hinsert : (insertArtifact (output.row jobId attemptId source stored now) : Tx Unit) db =
        .ok ((), { db with
          artifacts :=
            db.artifacts.insertNew (output.row jobId attemptId source stored now) }) := by
      refine insertArtifact_ok.mpr ⟨hroom 0 (Nat.succ_pos _), ?_, ?_, rfl⟩
      · exact PendingOutputArtifact.checks_row.mpr
          ⟨hst.index, hblank, hst.media, hst.size.1, hst.width.1, hst.height.1⟩
      · intro a ha hslot
        obtain ⟨hjob, hkind, hindex⟩ : a.jobId = jobId ∧ a.kind = .output ∧
            a.itemIndex = output.itemIndex := by
          simpa [ArtifactRow.slot, PendingOutputArtifact.row] using hslot
        exact hfree a ha hjob hkind (by simp [hindex])
    have hfirst := insertOutputArtifact_ok.mpr ⟨source, stored, hst, hs, hstored, hinsert⟩
    have hone : Appended db _ jobId .output _ :=
      (Appended.refl _ jobId .output).cons hinsert ⟨rfl, rfl⟩
    have hroom' : Db.artifactRoom { db with
        artifacts := db.artifacts.insertNew (output.row jobId attemptId source stored now) }
        rest.length := by
      intro k hk
      have := hroom (k + 1) (Nat.succ_lt_succ hk)
      change db.artifacts.next + 1 + k ≤ i64Max
      omega
    obtain ⟨db', hrest⟩ := ih hroom'
      (fun o ho => hstorable o (List.mem_cons_of_mem _ ho))
      (fun o ho => by
        obtain ⟨s, hs'⟩ := hsource o (List.mem_cons_of_mem _ ho)
        exact ⟨s, hone.get? hs'.row, hs'.job, hs'.kind, hs'.index⟩)
      hdistinct.2
      (fun a ha hjob hkind hin => by
        have hnew : a ∈ db.artifacts.insertNew (output.row jobId attemptId source stored now) := ha
        rcases Table.mem_insertNew.mp hnew with ha | rfl
        · exact hfree a ha hjob hkind (List.mem_cons_of_mem _ hin)
        · exact hdistinct.1 hin)
    exact ⟨db', Tx.bind_ok.mpr ⟨(), _, hfirst, hrest⟩⟩

end Loop

/-! ### The transaction -/

theorem forall₂_mem_right {α β : Type} {R : α → β → Prop} {l : List α} {l' : List β}
    (h : List.Forall₂ R l l') {b : β} (hb : b ∈ l') : ∃ a ∈ l, R a b := by
  induction h with
  | nil => cases hb
  | cons hr _ ih =>
    rcases List.mem_cons.mp hb with rfl | hb
    · exact ⟨_, List.mem_cons_self, hr⟩
    · obtain ⟨a, ha, hab⟩ := ih hb
      exact ⟨a, List.mem_cons_of_mem _ ha, hab⟩

/-- A claim of an image job carries as many inputs as its job has. -/
theorem ClaimedJob.Issued.inputs_length {claimed : ClaimedJob} {db : Db} {w q : ℕ}
    {inputs : List ArtifactRecord} (h : claimed.Issued db)
    (hwork : claimed.work = .imageResize w q inputs) :
    inputs.length = (db.artifactsOf claimed.jobId.get .input).length := by
  obtain ⟨r, hr, -, hclaimed⟩ := h.job
  have hid : r.id = claimed.jobId.get := Table.key_of_get? hr
  rw [hwork, claimedWork] at hclaimed
  cases htype : r.jobType with
  | demoDelay =>
    rw [htype] at hclaimed
    cases hclaimed
  | imageResize =>
    simp only [htype, except_bind_ok] at hclaimed
    obtain ⟨⟨w', q'⟩, -, loaded, hload, hrest⟩ := hclaimed
    split at hrest
    · cases hrest
    · cases hrest
      have hlen := (except_mapM_ok.mp hload).length_eq
      rw [List.length_insertionSort] at hlen
      rw [← hlen, hid]
      rfl

section Complete

variable {claimed : ClaimedJob} {now : ℤ} {db db' : Db}

theorem lockActiveClaim_ok {u : Unit} :
    lockActiveClaim claimed now db = .ok (u, db') ↔
      db = db' ∧ ∃ a r, claimed.Live now db a r ∧ r.state = .running := by
  unfold lockActiveClaim
  simp only [Tx.bind_ok, Tx.get_run, Except.ok.injEq, Prod.mk.injEq]
  constructor
  · rintro ⟨_, _, ⟨rfl, rfl⟩, h⟩
    split at h
    · rename_i hactive
      rw [Bool.and_eq_true] at hactive
      obtain ⟨a, ha, hf⟩ := fences_of_any hactive.1
      obtain ⟨r, hr, hs⟩ := (Option.any_eq_true _ _).mp hactive.2
      cases h
      exact ⟨rfl, a, r, ⟨ha, hf, hr⟩, by simpa using hs⟩
    · cases h
  · rintro ⟨rfl, a, r, ⟨ha, hf, hr⟩, hs⟩
    refine ⟨db, db, ⟨rfl, rfl⟩, ?_⟩
    have hactive : (db.jobAttempts.rows.any (claimed.fences now) &&
        (db.jobs.get? claimed.jobId.get).any fun r => r.state == .running) = true := by
      simp [any_fences ha hf, hr, hs]
    rw [if_pos hactive]
    rfl

/-- The transaction publishes on a live claim of a running image job whose outputs are stored. -/
theorem completeImageJobTx_ok {count ms : ℕ} {outputs : List PendingOutputArtifact} {u : Unit} :
    completeImageJobTx claimed count ms outputs now db = .ok (u, db') ↔
      ∃ a r db₁, claimed.Live now db a r ∧ r.state = .running ∧ r.jobType = .imageResize ∧
        insertOutputArtifacts claimed.jobId.get claimed.attemptId now outputs db = .ok ((), db₁) ∧
        db' = (db₁.setAttempt (a.completed now ms)).setJob
          (r.completed now ms (resizedMessage count)) := by
  have hpin : ∀ r : JobRow,
    (r.isAt claimed.jobId.get .running && r.jobType == .imageResize) = true →
      r.id = claimed.jobId.get := by
    intro r hq
    rw [Bool.and_eq_true] at hq
    exact isAt_pin r hq.1
  unfold completeImageJobTx completeAttempt
  simp only [Tx.bind_ok, lift_ok, lockActiveClaim_ok, ensureClaimRow_ok, ensureOneRow_ok]
  constructor
  · rintro ⟨_, _, ⟨rfl, a, r, hlive, hs⟩, _, db₁, hinsert, _, _, ⟨n, _, hn, rfl, rfl⟩, m, _, hm,
      rfl, rfl⟩
    obtain ⟨-, rows, happended, -⟩ := insertOutputArtifacts_ok hinsert
    obtain ⟨b, hb, -, rfl⟩ := (updateAttempts_one fences_pin).mp hn
    obtain ⟨t, ht, hq, rfl⟩ := (updateJobs_one hpin).mp hm
    rw [happended.jobAttempts] at hb
    rw [setAttempt_jobs, happended.jobs] at ht
    obtain rfl : a = b := Option.some.inj (hlive.attempt.symm.trans hb)
    obtain rfl : r = t := Option.some.inj (hlive.job.symm.trans ht)
    rw [Bool.and_eq_true, beq_iff_eq] at hq
    exact ⟨a, r, db₁, hlive, hs, hq.2, hinsert, rfl⟩
  · rintro ⟨a, r, db₁, hlive, hs, himage, hinsert, rfl⟩
    obtain ⟨-, rows, happended, -⟩ := insertOutputArtifacts_ok hinsert
    have ha : db₁.jobAttempts.get? claimed.attemptId = some a := by
      rw [happended.jobAttempts]
      exact hlive.attempt
    have hr : db₁.jobs.get? claimed.jobId.get = some r := by
      rw [happended.jobs]
      exact hlive.job
    have hq : (r.isAt claimed.jobId.get .running && r.jobType == .imageResize) = true := by
      rw [Bool.and_eq_true, beq_iff_eq]
      exact ⟨JobRow.isAt_iff.mpr ⟨Table.key_of_get? hlive.job, hs⟩, himage⟩
    exact ⟨(), db, ⟨rfl, a, r, hlive, hs⟩, (), db₁, hinsert, (), _,
      ⟨1, _, (updateAttempts_one fences_pin).mpr ⟨a, ha, hlive.fences, rfl⟩, rfl, rfl⟩, 1, _,
      (updateJobs_one hpin).mpr ⟨r, hr, hq, rfl⟩, rfl, rfl⟩

theorem completeImageJobTx_evolves {count ms : ℕ} {outputs : List PendingOutputArtifact} {u : Unit}
    (hcount : outputs.length = (db.artifactsOf claimed.jobId.get .input).length)
    (h : completeImageJobTx claimed count ms outputs now db = .ok (u, db')) :
    db.Evolves now db' := by
  obtain ⟨a, r, db₁, hlive, hs, himage, hinsert, rfl⟩ := completeImageJobTx_ok.mp h
  obtain ⟨-, rows, happended, hrows⟩ := insertOutputArtifacts_ok hinsert
  have haid : a.id = claimed.attemptId := Table.key_of_get? hlive.attempt
  have hrid : r.id = claimed.jobId.get := Table.key_of_get? hlive.job
  have ha : db₁.jobAttempts.get? a.id = some a := by
    rw [happended.jobAttempts, haid]
    exact hlive.attempt
  have hr : db₁.jobs.get? a.jobId = some r := by
    rw [happended.jobs, hlive.jobId]
    exact hlive.job
  refine ⟨fun id => ?_, (congrArg Db.schedules happended.frame :),
    (congrArg Db.scheduleInputs happended.frame :),
    (congrArg Db.scheduleOccurrences happended.frame :)⟩
  by_cases hj : claimed.jobId.get = id
  · subst hj
    have hrw : (db₁.view a.jobId).Rewrites _ r (r.completed now ms (resizedMessage count)) a
        (a.completed now ms) := view_rewrite ha rfl hr (hrid.trans hlive.jobId.symm)
    rw [hlive.jobId] at hrw
    refine .published r a _ now ms rows hlive.running hs himage (happended.rewrites hrw)
      happended.batch ?_ ?_ happended.artifactsOf
    · intro o ho
      obtain ⟨output, -, -, source, stored, i, hsource, rfl⟩ := forall₂_mem_right hrows ho
      refine ⟨congrArg some haid.symm, source, ?_, rfl, hsource.index.symm⟩
      exact mem_artifactsOf.mpr ⟨Table.mem_of_get? hsource.row, hsource.job, hsource.kind⟩
    · rw [← hrows.length_eq]
      exact hcount
  · refine .stay ?_
    have hne : a.jobId ≠ id := by
      rw [hlive.jobId]
      exact hj
    have hback := happended.view_of_ne hj
    rw [← hback]
    exact view_rewrite_of_ne ha rfl (hrid.trans hlive.jobId.symm) hne

end Complete

end TaskHarbor
