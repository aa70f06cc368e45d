import TaskHarbor.Worker.Fleet

/-! `run_maintenance` removes the files of expired outputs after their rows are gone, one at a time
and with any delay. No task shows one of their keys again, so each removal spares every task. Its
sweep spares them too, unless an attempt publishes between its two queries. -/
namespace TaskHarbor

open Interleaving Relational Transaction Runs

section Withdrawn

variable {s t : System} {id : ℕ} {op : Op}

theorem Withdrawn.step (h : Withdrawn id s) (hstep : s.step op = some t) : Withdrawn id t := by
  obtain ⟨b, hb, hsucceeded⟩ := h.closed
  have hkey : b.id = id := Table.key_of_get? hb
  have hnot : b.state ≠ .running := by
    rw [hsucceeded]
    decide
  subst hkey
  refine ⟨h.reachable.run (Run.single op trivial hstep : Run System.step Always s t),
    ⟨b, closed_step h.reachable.inv hstep hb hnot, hsucceeded⟩, ?_⟩
  rw [List.eq_nil_iff_forall_not_mem]
  intro row hrow
  rcases h.reachable.publishes hstep hrow with hold | ⟨c, c', hc, -, hrunning, -⟩
  · rw [h.rows] at hold
    cases hold
  · obtain rfl : b = c := Option.some.inj (hb.symm.trans hc)
    exact hnot hrunning

/-- The rows of an attempt belong to its job. -/
theorem System.Reachable.published_job (hs : s.Reachable) {row : ArtifactRow}
    (hrow : row ∈ s.db.publishedBy id) : ∃ b, s.db.jobAttempts.get? id = some b ∧
      b.state = .succeeded ∧ b.jobId = row.jobId := by
  have hshown := hs.published_output hrow
  have hinv := hs.inv.db
  have hlifecycle := hinv.lifecycle row.jobId
  cases hjob : (s.db.view row.jobId).job with
  | none =>
    rw [(hlifecycle.absent hjob).2.2] at hshown
    cases hshown
  | some r =>
    have hmanifested := (hinv.manifest row.jobId).manifested hlifecycle hjob
    obtain ⟨b, hb, hsucceeded, -, hall⟩ := hmanifested.oneAttempt (List.ne_nil_of_mem hshown)
    have hsame := hall row hshown
    rw [(mem_publishedBy.mp hrow).2, Option.some.injEq] at hsame
    subst hsame
    obtain ⟨hmem, hjobId⟩ := mem_attemptsOf.mp hb
    exact ⟨b, Table.get?_key hmem, hsucceeded, hjobId⟩

/-- The attempt behind an expired row is withdrawn. -/
theorem withdrawn_of_expired (hs : s.Reachable) {retentionSeconds : ℕ}
    (hsmall : retentionSeconds ≤ i64Max)
    (hstep : s.step (.expireOutputs retentionSeconds) = some t) {row : ArtifactRow}
    (hrow : row ∈ s.db.publishedBy id)
    (hexpired : expiredOutput s.db retentionSeconds s.now row = true) : Withdrawn id t := by
  have ht : t.Reachable := hs.run (Run.single _ trivial hstep : Run System.step Always s t)
  obtain ⟨b, hb, hsucceeded, hjob⟩ := hs.published_job hrow
  have hkey : b.id = id := Table.key_of_get? hb
  have hnot : b.state ≠ .running := by
    rw [hsucceeded]
    decide
  have hdb : t.db = s.db.outputsExpired retentionSeconds s.now := by
    obtain ⟨-, rfl⟩ := System.step_eq_some.mp hstep
    show (expireOutputArtifacts retentionSeconds s.now s.db).2 = _
    unfold expireOutputArtifacts
    rw [if_neg (not_lt.mpr hsmall)]
    rfl
  subst hkey
  have hb' := closed_step hs.inv hstep hb hnot
  refine ⟨ht, ⟨b, hb', hsucceeded⟩, ?_⟩
  rw [List.eq_nil_iff_forall_not_mem]
  intro row' hrow'
  obtain ⟨c, hc, -, hjob'⟩ := ht.published_job hrow'
  obtain rfl : b = c := Option.some.inj (hb'.symm.trans hc)
  have hshown : row' ∈ t.db.artifactsOf b.jobId .output := by
    rw [hjob']
    exact ht.published_output hrow'
  have hover : (s.db.jobs.get? b.jobId).any
      (fun r => r.retentionOver retentionSeconds s.now) = true := by
    rw [hjob]
    unfold expiredOutput at hexpired
    rw [Bool.and_eq_true] at hexpired
    exact hexpired.2
  rw [hdb, artifactsOf_outputsExpired, if_pos ⟨rfl, hover⟩] at hshown
  cases hshown

end Withdrawn

section Expiry

variable {images : ImageService} {codec : JpegCodec} {faulty : Bool} {now : ℤ} {st : Storage}
  {members members' : List Member} {w w' : World} {id : ℕ}

/-- A fleet step is one step of the system, or none. -/
theorem Withdrawn.fleet (h : Withdrawn id w.system) (hsound :
    Composed (fun (m : Member) w => m.task.Sound images codec faulty m.claimed w)
      (fun m o => m.claimed.attemptId ≠ o.claimed.attemptId) (fun w => w.system.Reachable)
      (members, w)) (hstep : Fleet images codec faulty (members, w) (members', w')) :
    Withdrawn id w'.system := by
  cases hstep with
  | env l step =>
    cases step with
    | system op s unclaimed step => exact h.step step
    | storage st keeping => exact h
  | act l₁ l₂ m m' w w' step =>
    have hself := hsound.parties m (List.mem_append_right _ List.mem_cons_self)
    cases hself.effect step.2 with
    | files confined =>
      rw [confined.system]
      exact h
    | call op claim storage step => exact h.step step
  | birth l step =>
    cases step with
    | spawned claimed budget s claim =>
      obtain ⟨workerId, claimToken, locked, step, -⟩ := claim.step
      exact h.step step

theorem Withdrawn.run (hcodec : codec.Marked) {c : List Member × World}
    (hsound : Composed (fun (m : Member) w => m.task.Sound images codec faulty m.claimed w)
      (fun m o => m.claimed.attemptId ≠ o.claimed.attemptId) (fun w => w.system.Reachable) c)
    (h : Withdrawn id c.2.system)
    (hrun : Relation.ReflTransGen (Fleet images codec faulty) c (members', w')) :
    Withdrawn id w'.system := by
  generalize hd : (members', w') = d at hrun
  induction hrun generalizing members' w' with
  | refl =>
    subst hd
    exact h
  | @tail e f hprefix hlast ih =>
    subst hd
    obtain ⟨l, u⟩ := e
    exact (ih rfl).fleet ((fleet_composes hcodec).run hsound hprefix) hlast

theorem outputPath_attempt {j a i j' a' i' : ℕ} (h : outputPath j a i = outputPath j' a' i') :
    a = a' := by
  have hunder : attemptPath j a <+: outputPath j' a' i' := by
    rw [← h]
    exact List.prefix_append _ _
  exact (attemptPath_under_iff.mp hunder).2

theorem outputKey_attempt {j a i j' a' i' : ℕ} (h : outputKey j a i = outputKey j' a' i') :
    a = a' := by
  have hpath := congrArg resolveKey h
  rw [outputKey_resolves, outputKey_resolves, Except.ok.injEq] at hpath
  exact outputPath_attempt hpath

/-- The output rows of a fleet have output keys of the attempts that published them. -/
theorem fleet_keys (hsound :
    Composed (fun (m : Member) w => m.task.Sound images codec faulty m.claimed w)
      (fun m o => m.claimed.attemptId ≠ o.claimed.attemptId) (fun w => w.system.Reachable)
      (members, w)) (hmanned : Manned members w) {row : ArtifactRow}
    (hrow : row ∈ w.system.db.artifacts) (hkind : row.kind = .output) :
    ∃ j id i, row ∈ w.system.db.publishedBy id ∧ row.storageKey = outputKey j id i := by
  have hchecks := (hsound.world.inv.db.readable row.jobId).outputs row
    (mem_artifactsOf.mpr ⟨hrow, rfl, hkind⟩)
  have hattempt := (ArtifactRow.checks_iff.mp hchecks).2.2.2.2.2.1
  rw [hkind] at hattempt
  obtain ⟨id, hid⟩ := Option.isSome_iff_exists.mp hattempt.1
  have hshown : row ∈ w.system.db.publishedBy id := mem_publishedBy.mpr ⟨hrow, hid⟩
  obtain ⟨m, hm, rfl⟩ := hmanned id (List.ne_nil_of_mem hshown)
  obtain ⟨i, hkey⟩ := (hsound.parties m hm).keys.keys row hshown
  exact ⟨_, _, i, hshown, hkey⟩

theorem expireOutputArtifacts_keys {retentionSeconds : ℕ} {db : Db} {keys : List String}
    (h : (expireOutputArtifacts retentionSeconds now db).1 = .ok keys) :
    retentionSeconds ≤ i64Max ∧ ∀ key ∈ keys, ∃ row ∈ db.artifacts, row.kind = .output ∧
      expiredOutput db retentionSeconds now row = true ∧ row.storageKey = key := by
  unfold expireOutputArtifacts at h
  by_cases hlong : i64Max < retentionSeconds
  · rw [if_pos hlong] at h
    cases h
  · rw [if_neg hlong] at h
    obtain rfl : (db.artifacts.rows.filter (expiredOutput db retentionSeconds now)).map
        ArtifactRow.storageKey = keys := Except.ok.inj h
    refine ⟨not_lt.mp hlong, fun key hkey => ?_⟩
    obtain ⟨row, hrow, rfl⟩ := List.mem_map.mp hkey
    obtain ⟨hmem, hexpired⟩ := List.mem_filter.mp hrow
    refine ⟨row, hmem, ?_, hexpired, rfl⟩
    unfold expiredOutput at hexpired
    rw [Bool.and_eq_true, beq_iff_eq] at hexpired
    exact hexpired.1

/-- No output row ever shows a key again that `expire_output_artifacts` has returned, whatever the
fleet does meanwhile; so removing the file of such a key, however late, spares every task. -/
theorem expired_keys_stay_unshown (hcodec : codec.Marked)
    (hrun : Relation.ReflTransGen (Fleet images codec faulty) ([], ⟨.initial now, st⟩)
      (members, w)) {retentionSeconds : ℕ} {s : System} {keys : List String}
    (hexpire : w.system.step (.expireOutputs retentionSeconds) = some s)
    (hkeys : (expireOutputArtifacts retentionSeconds w.system.now w.system.db).1 = .ok keys)
    (hlater : Relation.ReflTransGen (Fleet images codec faulty)
      (members, { w with system := s }) (members', w')) :
    ∀ key ∈ keys,
      (∀ row ∈ w'.system.db.artifacts, row.kind = .output → row.storageKey ≠ key) ∧
      ∀ path, resolveKey key = .ok path →
        Fleet images codec faulty (members', w')
          (members', { w' with storage := w'.storage.removeFile path }) ∧
        ∀ m ∈ members', Spares m.claimed w' (w'.storage.removeFile path) := by
  have hstart : System.Reachable (.initial now) := ⟨now, .refl _⟩
  have hbare : Manned [] ⟨.initial now, st⟩ := fun id hshown => absurd rfl hshown
  have hsound := fleet_sound hcodec (w := ⟨.initial now, st⟩) hstart hrun
  have hafter : Relation.ReflTransGen (Fleet images codec faulty) ([], ⟨.initial now, st⟩)
      (members, { w with system := s }) := hrun.tail (.env members (.system _ s rfl hexpire))
  have hend := hafter.trans hlater
  have hsound' := fleet_sound hcodec (w := ⟨.initial now, st⟩) hstart hend
  have hmanned' := manned_run hcodec (w := ⟨.initial now, st⟩) hstart hbare hend
  obtain ⟨hsmall, hrows⟩ := expireOutputArtifacts_keys hkeys
  intro key hkey
  obtain ⟨row, hrow, hkind, hexpired, rfl⟩ := hrows key hkey
  obtain ⟨j, id, i, hshown, hkey⟩ :=
    fleet_keys hsound (manned_run hcodec (w := ⟨.initial now, st⟩) hstart hbare hrun) hrow hkind
  have hwithdrawn : Withdrawn id w'.system :=
    Withdrawn.run hcodec (fleet_sound hcodec (w := ⟨.initial now, st⟩) hstart hafter)
      (withdrawn_of_expired hsound.world hsmall hexpire hshown hexpired) hlater
  refine ⟨fun row' hrow' hkind' hsame => ?_, fun path hpath => ?_⟩
  · obtain ⟨j', id', i', hshown', hkey'⟩ := fleet_keys hsound' hmanned' hrow' hkind'
    rw [hkey, hkey'] at hsame
    rw [outputKey_attempt hsame, hwithdrawn.rows] at hshown'
    cases hshown'
  · rw [hkey, outputKey_resolves, Except.ok.injEq] at hpath
    subst hpath
    have hremoves : Housekeeping members' w' (w'.storage.removeFile (outputPath j id i)) :=
      .expired j id i hwithdrawn rfl
    exact ⟨.env members' (.storage _ hremoves), fun m hm =>
      (hremoves.upkeep hsound'.world hm).spares (hsound'.parties m hm).keys⟩

/-- A sweep that reads the references before an attempt publishes, and the running attempts after
it, takes the file of every row that the attempt shows, if the file is old enough. -/
theorem straddling_sweep_takes_outputs (hcodec : codec.Marked)
    (hrun : Relation.ReflTransGen (Fleet images codec faulty) ([], ⟨.initial now, st⟩)
      (members, w)) {before : System} (hbefore : before.Reachable)
    (hqueries : Run System.step Always before w.system) {row : ArtifactRow}
    (hrow : row ∈ w.system.db.artifacts) (hkind : row.kind = .output)
    (hunread : row.storageKey ∉ storageReferences before.db) {f : StoredFile}
    (hf : f ∈ w.storage.files) (hfile : resolveKey row.storageKey = .ok f.path) :
    ∃ sweep : Sweep, sweep.Before w.system ∧ sweep.references = before ∧
      sweep.running = w.system ∧ sweep.cutoff = f.modified ∧ sweep.seen = w.storage.files ∧
      sweep.rule.Clears sweep.seen w.storage (w.storage.removeFile f.path) ∧
      ¬(w.storage.removeFile f.path).Holds row := by
  have hstart : System.Reachable (.initial now) := ⟨now, .refl _⟩
  have hsound := fleet_sound hcodec (w := ⟨.initial now, st⟩) hstart hrun
  have hmanned := manned_run hcodec (w := ⟨.initial now, st⟩) hstart
    (fun id hshown => absurd rfl hshown) hrun
  obtain ⟨j, id, i, hshown, hkey⟩ := fleet_keys hsound hmanned hrow hkind
  obtain ⟨b, hb, hsucceeded, -⟩ := hsound.world.published_job hshown
  have hpath : f.path = outputPath j id i := by
    rw [hkey, outputKey_resolves, Except.ok.injEq] at hfile
    exact hfile.symm
  -- The first query did not find the row, and the second finds the attempt closed.
  have hswept : f.swept (maintenanceRule before.db w.system.db f.modified) = true := by
    have hbare : (maintenanceRule before.db w.system.db f.modified).isProtected
        (outputKey j id i) = false := by
      rw [← Bool.not_eq_true, CleanupRule.isProtected_iff]
      rintro (hread | hprefix)
      · exact hunread (hkey ▸ hread)
      · obtain ⟨a, ha, hrunning, -, hid⟩ :=
          (outputKey_isProtected w.system.db f.modified j id i).mp
            ((CleanupRule.isProtected_iff _).mpr (Or.inr hprefix))
        obtain rfl : b = a := Option.some.inj (hb.symm.trans (Table.get?_eq_some.mpr ⟨ha, hid⟩))
        rw [hsucceeded] at hrunning
        cases hrunning
    unfold StoredFile.swept CleanupRule.removes
    rw [hpath, relativeText_outputPath, hbare]
    simp [maintenanceRule]
  refine ⟨⟨before, w.system, f.modified, w.storage.files⟩, ⟨hbefore, hqueries, .refl _⟩, rfl, rfl,
    rfl, rfl, CleanupRule.clears_removeFile hf hswept w.storage, ?_⟩
  rintro ⟨p, bytes, hp, hread, -⟩
  obtain rfl : f.path = p := Except.ok.inj (hfile.symm.trans hp)
  rw [removeFile_none] at hread
  cases hread

end Expiry

theorem expired_keys_stay_unshown_both : ∃ (w : World) (keys : List String), keys.length = 2 ∧
    ∀ key ∈ keys, ∀ row ∈ w.system.db.artifacts, row.kind = .output → row.storageKey ≠ key := by
  obtain ⟨claimed, w, hrun, -, keys, hkeys, hlength⟩ := sample_fleet
  have hstep : w.system.step (.expireOutputs 0) = some (w.system.apply (.expireOutputs 0)) :=
    System.step_eq_some.mpr ⟨rfl, rfl⟩
  have hunshown := expired_keys_stay_unshown squareCodec_marked hrun hstep hkeys .refl
  exact ⟨_, keys, hlength, fun key hkey => (hunshown key hkey).1⟩

end TaskHarbor
