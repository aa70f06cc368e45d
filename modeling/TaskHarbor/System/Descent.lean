import TaskHarbor.Ownership.Operations
import TaskHarbor.System.Records

/-! Every row descends from rows of one owner. A retry keeps the owner of its source, and an
occurrence the owner of its schedule. -/
namespace TaskHarbor

open Relational Transaction Runs

/-- Every row has its parent, an artifact is linked within its job, and a link between jobs and
schedules keeps the owner. -/
structure Db.Descends (db : Db) : Prop where
  rooted : db.Rooted
  attempt : ∀ x ∈ db.artifacts, ∀ n, x.attemptId = some n →
    ∃ a ∈ db.jobAttempts, a.id = n ∧ a.jobId = x.jobId
  source : ∀ x ∈ db.artifacts, ∀ n, x.sourceArtifactId = some n →
    ∃ y ∈ db.artifacts, y.id = n ∧ y.jobId = x.jobId
  retry : ∀ r ∈ db.jobs, ∀ p, r.retryOfJobId = some p → db.jobOwner p = some r.ownerUserId
  scheduled : ∀ r ∈ db.jobs, ∀ s, r.scheduleId = some s →
    db.scheduleOwner s = some r.ownerUserId
  inherits : db.Inherits

section Steps

variable {makes : NewSchedule → Prop} {edits : ℕ → UpdateSchedule → ℤ → Prop} {runs : ℤ → Prop}
  {uploads : NewImageJob → Prop} {now asOf : ℤ} {db db' : Db} {u : ℕ}

/-- A job stays with its owner. -/
theorem jobOwner_turns (h : db.Turns now db') {id : ℕ} (howner : db.jobOwner id = some u) :
    db'.jobOwner id = some u := by
  obtain ⟨r, hr, rfl⟩ := jobOwner_eq_some.mp howner
  obtain ⟨r', hr', htemplate⟩ := (h id).keeps.job r hr
  exact jobOwner_eq_some.mpr ⟨r', hr', (congrArg JobRow.ownerUserId htemplate :)⟩

theorem ScheduleMove.owner {edits : UpdateSchedule → ℤ → Prop} {v v' : ScheduleView}
    (h : ScheduleMove makes edits runs v v') {s : ScheduleRow} (hs : v.row = some s) :
    ∃ s', v'.row = some s' ∧ s'.ownerUserId = s.ownerUserId := by
  cases h with
  | stay h => exact ⟨s, by rw [h, hs], rfl⟩
  | created request now t rows makes valid row row' made sound stored inputs occurrences =>
    cases row.symm.trans hs
  | edited request asOf now next t name edits valid cursor row row' sound inputs occurrences =>
    cases row.symm.trans hs
    exact ⟨_, row', rfl⟩
  | materialized asOf now scheduledFor next t o runs row due slot slotOf free row' inputs
      occurrences =>
    cases row.symm.trans hs
    exact ⟨_, row', rfl⟩

/-- A schedule stays with its owner. -/
theorem scheduleOwner_plans (h : db.Plans makes edits runs db') {id : ℕ}
    (howner : db.scheduleOwner id = some u) : db'.scheduleOwner id = some u := by
  obtain ⟨s, hs, rfl⟩ := scheduleOwner_eq_some.mp howner
  obtain ⟨s', hs', hsame⟩ := (h id).owner hs
  exact scheduleOwner_eq_some.mpr ⟨s', hs', hsame⟩

theorem Db.Inv.rooted (hinv : db.Inv) (hscheduled : db.Scheduled) : db.Rooted where
  attempts := by
    intro a ha
    cases hr : db.jobs.get? a.jobId with
    | some r => simp [Db.jobOwner, hr]
    | none =>
      have hmem : a ∈ (db.view a.jobId).attempts := mem_attemptsOf.mpr ⟨ha, rfl⟩
      rw [((hinv.lifecycle a.jobId).absent hr).1] at hmem
      cases hmem
  artifacts := by
    intro a ha
    cases hr : db.jobs.get? a.jobId with
    | some r => simp [Db.jobOwner, hr]
    | none =>
      have hmem : a ∈ db.artifactsOf a.jobId a.kind := mem_artifactsOf.mpr ⟨ha, rfl, rfl⟩
      obtain ⟨-, hinputs, houtputs⟩ := (hinv.lifecycle a.jobId).absent hr
      cases hkind : a.kind with
      | input =>
        rw [hkind, show db.artifactsOf a.jobId .input = [] from hinputs] at hmem
        cases hmem
      | output =>
        rw [hkind, show db.artifactsOf a.jobId .output = [] from houtputs] at hmem
        cases hmem
  inputs := by
    intro i hi
    cases hs : db.schedules.get? i.scheduleId with
    | some s => simp [Db.scheduleOwner, hs]
    | none =>
      have hmem : i ∈ db.inputRowsOf i.scheduleId := List.mem_filter.mpr ⟨hi, by simp⟩
      have hnone : db.inputRowsOf i.scheduleId = [] := ((hscheduled i.scheduleId).absent hs).1
      rw [hnone] at hmem
      cases hmem
  occurrences := by
    intro o ho
    cases hs : db.schedules.get? o.scheduleId with
    | some s => simp [Db.scheduleOwner, hs]
    | none =>
      have hmem : o ∈ db.occurrencesOf o.scheduleId := mem_occurrencesOf.mpr ⟨ho, rfl⟩
      rw [show db.occurrencesOf o.scheduleId = [] from
        ((hscheduled o.scheduleId).absent hs).2] at hmem
      cases hmem

/-- An artifact with a link is an output, and it links to rows of its own job. -/
theorem Db.Inv.artifact_links (hinv : db.Inv) {x : ArtifactRow} (hx : x ∈ db.artifacts) :
    (∀ n, x.attemptId = some n → ∃ a ∈ db.jobAttempts, a.id = n ∧ a.jobId = x.jobId) ∧
      ∀ n, x.sourceArtifactId = some n → ∃ y ∈ db.artifacts, y.id = n ∧ y.jobId = x.jobId := by
  cases hkind : x.kind with
  | input =>
    have hchecks := (hinv.readable x.jobId).inputs x (mem_artifactsOf.mpr ⟨hx, rfl, hkind⟩)
    simp only [holdsAll, ArtifactRow.checks, hkind, List.all_cons, List.all_nil, Bool.and_true,
      Bool.and_eq_true, Option.isNone_iff_eq_none] at hchecks
    obtain ⟨-, -, -, -, -, ⟨hattempt, hsource⟩, -⟩ := hchecks
    rw [hattempt, hsource]
    exact ⟨fun n hn => (by cases hn), fun n hn => (by cases hn)⟩
  | output =>
    have hout : x ∈ (db.view x.jobId).outputs := mem_artifactsOf.mpr ⟨hx, rfl, hkind⟩
    have hmanifest := hinv.manifest x.jobId
    cases hr : db.jobs.get? x.jobId with
    | none =>
      rw [((hinv.lifecycle x.jobId).absent hr).2.2] at hout
      cases hout
    | some r =>
      by_cases hshowing : r.Showing
      · obtain ⟨earlier, a, hattempts, hpublished⟩ := hmanifest.published r hr hshowing
        obtain ⟨hattempt, y, hy, hsource, -⟩ := hpublished.shows x hout
        have ha : a ∈ db.attemptsOf x.jobId := by
          rw [show db.attemptsOf x.jobId = earlier ++ [a] from hattempts]
          exact List.mem_append_right _ (List.mem_singleton.mpr rfl)
        obtain ⟨hamem, hajob⟩ := mem_attemptsOf.mp ha
        obtain ⟨hymem, hyjob, -⟩ := mem_artifactsOf.mp hy
        rw [hattempt, hsource]
        refine ⟨fun n hn => ⟨a, hamem, Option.some.inj hn, hajob⟩,
          fun n hn => ⟨y, hymem, Option.some.inj hn, hyjob⟩⟩
      · rw [hmanifest.unpublished r hr hshowing] at hout
        cases hout

/-- A new job keeps the owner of the row it comes from. -/
theorem Db.Descends.jobs (h : db.Descends) (hturns : db.Turns now db')
    (hplans : db.Plans makes edits runs db') (hgrows : db.Grows uploads now db') :
    ∀ r ∈ db'.jobs,
      (∀ p, r.retryOfJobId = some p → db'.jobOwner p = some r.ownerUserId) ∧
      ∀ s, r.scheduleId = some s → db'.scheduleOwner s = some r.ownerUserId := by
  intro r hr
  have hget : db'.jobs.get? r.id = some r := Table.get?_key hr
  cases hold : db.jobs.get? r.id with
  | some r₀ =>
    obtain ⟨r', hr', htemplate⟩ := (hturns r.id).keeps.job r₀ hold
    obtain rfl : r = r' := Option.some.inj (hget.symm.trans hr')
    have howner : r.ownerUserId = r₀.ownerUserId := (congrArg JobRow.ownerUserId htemplate :)
    have hretry : r.retryOfJobId = r₀.retryOfJobId := (congrArg JobRow.retryOfJobId htemplate :)
    have hschedule : r.scheduleId = r₀.scheduleId := (congrArg JobRow.scheduleId htemplate :)
    rw [howner, hretry, hschedule]
    have hmem := Table.mem_of_get? hold
    exact ⟨fun p hp => jobOwner_turns hturns (h.retry r₀ hmem p hp),
      fun s hs => scheduleOwner_plans hplans (h.scheduled r₀ hmem s hs)⟩
  | none =>
    obtain ⟨-, -, horigin⟩ := hgrows.jobs r.id r hold hget
    cases horigin with
    | demo name row none =>
      rw [row]
      exact ⟨fun p hp => (by cases hp), fun s hs => (by cases hs)⟩
    | upload request uploads valid storable row indexes =>
      rw [row]
      exact ⟨fun p hp => (by cases hp), fun s hs => (by cases hs)⟩
    | retry source stored ended row copied =>
      rw [row]
      refine ⟨fun p hp => ?_, fun s hs => (by cases hs)⟩
      obtain rfl : source.id = p := Option.some.inj hp
      exact jobOwner_turns hturns (jobOwner_eq_some.mpr ⟨source, stored, rfl⟩)
    | occurrence candidate scheduledFor stored free row copied =>
      rw [row]
      refine ⟨fun p hp => (by cases hp), fun s hs => ?_⟩
      obtain rfl : candidate.id = s := Option.some.inj hs
      have hkept := scheduleOwner_eq_some.mpr ⟨candidate, Table.get?_key stored, rfl⟩
      exact scheduleOwner_plans hplans hkept

/-- An occurrence that was recorded before keeps its link. -/
theorem Db.Descends.occurrence (h : db.Descends) (hturns : db.Turns now db')
    (hplans : db.Plans makes edits runs db') {o : ScheduleOccurrenceRow}
    (ho : o ∈ db.scheduleOccurrences) {j : ℕ} (hj : o.jobId = some j) :
    db'.jobOwner j = db'.scheduleOwner o.scheduleId := by
  obtain ⟨u, hu⟩ := Option.isSome_iff_exists.mp (h.rooted.occurrences o ho)
  have hjob := (h.inherits o ho j hj).trans hu
  rw [jobOwner_turns hturns hjob, scheduleOwner_plans hplans hu]

/-- Without a materialization the links of the occurrences stay. -/
theorem Db.Descends.quiet (h : db.Descends) (hturns : db.Turns now db')
    (hplans : db.Plans makes edits (fun _ => False) db') : db'.Inherits := by
  intro o ho j hj
  have hsame : db'.occurrencesOf o.scheduleId = db.occurrencesOf o.scheduleId :=
    (hplans o.scheduleId).quiet fun _ => id
  have hmem : o ∈ db'.occurrencesOf o.scheduleId := mem_occurrencesOf.mpr ⟨ho, rfl⟩
  rw [hsame] at hmem
  exact h.occurrence hturns hplans (mem_occurrencesOf.mp hmem).1 hj

/-- A materialized slot gives its job the owner of the schedule. -/
theorem materializeNextScheduleAt_inherits {locked : List ℕ} (hinv : db.Inv) (h : db.Descends) :
    ((materializeNextScheduleAt asOf locked now db).2).Inherits := by
  refine materializeNextScheduleAt_moves (R := fun _ db' => db'.Inherits) h.inherits ?_
  intro candidate scheduledFor next job coalesced db₁ db' hc hm o ho j hj
  have hmem := (scheduleCandidate_spec hc).1
  have hturns : db.Turns now db' := hm.turns (hinv.schedules candidate hmem)
  have hplans : db.Plans (fun _ => False) (fun _ _ _ => False) (fun _ => True) db' :=
    hm.plans trivial hc
  rcases hm.recorded ho with hold | ⟨hschedule, -, hjob⟩
  · exact h.occurrence hturns hplans hold hj
  · obtain ⟨count, hr⟩ := hjob j hj
    have hkept : db.scheduleOwner candidate.id = some candidate.ownerUserId :=
      scheduleOwner_eq_some.mpr ⟨candidate, Table.get?_key hmem, rfl⟩
    rw [hschedule, scheduleOwner_plans hplans hkept]
    exact jobOwner_eq_some.mpr ⟨_, hr, rfl⟩

theorem System.step_inherits {s t : System} {op : Op} (hinv : s.Inv) (h : s.step op = some t)
    (hdescends : s.db.Descends) : t.db.Inherits := by
  have hsteps := System.step_db hinv h
  by_cases hmaterialize : ∃ asOf locked, op = .materialize asOf locked
  · obtain ⟨asOf, locked, rfl⟩ := hmaterialize
    obtain ⟨-, rfl⟩ := System.step_eq_some.mp h
    exact materializeNextScheduleAt_inherits hinv.db hdescends
  · have hplans := hsteps.plans
    rw [Op.runs_eq_false hmaterialize] at hplans
    exact hdescends.quiet hsteps.turns hplans

end Steps

theorem Db.Descends.step {s t : System} {op : Op} (hinv : s.Inv) (hscheduled : t.db.Scheduled)
    (h : s.step op = some t) (hdescends : s.db.Descends) : t.db.Descends := by
  have hsteps := System.step_db hinv h
  have hjobs := hdescends.jobs hsteps.turns hsteps.plans (System.step_grows hinv h)
  have hlinks := fun x hx => (hinv.step h).db.artifact_links (x := x) hx
  exact ⟨(hinv.step h).db.rooted hscheduled, fun x hx => (hlinks x hx).1,
    fun x hx => (hlinks x hx).2, fun r hr => (hjobs r hr).1, fun r hr => (hjobs r hr).2,
    System.step_inherits hinv h hdescends⟩

/-- In every reachable state each row descends from rows of one owner. -/
theorem System.Reachable.descends {s : System} (hs : s.Reachable) : s.db.Descends := by
  obtain ⟨start, hrun⟩ := hs
  have hinitial : (System.initial start).Reachable := ⟨start, .refl _⟩
  have hall : s.Reachable ∧ s.db.Descends := by
    refine hrun.invariant (P := fun s => s.Reachable ∧ s.db.Descends) ?_ ⟨hinitial, ?_⟩
    · rintro s op t ⟨hs, h⟩ hok he
      have ht : t.Reachable := hs.run (.single op hok he)
      exact ⟨ht, h.step hs.inv ht.scheduled he⟩
    · refine ⟨Db.Inv.empty.rooted (scheduled_initial start), ?_, ?_, ?_, ?_, ?_⟩
      · intro x hx
        cases hx
      · intro x hx
        cases hx
      · intro r hr
        cases hr
      · intro r hr
        cases hr
      · intro o ho
        cases ho
  exact hall.2

end TaskHarbor
