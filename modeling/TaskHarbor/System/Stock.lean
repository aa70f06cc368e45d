import TaskHarbor.Lifecycle.Dates
import TaskHarbor.System.Accounting

/-! What a job brings to its claim, in every reachable state: instants that the queue can subtract,
and for an image job inputs numbered from zero, whichever way the job was made. -/
namespace TaskHarbor

open Relational Transaction Runs

/-! ### Instants -/

/-- The instants that an operation brings are `OffsetDateTime` values. -/
def Op.Dated (_ : System) : Op → Prop
  | .createImageJob request =>
      ∀ t, request.availableAt = some t → minTimestamp ≤ t ∧ t ≤ maxTimestamp
  | .tick now => now ≤ maxTimestamp
  | _ => True

section Dates

variable {ok : System → Op → Prop} {s t : System} {op : Op}

theorem System.run_dates {α : Type} {x : Session α} (h : Session.Moves Db.Dates x s.db) :
    s.db.Dates (s.run x).db := h

theorem System.runClaim_dates {x : Session (Option ClaimedJob)}
    (h : Session.Moves Db.Dates x s.db) : s.db.Dates (s.runClaim x).db := h

theorem System.step_dates (hinv : s.Inv) (hnow : minTimestamp ≤ s.now) (hok : op.Dated s)
    (h : s.step op = some t) : s.db.Dates t.db := by
  obtain ⟨-, rfl⟩ := System.step_eq_some.mp h
  cases op with
  | create name => exact System.run_dates (create_dates hnow)
  | createImageJob request =>
    exact System.run_dates (createImageJob_dates hnow fun t ht => (hok t ht).1)
  | manualRetry id owner => exact System.run_dates (manualRetry_dates hnow)
  | requestCancel id owner => exact System.run_dates requestCancel_dates
  | registerWorker registration asOf => exact System.run_dates registerWorker_dates
  | heartbeatWorker workerId ttl asOf => exact System.run_dates heartbeatWorker_dates
  | stopWorker workerId => exact System.run_dates stopWorker_dates
  | claimNext workerId claimToken locked => exact System.runClaim_dates (claimNext_dates hnow)
  | renewLease claimed => exact System.run_dates renewLease_dates
  | updateProgress claimed completed => exact System.run_dates updateProgress_dates
  | recordEncodingDuration claimed duration => exact System.run_dates recordEncodingDuration_dates
  | recordFailure claimed duration kind message =>
    exact System.run_dates (recordFailure_dates hnow)
  | finishCancelled claimed duration => exact System.run_dates finishCancelled_dates
  | complete claimed duration => exact System.run_dates complete_dates
  | completeImageJob claimed duration outputs => exact System.run_dates completeImageJob_dates
  | reclaim asOf locked => exact System.run_dates reclaimNextExpiredAttemptAt_dates
  | createSchedule request => exact System.run_dates createSchedule_dates
  | updateSchedule id request asOf owner =>
    exact System.run_dates updateScheduleAtWithOwner_dates
  | materialize asOf locked =>
    exact System.run_dates (materializeNextScheduleAt_dates hinv.db.schedules)
  | expireOutputs retentionSeconds => exact System.run_dates expireOutputArtifacts_dates
  | tick now => exact fun hdated => hdated
  | readClock => exact fun hdated => hdated

/-- While the clock shows `OffsetDateTime` values, no instant of the queue is before the first. -/
theorem run_dated {start : ℤ} (hstart : minTimestamp ≤ start) (hend : start ≤ maxTimestamp)
    (h : Run System.step Op.Dated (.initial start) s) :
    s.db.Dated ∧ minTimestamp ≤ s.now ∧ s.now ≤ maxTimestamp := by
  have hall : s.Inv ∧ s.db.Dated ∧ minTimestamp ≤ s.now ∧ s.now ≤ maxTimestamp := by
    refine h.invariant
      (P := fun s => s.Inv ∧ s.db.Dated ∧ minTimestamp ≤ s.now ∧ s.now ≤ maxTimestamp) ?_
      ⟨.initial start, ⟨?_, ?_⟩, hstart, hend⟩
    · rintro s op t ⟨hinv, hdated, hmin, hmax⟩ hok he
      refine ⟨hinv.step he, System.step_dates hinv hmin hok he hdated,
        hmin.trans (System.step_now he), ?_⟩
      obtain ⟨-, rfl⟩ := System.step_eq_some.mp he
      rw [System.apply_now]
      cases op with
      | tick now => exact hok
      | _ => exact hmax
    · intro r hr
      cases hr
    · intro a ha
      cases ha
  exact hall.2

end Dates

/-! ### Numbered inputs -/

theorem map_eq_of_forall₂ {α β γ : Type} {R : α → β → Prop} {f : α → γ} {g : β → γ} {l : List α}
    {l' : List β} (h : List.Forall₂ R l l') (hR : ∀ a b, R a b → g b = f a) :
    l'.map g = l.map f := by
  induction h with
  | nil => rfl
  | cons hab _ ih => rw [List.map_cons, List.map_cons, hR _ _ hab, ih]

/-- The stored inputs of a schedule are numbered from zero. -/
def ScheduleView.Numbered (v : ScheduleView) : Prop :=
  v.inputs.map ScheduleInputRow.itemIndex = List.range v.inputs.length

theorem StoredInput.itemIndex {scheduleId : ℕ} {now : ℤ} {input : NewInputArtifact × ℕ}
    {row : ScheduleInputRow} (h : StoredInput scheduleId now input row) :
    row.itemIndex = input.2 := by
  obtain ⟨⟨displayName, n, -, rfl⟩, -⟩ := h
  rfl

theorem ScheduleMove.numbered {makes : NewSchedule → Prop} {edits : UpdateSchedule → ℤ → Prop}
    {runs : ℤ → Prop} {v v' : ScheduleView} (h : ScheduleMove makes edits runs v v')
    (hv : v.Sound) (hnumbered : v.Numbered) : v'.Numbered := by
  cases h with
  | stay h => rwa [h]
  | created request now s rows makes valid row row' made sound stored inputs occurrences =>
    have hlength := stored.length_eq
    have hindexes := map_eq_of_forall₂ (f := Prod.snd) stored
      fun _ _ hstored => StoredInput.itemIndex hstored
    rw [(hv.absent row).1, List.nil_append] at inputs
    rw [List.length_zipIdx] at hlength
    unfold ScheduleView.Numbered
    rw [inputs, hindexes, List.zipIdx_map_snd, ← hlength, List.range_eq_range']
  | edited request asOf now next s name edits valid cursor row row' sound inputs occurrences =>
    rwa [ScheduleView.Numbered, inputs]
  | materialized asOf now scheduledFor next s o runs row due slot slotOf free row' inputs
      occurrences =>
    rwa [ScheduleView.Numbered, inputs]

/-- Sorting the stored inputs by their number changes nothing. -/
theorem ScheduleView.Numbered.scheduleInputsOf {db : Db} {id : ℕ}
    (h : (db.scheduleView id).Numbered) : scheduleInputsOf db id = db.inputRowsOf id := by
  have hindexes : (db.inputRowsOf id).map ScheduleInputRow.itemIndex =
      List.range (db.inputRowsOf id).length := h
  have hsorted : (List.range (db.inputRowsOf id).length).Pairwise (· ≤ ·) :=
    List.pairwise_lt_range.imp fun hlt => hlt.le
  rw [← hindexes, List.pairwise_map] at hsorted
  exact List.Pairwise.insertionSort_eq hsorted

theorem System.Reachable.numbered {s : System} (hs : s.Reachable) (id : ℕ) :
    (s.db.scheduleView id).Numbered := by
  obtain ⟨start, hrun⟩ := hs
  refine ((System.Inv.initial start).scheduled_run (scheduled_initial start) ?_ (fun _ => rfl)
    hrun).2 id
  intro s op t id _ _ hv hmove hnumbered
  exact hmove.numbered hv hnumbered

/-- An image job has one input for each unit of its progress, numbered from zero. -/
def Db.Stocked (db : Db) : Prop :=
  ∀ r ∈ db.jobs, r.jobType = .imageResize →
    (db.artifactsOf r.id .input).map ArtifactRow.itemIndex = List.range r.progressTotal

section Stock

variable {uploads : NewImageJob → Prop} {now : ℤ} {db db' : Db}

/-- A new image job is stocked, whichever way it was made. -/
theorem Origin.stocked {r : JobRow} {inputs : List ArtifactRow} (h : Origin uploads db now r inputs)
    (hstocked : db.Stocked) (hnumbered : ∀ id, (db.scheduleView id).Numbered)
    (himage : r.jobType = .imageResize) :
    inputs.map ArtifactRow.itemIndex = List.range r.progressTotal := by
  cases h with
  | demo name row none =>
    rw [row] at himage
    cases himage
  | upload request uploads valid storable row indexes =>
    rw [indexes, row]
    rfl
  | retry source stored ended row copied =>
    have hsource : source.jobType = .imageResize := by
      rw [row] at himage
      exact himage
    have hsame := map_eq_of_forall₂ (f := ArtifactRow.itemIndex) (g := ArtifactRow.itemIndex)
      copied (by
        rintro x y ⟨i, rfl⟩
        rfl)
    rw [hsame, hstocked source (Table.mem_of_get? stored) hsource, row]
    rfl
  | occurrence candidate scheduledFor stored free row copied =>
    have hsame := map_eq_of_forall₂ (f := ScheduleInputRow.itemIndex)
      (g := ArtifactRow.itemIndex) copied (by
        rintro x y ⟨i, rfl⟩
        rfl)
    have hview := hnumbered candidate.id
    rw [hsame, row, hview.scheduleInputsOf]
    exact hview

theorem Db.Stocked.step (hturns : db.Turns now db') (hgrows : db.Grows uploads now db')
    (hnumbered : ∀ id, (db.scheduleView id).Numbered) (h : db.Stocked) : db'.Stocked := by
  intro r hr himage
  have hget : db'.jobs.get? r.id = some r := Table.get?_key hr
  cases hold : db.jobs.get? r.id with
  | none =>
    obtain ⟨-, -, horigin⟩ := hgrows.jobs r.id r hold hget
    exact horigin.stocked h hnumbered himage
  | some r₀ =>
    have hkeeps := (hturns r.id).keeps
    obtain ⟨r', hr', htemplate⟩ := hkeeps.job r₀ hold
    obtain rfl : r = r' := Option.some.inj (hget.symm.trans hr')
    have hid : r₀.id = r.id := Table.key_of_get? hold
    have htype : r.jobType = r₀.jobType := (congrArg JobRow.jobType htemplate :)
    have htotal : r.progressTotal = r₀.progressTotal :=
      (congrArg JobRow.progressTotal htemplate :)
    have hinputs : db'.artifactsOf r.id .input = db.artifactsOf r.id .input := by
      refine hkeeps.inputs ?_
      show (db.jobs.get? r.id).isSome = true
      rw [hold]
      rfl
    rw [hinputs, htotal, ← hid]
    exact h r₀ (Table.mem_of_get? hold) (htype.symm.trans himage)

theorem System.Reachable.stocked {s : System} (hs : s.Reachable) : s.db.Stocked := by
  obtain ⟨start, hrun⟩ := hs
  have hall : s.Reachable ∧ s.db.Stocked := by
    refine hrun.invariant (P := fun s => s.Reachable ∧ s.db.Stocked) ?_
      ⟨⟨start, .refl _⟩, fun r hr => by cases hr⟩
    rintro s op t ⟨hs, h⟩ hok he
    exact ⟨hs.run (.single op hok he),
      h.step (System.step_db hs.inv he).turns (System.step_grows hs.inv he) hs.numbered⟩
  exact hall.2

end Stock

end TaskHarbor
