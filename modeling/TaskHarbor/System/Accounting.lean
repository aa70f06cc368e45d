import TaskHarbor.Schedule.Drain
import TaskHarbor.System.Manifest

/-! Schedules over whole runs: every cursor is a slot of its schedule's grid, and between two edits
the recorded occurrences account for every slot that the cursor passed, each exactly once. -/
namespace TaskHarbor

open Relational Transaction Runs Grid

/-- Edits name their anchor at the precision of the database. -/
def Op.Micros (_ : System) (op : Op) : Prop :=
  ∀ id request asOf, op.Edits id request asOf → WholeMicros request.anchorAt

/-- The operation does not edit the schedule `id`. -/
def Op.Spares (id : ℕ) (_ : System) (op : Op) : Prop :=
  ∀ request asOf, ¬op.Edits id request asOf

section Views

variable {ok : System → Op → Prop} {s t : System} {op : Op}

theorem System.step_plan (hinv : s.Inv) (h : s.step op = some t) (id : ℕ) :
    ScheduleMove op.Makes (op.Edits id) op.Runs (s.db.scheduleView id) (t.db.scheduleView id) :=
  (System.step_db hinv h).plans id

/-- The rows of every schedule are sound. -/
def Db.Scheduled (db : Db) : Prop := ∀ id, (db.scheduleView id).Sound

theorem scheduled_initial (now : ℤ) : (System.initial now).db.Scheduled := by
  intro id
  refine ⟨fun _ => ⟨rfl, rfl⟩, fun s hs => ?_⟩
  cases hs

/-- What every step keeps of every schedule, every run keeps. -/
theorem System.Inv.scheduled_run (hinv : s.Inv) (hs : s.db.Scheduled) {P : ScheduleView → Prop}
    (hstep : ∀ s op t id, ok s op → s.step op = some t → (s.db.scheduleView id).Sound →
      ScheduleMove op.Makes (op.Edits id) op.Runs (s.db.scheduleView id) (t.db.scheduleView id) →
      P (s.db.scheduleView id) → P (t.db.scheduleView id))
    (hP : ∀ id, P (s.db.scheduleView id)) (h : Run System.step ok s t) :
    t.db.Scheduled ∧ ∀ id, P (t.db.scheduleView id) := by
  have hall : t.Inv ∧ t.db.Scheduled ∧ ∀ id, P (t.db.scheduleView id) := by
    refine h.invariant (P := fun s => s.Inv ∧ s.db.Scheduled ∧ ∀ id, P (s.db.scheduleView id)) ?_
      ⟨hinv, hs, hP⟩
    rintro s op t ⟨hinv, hs, hP⟩ hok he
    refine ⟨hinv.step he, fun id => ?_, fun id => ?_⟩
    · exact (System.step_plan hinv he id).viewSound (hs id)
    · exact hstep s op t id hok he (hs id) (System.step_plan hinv he id) (hP id)
  exact hall.2

theorem System.Reachable.scheduled (hs : s.Reachable) : s.db.Scheduled := by
  obtain ⟨now, hrun⟩ := hs
  exact ((System.Inv.initial now).scheduled_run (P := fun _ => True) (scheduled_initial now)
    (fun _ _ _ _ _ _ _ _ _ => trivial) (fun _ => trivial) hrun).1

/-- Every cursor is a slot of its schedule's grid. -/
theorem reachable_anchored {now : ℤ}
    (h : Run System.step Op.Micros (.initial now) s) (id : ℕ) :
    (s.db.scheduleView id).Anchored := by
  refine ((System.Inv.initial now).scheduled_run (scheduled_initial now) ?_ ?_ h).2 id
  · intro s op t id hok _ hv hmove hanchored
    exact hmove.anchored hv (fun request asOf he => hok id request asOf he) hanchored
  · intro id s hs
    cases hs

/-- Without an edit, a run accounts for the slots it passes. -/
theorem run_accounts (hinv : s.Inv) (hs : s.db.Scheduled) {id : ℕ} {row : ScheduleRow}
    (hrow : s.db.schedules.get? id = some row) (h : Run System.step (Op.Spares id) s t) :
    ∃ row' log, (t.db.scheduleView id).Accounts row (s.db.occurrencesOf id) row' log := by
  have hstart : (s.db.scheduleView id).Accounts row (s.db.occurrencesOf id) row [] :=
    ⟨hrow, rfl, rfl, (List.append_nil _).symm, .nil⟩
  have hall : t.Inv ∧ t.db.Scheduled ∧ ∃ row' log,
      (t.db.scheduleView id).Accounts row (s.db.occurrencesOf id) row' log := by
    induction h with
    | refl => exact ⟨hinv, hs, row, [], hstart⟩
    | tail op _ hok he ih =>
      obtain ⟨hinv', hs', row', log, hacc⟩ := ih
      have hplan := System.step_plan hinv' he
      exact ⟨hinv'.step he, fun i => (hplan i).viewSound (hs' i),
        (hplan id).accounts (hs' id) hok hacc⟩
  exact hall.2.2

end Views

/-! ### Anchored exactly-once accounting -/

/-- The occurrences recorded between two cursors of a schedule account for the slots between. -/
structure ScheduleRow.Accounted (row row' : ScheduleRow) (log : List ScheduleOccurrenceRow) :
    Prop where
  anchor : row'.anchorAt = row.anchorAt
  interval : row'.intervalSeconds = row.intervalSeconds
  /-- A slot from one cursor on and before the other is an occurrence's own or absorbed one. -/
  slots : ∀ x, x ∈ log.flatMap (fun o => covered (TaskHarbor.interval row.intervalSeconds) o.entry)
    ↔ OnGrid row.nextRunAt (TaskHarbor.interval row.intervalSeconds) x ∧ x < row'.nextRunAt
  once : (log.flatMap fun o => covered (TaskHarbor.interval row.intervalSeconds) o.entry).Nodup
  sum : ((log.map fun o => 1 + o.coalescedSlots).sum : ℕ) *
    TaskHarbor.interval row.intervalSeconds = row'.nextRunAt - row.nextRunAt
  anchored : ∀ o ∈ log,
    OnGrid row.anchorAt (TaskHarbor.interval row.intervalSeconds) o.scheduledFor

theorem ScheduleView.accounted {v : ScheduleView} {row row' : ScheduleRow}
    {recorded log : List ScheduleOccurrenceRow} (hpos : 0 < row.intervalSeconds)
    (hgrid : OnGrid row.anchorAt (interval row.intervalSeconds) row.nextRunAt)
    (h : v.Accounts row recorded row' log) : row.Accounted row' log := by
  have hd : 0 < interval row.intervalSeconds := interval_pos hpos
  have hcovered : (log.flatMap fun o => covered (interval row.intervalSeconds) o.entry) =
      slots row.nextRunAt (interval row.intervalSeconds)
        (total (log.map ScheduleOccurrenceRow.entry)) := by
    rw [← h.tiles.covered, List.flatMap_map]
  have hcursor := h.tiles.cursor
  refine ⟨h.anchor, h.interval, ?_, ?_, ?_, ?_⟩
  · intro x
    rw [hcovered, mem_slots_iff_lt hd, hcursor]
  · rw [hcovered]
    exact slots_nodup hd _
  · rw [← h.tiles.length, total, List.map_map]
    rfl
  · intro o ho
    have hown : o.scheduledFor ∈
        log.flatMap fun o => covered (interval row.intervalSeconds) o.entry :=
      List.mem_flatMap.mpr ⟨o, ho, self_mem_covered _ o.entry⟩
    rw [hcovered, mem_slots] at hown
    obtain ⟨k, -, hk⟩ := hown
    rw [hk]
    exact hgrid.slot k

/-- Right after a call that answers with a tick the schedule's cursor is later than its clock. -/
theorem materializeNextScheduleAt_later {db db' : Db} (hsound : ∀ s ∈ db.schedules, s.Sound)
    {asOf now : ℤ} {locked : List ℕ} {tick : ScheduleTick}
    (h : materializeNextScheduleAt asOf locked now db = (.ok (some tick), db')) :
    ∃ row, db'.schedules.get? tick.scheduleId.get = some row ∧ asOf < row.nextRunAt := by
  obtain ⟨candidate, scheduledFor, next, job, coalesced, db₁, hc, hm, hid, -, -⟩ :=
    materializeNextScheduleAt_some h
  have hmem := (scheduleCandidate_spec hc).1
  have hget : db.schedules.get? candidate.id = some candidate := Table.get?_key hmem
  refine ⟨candidate.advanced next now, ?_, hm.cursor_later (hsound candidate hmem)⟩
  rw [hm.schedules, hid]
  exact Table.get?_put_self hget rfl

/-- Every cursor is on its grid, every run between two edits accounts for each slot it passes
once, a call leaves the cursor later than its clock, and calls at one clock until none is answered
handle the due schedules in order, no more calls than schedules. -/
theorem anchored_slot_accounting {s : System} {start : ℤ}
    (h : Run System.step Op.Micros (.initial start) s) :
    (∀ row ∈ s.db.schedules,
      OnGrid row.anchorAt (interval row.intervalSeconds) row.nextRunAt) ∧
    (∀ row ∈ s.db.schedules, ∀ t, Run System.step (Op.Spares row.id) s t →
      ∃ row' log, t.db.schedules.get? row.id = some row' ∧
        t.db.occurrencesOf row.id = s.db.occurrencesOf row.id ++ log ∧ row.Accounted row' log) ∧
    (∀ asOf locked now tick db',
      materializeNextScheduleAt asOf locked now s.db = (.ok (some tick), db') →
        ∃ row, db'.schedules.get? tick.scheduleId.get = some row ∧ asOf < row.nextRunAt) ∧
    ∀ asOf, WholeMicros asOf → ∀ ticks db', Drains asOf s.db ticks db' →
      ticks.length ≤ (s.db.due asOf).length ∧
      ∀ now, (materializeNextScheduleAt asOf [] now db').1 = .ok none →
        ∃ handled : List ScheduleRow, handled.Perm (s.db.due asOf) ∧
          handled.Pairwise ScheduleRow.Before ∧
          ticks.map (fun tick => tick.scheduleId.get) = handled.map ScheduleRow.id := by
  have hreachable : s.Reachable := ⟨start, h.always⟩
  have hinv := hreachable.inv
  have hgrid : ∀ row ∈ s.db.schedules,
      OnGrid row.anchorAt (interval row.intervalSeconds) row.nextRunAt := by
    intro row hrow
    exact (reachable_anchored h row.id row (Table.get?_key hrow)).2
  refine ⟨hgrid, ?_, ?_, ?_⟩
  · intro row hrow t hrun
    obtain ⟨row', log, hacc⟩ :=
      run_accounts hinv hreachable.scheduled (Table.get?_key hrow) hrun
    have hpos := (hinv.db.schedules row hrow).interval_pos
    exact ⟨row', log, hacc.row, hacc.occurrences,
      ScheduleView.accounted hpos (hgrid row hrow) hacc⟩
  · intro asOf locked now tick db' hcall
    exact materializeNextScheduleAt_later hinv.db.schedules hcall
  · intro asOf hmicros ticks db' hdrains
    obtain ⟨handled, hids, hperm, hordered⟩ := hdrains.handled hmicros hinv.db.schedules
    have hcount := congrArg List.length hids
    have hlength := hperm.length_eq
    rw [List.length_map, List.length_map] at hcount
    rw [List.length_append] at hlength
    refine ⟨by omega, fun now hnone => ?_⟩
    rw [(materializeNextScheduleAt_none_due hmicros).mp hnone, List.append_nil] at hperm
    exact ⟨handled, hperm, hordered, hids⟩

/-! A schedule that is due two slots late. -/

def sampleSchedule : NewSchedule where
  ownerUserId := 1
  name := sampleName
  intervalSeconds := 60
  anchorAt := 0
  priority := .normal
  maxWidth := 100
  jpegQuality := 80
  inputs := [sampleInput "inputs/s" "s.png"]

def sampleDueOps : List Op :=
  [.createSchedule sampleSchedule, .tick (seconds 150), .readClock]

theorem anchored_slot_accounting_late : ∃ s t : System,
    Run System.step Op.Micros (.initial 0) s ∧ Run System.step (Op.Spares 1) s t ∧
    ∃ row row' log, s.db.schedules.get? 1 = some row ∧ t.db.schedules.get? 1 = some row' ∧
      log.map ScheduleOccurrenceRow.entry = [(seconds 120, 2)] ∧ row.Accounted row' log := by
  have hexec : (exec System.step (.initial 0) sampleDueOps).any (fun s =>
      (s.step (.materialize (seconds 150) [])).any fun t =>
        (s.db.schedules.get? 1).isSome && (s.db.occurrencesOf 1).isEmpty &&
          (t.db.occurrencesOf 1).map ScheduleOccurrenceRow.entry == [(seconds 120, 2)]) =
      true := by
    decide +kernel
  obtain ⟨s, hs, hlater⟩ := (Option.any_eq_true _ _).mp hexec
  obtain ⟨t, ht, hfacts⟩ := (Option.any_eq_true _ _).mp hlater
  simp only [Bool.and_eq_true, beq_iff_eq, List.isEmpty_iff] at hfacts
  obtain ⟨⟨hrow, hnone⟩, hlog⟩ := hfacts
  obtain ⟨row, hrow⟩ := Option.isSome_iff_exists.mp hrow
  have hmicros : Run System.step Op.Micros (.initial 0) s := by
    refine run_of_exec ?_ hs
    rintro u op hop id request asOf ⟨scheduleId, owner, -, rfl⟩
    simp [sampleDueOps] at hop
  have hspares : Run System.step (Op.Spares 1) s t := by
    refine .single _ ?_ ht
    rintro request asOf ⟨scheduleId, owner, -, hop⟩
    cases hop
  have hid : row.id = 1 := Table.key_of_get? hrow
  obtain ⟨row', log, hrow', happended, haccounted⟩ :=
    (anchored_slot_accounting hmicros).2.1 row (Table.mem_of_get? hrow) t (hid ▸ hspares)
  rw [hid] at hrow' happended
  rw [hnone, List.nil_append] at happended
  rw [happended] at hlog
  exact ⟨s, t, hmicros, hspares, row, row', log, hrow, hrow', hlog, haccounted⟩

end TaskHarbor
