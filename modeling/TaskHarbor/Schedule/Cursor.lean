import TaskHarbor.Schedule.View

/-! The cursor of one schedule: it stays on the grid of its anchor, it stays ahead of the recorded
slots, and between edits the occurrences account for every slot that it passes. -/
namespace TaskHarbor

open Relational Transaction Grid

variable {makes : NewSchedule → Prop} {edits : UpdateSchedule → ℤ → Prop} {runs : ℤ → Prop}
  {v v' : ScheduleView}

theorem ScheduleRow.Sound.interval_pos {s : ScheduleRow} (h : s.Sound) :
    0 < s.intervalSeconds := by
  have hchecks := h.checks
  simp only [holdsAll, ScheduleRow.checks, List.all_cons, Bool.and_eq_true, decide_eq_true_eq]
    at hchecks
  omega

/-- A schedule and what is stored for it. -/
structure ScheduleView.Sound (v : ScheduleView) : Prop where
  absent : v.row = none → v.inputs = [] ∧ v.occurrences = []
  row : ∀ s, v.row = some s → s.Sound

theorem ScheduleMove.viewSound (h : ScheduleMove makes edits runs v v') (hv : v.Sound) :
    v'.Sound := by
  cases h with
  | stay h => rwa [h]
  | created request now s rows makes valid row row' made sound stored inputs occurrences =>
    refine ⟨fun hnone => ?_, fun t ht => ?_⟩
    · rw [row'] at hnone
      cases hnone
    · obtain rfl : s = t := Option.some.inj (row'.symm.trans ht)
      exact sound
  | edited request asOf now next s name edits valid cursor row row' sound inputs occurrences =>
    refine ⟨fun hnone => ?_, fun t ht => ?_⟩
    · rw [row'] at hnone
      cases hnone
    · obtain rfl := Option.some.inj (row'.symm.trans ht)
      exact sound
  | materialized asOf now scheduledFor next s o runs row due slot slotOf free row' inputs
      occurrences =>
    refine ⟨fun hnone => ?_, fun t ht => ?_⟩
    · rw [row'] at hnone
      cases hnone
    · obtain rfl := Option.some.inj (row'.symm.trans ht)
      have hs := hv.row s row
      exact ⟨hs.checks, hs.name, hs.id⟩

/-! ### Ahead of the recorded slots -/

/-- Every recorded slot lies strictly before the cursor. -/
def ScheduleView.Ahead (v : ScheduleView) : Prop :=
  ∀ s, v.row = some s → ∀ o ∈ v.occurrences, o.scheduledFor < s.nextRunAt

/-- No slot of the new grid later than the clock value is, at database precision, at or before a
recorded slot. -/
def ScheduleView.Clear (v : ScheduleView) (request : UpdateSchedule) (asOf : ℤ) : Prop :=
  ∀ o ∈ v.occurrences, ∀ k, asOf < slot request.anchorAt (interval request.intervalSeconds) k →
    o.scheduledFor < bindTimestamp (slot request.anchorAt (interval request.intervalSeconds) k)

theorem UpdateSchedule.interval_pos {request : UpdateSchedule} {u : Unit}
    (h : request.validate = .ok u) : 0 < request.intervalSeconds := by
  have := (validateScheduleFields_ok.mp h).1
  omega

theorem ScheduleMove.ahead (h : ScheduleMove makes edits runs v v') (hv : v.Sound)
    (hclear : ∀ request asOf, edits request asOf → v.Clear request asOf) (hahead : v.Ahead) :
    v'.Ahead := by
  cases h with
  | stay h => rwa [h]
  | created request now s rows makes valid row row' made sound stored inputs occurrences =>
    intro t _ o ho
    rw [occurrences, (hv.absent row).2] at ho
    cases ho
  | edited request asOf now next s name edits valid cursor row row' sound inputs occurrences =>
    intro t ht o ho
    obtain rfl := Option.some.inj (row'.symm.trans ht)
    rw [occurrences] at ho
    obtain ⟨⟨k, rfl⟩, hlater, -⟩ := nextSlotAfter_ok (UpdateSchedule.interval_pos valid) cursor
    exact hclear request asOf edits o ho k hlater
  | materialized asOf now scheduledFor next s o runs row due slot slotOf free row' inputs
      occurrences =>
    have hpos := (hv.row s row).interval_pos
    obtain ⟨-, -, -, hfirst, hnext, -⟩ := (latestDueSlot_ok hpos).mp slot
    have hstep : scheduledFor < next := by
      rw [hfirst, hnext]
      exact (slot_lt_slot (TaskHarbor.interval_pos hpos)).mpr (Nat.lt_succ_self _)
    have hstart : s.nextRunAt ≤ scheduledFor := by
      have hmono := (slot_le_slot (a := s.nextRunAt)
        (TaskHarbor.interval_pos hpos)).mpr (Nat.zero_le o.coalescedSlots)
      rwa [slot_zero, ← hfirst] at hmono
    intro t ht p hp
    obtain rfl := Option.some.inj (row'.symm.trans ht)
    rw [occurrences] at hp
    rcases List.mem_append.mp hp with hp | hp
    · exact (hahead s row p hp).trans_le (hstart.trans hstep.le)
    · obtain rfl := List.mem_singleton.mp hp
      rw [slotOf]
      exact hstep

/-- The condition is exact: an edit that is not clear puts the cursor at or before a recorded
slot. -/
theorem edited_not_ahead {request : UpdateSchedule} {asOf now next : ℤ} {s : ScheduleRow}
    {name : String} (hvalid : request.validate = .ok ())
    (hcursor : nextSlotAfter request.anchorAt request.intervalSeconds asOf = .ok next)
    (hrow' : v'.row = some (s.edited request name next now))
    (hoccurrences : v'.occurrences = v.occurrences) (hclear : ¬v.Clear request asOf) :
    ¬v'.Ahead := by
  unfold ScheduleView.Clear at hclear
  simp only [not_forall, not_lt, exists_prop] at hclear
  obtain ⟨o, ho, k, hlater, hbehind⟩ := hclear
  obtain ⟨-, -, hfirst⟩ := nextSlotAfter_ok (UpdateSchedule.interval_pos hvalid) hcursor
  intro hahead
  rw [← hoccurrences] at ho
  have hlt : o.scheduledFor < bindTimestamp next := hahead _ hrow' o ho
  exact absurd (hlt.trans_le (bindTimestamp_mono (hfirst k hlater))) (not_lt.mpr hbehind)

/-! ### On the grid of the anchor -/

/-- The cursor is a slot of the schedule's own grid, at database precision. -/
def ScheduleView.Anchored (v : ScheduleView) : Prop :=
  ∀ s, v.row = some s → WholeMicros s.anchorAt ∧
    OnGrid s.anchorAt (interval s.intervalSeconds) s.nextRunAt

theorem wholeMicros_slot {a : ℤ} {i k : ℕ} (h : WholeMicros a) :
    WholeMicros (slot a (interval i) k) :=
  h.add (Dvd.dvd.mul_left (wholeMicros_seconds i) k)

theorem ScheduleMove.anchored (h : ScheduleMove makes edits runs v v') (hv : v.Sound)
    (hedits : ∀ request asOf, edits request asOf → WholeMicros request.anchorAt)
    (hanchored : v.Anchored) : v'.Anchored := by
  cases h with
  | stay h => rwa [h]
  | created request now s rows makes valid row row' made sound stored inputs occurrences =>
    intro t ht
    obtain rfl : s = t := Option.some.inj (row'.symm.trans ht)
    rw [made]
    refine ⟨wholeMicros_bindTimestamp _, 0, ?_⟩
    rw [slot_zero]
    rfl
  | edited request asOf now next s name edits valid cursor row row' sound inputs occurrences =>
    intro t ht
    obtain rfl := Option.some.inj (row'.symm.trans ht)
    have hmicros := hedits request asOf edits
    obtain ⟨⟨k, rfl⟩, -⟩ := nextSlotAfter_ok (UpdateSchedule.interval_pos valid) cursor
    have hanchor : bindTimestamp request.anchorAt = request.anchorAt :=
      bindTimestamp_of_wholeMicros hmicros
    have hcursor : bindTimestamp (slot request.anchorAt (interval request.intervalSeconds) k) =
        slot request.anchorAt (interval request.intervalSeconds) k :=
      bindTimestamp_of_wholeMicros (wholeMicros_slot hmicros)
    unfold ScheduleRow.edited
    simp only [hanchor, hcursor]
    exact ⟨hmicros, k, rfl⟩
  | materialized asOf now scheduledFor next s o runs row due slot slotOf free row' inputs
      occurrences =>
    intro t ht
    obtain rfl := Option.some.inj (row'.symm.trans ht)
    obtain ⟨hmicros, hgrid⟩ := hanchored s row
    obtain ⟨-, -, -, -, hnext, -⟩ := (latestDueSlot_ok (hv.row s row).interval_pos).mp slot
    refine ⟨hmicros, ?_⟩
    change OnGrid s.anchorAt (interval s.intervalSeconds) next
    rw [hnext]
    exact hgrid.slot _

/-! ### Accounting between edits -/

/-- The slot and the absorbed slots of an occurrence. -/
def ScheduleOccurrenceRow.entry (o : ScheduleOccurrenceRow) : ℤ × ℕ :=
  (o.scheduledFor, o.coalescedSlots)

/-- From `s` on, with cursor `s.nextRunAt` and recorded occurrences `recorded`, nothing but
materializations happened. -/
structure ScheduleView.Accounts (s : ScheduleRow) (recorded : List ScheduleOccurrenceRow)
    (v : ScheduleView) (s' : ScheduleRow) (log : List ScheduleOccurrenceRow) : Prop where
  row : v.row = some s'
  anchor : s'.anchorAt = s.anchorAt
  interval : s'.intervalSeconds = s.intervalSeconds
  occurrences : v.occurrences = recorded ++ log
  tiles : Tiles (TaskHarbor.interval s.intervalSeconds) s.nextRunAt
    (log.map ScheduleOccurrenceRow.entry) s'.nextRunAt

theorem ScheduleMove.accounts (h : ScheduleMove makes edits runs v v') (hv : v.Sound)
    (hedits : ∀ request asOf, ¬edits request asOf) {s s' : ScheduleRow}
    {recorded log : List ScheduleOccurrenceRow} (hacc : v.Accounts s recorded s' log) :
    ∃ s'' log', v'.Accounts s recorded s'' log' := by
  cases h with
  | stay h => exact ⟨s', log, by rwa [h]⟩
  | created request now t rows makes valid row row' made sound stored inputs occurrences =>
    rw [hacc.row] at row
    cases row
  | edited request asOf now next t name edits valid cursor row row' sound inputs occurrences =>
    exact absurd edits (hedits request asOf)
  | materialized asOf now scheduledFor next t o runs row due slot slotOf free row' inputs
      occurrences =>
    obtain rfl : s' = t := Option.some.inj (hacc.row.symm.trans row)
    obtain ⟨-, -, -, hfirst, hnext, -⟩ := (latestDueSlot_ok (hv.row s' row).interval_pos).mp slot
    rw [hacc.interval] at hfirst hnext
    refine ⟨s'.advanced next now, log ++ [o], row', hacc.anchor, hacc.interval, ?_, ?_⟩
    · rw [occurrences, hacc.occurrences, List.append_assoc]
    · have hentry : o.entry =
          (Grid.slot s'.nextRunAt (TaskHarbor.interval s.intervalSeconds) o.coalescedSlots,
            o.coalescedSlots) := by
        rw [ScheduleOccurrenceRow.entry, slotOf, hfirst]
      rw [List.map_append, List.map_singleton, hentry]
      change Tiles _ _ _ next
      rw [hnext]
      exact hacc.tiles.snoc o.coalescedSlots

end TaskHarbor
