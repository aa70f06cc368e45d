import TaskHarbor.Schedule.Taken
import TaskHarbor.System.Accounting

/-! The cursor of a schedule against its recorded slots. An edit computes the cursor from a clock
value that it read before its UPDATE, so a slot recorded in between may lie past the new cursor. -/
namespace TaskHarbor

open Relational Transaction Runs Grid

/-- No UPDATE of an edit takes a slot at or before a recorded one from its clock value. -/
def Op.ClearEdits (s : System) (op : Op) : Prop :=
  ∀ scheduleId request asOf owner, op = .updateSchedule scheduleId request asOf owner →
    request.Applies s.db scheduleId asOf owner →
    (s.db.scheduleView scheduleId.get).Clear request asOf

theorem System.step_ahead {s t : System} {op : Op} (hinv : s.Inv) (h : s.step op = some t)
    (hclear : op.ClearEdits s) {id : ℕ} (hs : (s.db.scheduleView id).Sound)
    (hahead : (s.db.scheduleView id).Ahead) : (t.db.scheduleView id).Ahead := by
  cases op with
  | updateSchedule scheduleId request asOf owner =>
    obtain ⟨-, rfl⟩ := System.step_eq_some.mp h
    let edits (i : ℕ) (r : UpdateSchedule) (clock : ℤ) : Prop :=
      i = scheduleId.get ∧ r = request ∧ clock = asOf ∧ request.Applies s.db scheduleId asOf owner
    have hplans : s.db.Plans (fun _ => False) edits (fun _ => False)
        (updateScheduleAtWithOwner scheduleId request asOf owner s.now s.db).2 :=
      updateScheduleAtWithOwner_plans hinv.db.schedules fun happlies => ⟨rfl, rfl, rfl, happlies⟩
    refine (hplans id).ahead hs ?_ hahead
    rintro r clock ⟨rfl, rfl, rfl, happlies⟩
    exact hclear scheduleId r clock owner rfl happlies
  | _ =>
    refine (System.step_plan hinv h id).ahead hs ?_ hahead
    rintro r clock ⟨_, _, -, hop⟩
    cases hop

theorem clear_ahead {s : System} {start : ℤ}
    (h : Run System.step Op.ClearEdits (.initial start) s) (id : ℕ) :
    (s.db.scheduleView id).Ahead := by
  have hinitial : ∀ id, ((System.initial start).db.scheduleView id).Ahead := by
    intro id s hs
    cases hs
  have hall : s.Inv ∧ s.db.Scheduled ∧ ∀ id, (s.db.scheduleView id).Ahead := by
    refine h.invariant (P := fun s => s.Inv ∧ s.db.Scheduled ∧ ∀ id, (s.db.scheduleView id).Ahead)
      ?_ ⟨System.Inv.initial start, scheduled_initial start, hinitial⟩
    rintro s op t ⟨hinv, hs, hahead⟩ hok he
    refine ⟨hinv.step he, fun id => ?_, fun id => ?_⟩
    · exact (System.step_plan hinv he id).viewSound (hs id)
    · exact System.step_ahead hinv he hok (hs id) (hahead id)
  exact hall.2.2 id

/-- Along every run of clear edits each cursor is ahead of the recorded slots, and no call fails
over a taken slot. -/
theorem cursor_ahead_of_clear_edits {s : System} {start : ℤ}
    (h : Run System.step Op.ClearEdits (.initial start) s) :
    (∀ row ∈ s.db.schedules, ∀ o ∈ s.db.occurrencesOf row.id, o.scheduledFor < row.nextRunAt) ∧
    ∀ asOf locked now, (materializeNextScheduleAt asOf locked now s.db).1 ≠
      .error (.database "schedule_occurrences_slot_unique") := by
  have hreachable : s.Reachable := ⟨start, h.always⟩
  have hahead : ∀ row ∈ s.db.schedules, ∀ o ∈ s.db.occurrencesOf row.id,
      o.scheduledFor < row.nextRunAt := by
    intro row hrow o ho
    exact clear_ahead h row.id row (Table.get?_key hrow) o ho
  refine ⟨hahead, fun asOf locked now => ?_⟩
  exact materializeNextScheduleAt_avoids hreachable.inv.db.schedules hahead asOf locked

/-! An edit with a fresh clock value, and one whose clock value is older than a recorded slot. -/

def sampleEdit : UpdateSchedule := ⟨sampleName, true, 60, 0, .high, 100, 80⟩

theorem one_le_i64Max : 1 ≤ i64Max := by decide

def scheduleOne : ScheduleId := ⟨1, Nat.one_pos, one_le_i64Max⟩

theorem cursor_ahead_of_clear_edits_fresh : ∃ s : System,
    Run System.step Op.ClearEdits (.initial 0) s ∧
    ∃ row ∈ s.db.schedules, row.priority = .high ∧ s.db.occurrencesOf row.id ≠ [] ∧
      ∀ o ∈ s.db.occurrencesOf row.id, o.scheduledFor < row.nextRunAt := by
  have hexec : (exec System.step (.initial 0)
      (sampleDueOps ++ [.materialize (seconds 150) []])).any (fun s =>
        ((s.db.scheduleView 1).occurrences.all fun o => decide (o.scheduledFor ≤ seconds 120)) &&
        (s.step (.updateSchedule scheduleOne sampleEdit (seconds 150) none)).any fun t =>
          (t.db.schedules.get? 1).any fun row =>
            decide (row.priority = .high ∧ t.db.occurrencesOf row.id ≠ [])) = true := by
    decide +kernel
  obtain ⟨s, hs, hfacts⟩ := (Option.any_eq_true _ _).mp hexec
  rw [Bool.and_eq_true] at hfacts
  obtain ⟨hrecorded, hlater⟩ := hfacts
  obtain ⟨t, ht, hrow⟩ := (Option.any_eq_true _ _).mp hlater
  obtain ⟨row, hget, hrow⟩ := (Option.any_eq_true _ _).mp hrow
  obtain ⟨hpriority, hsome⟩ := of_decide_eq_true hrow
  have hbefore : Run System.step Op.ClearEdits (.initial 0) s := by
    refine run_of_exec ?_ hs
    rintro u op hop scheduleId request asOf owner rfl -
    simp [sampleDueOps] at hop
  have hrun : Run System.step Op.ClearEdits (.initial 0) t := by
    refine .tail _ hbefore ?_ ht
    rintro scheduleId request asOf owner hop - o ho k hk
    cases hop
    have hle := of_decide_eq_true (List.all_eq_true.mp hrecorded o ho)
    have hmono := bindTimestamp_mono hk.le
    have hfresh : seconds 120 < bindTimestamp (seconds 150) := by decide
    exact hle.trans_lt (hfresh.trans_le hmono)
  refine ⟨t, hrun, row, Table.mem_of_get? hget, hpriority, hsome, ?_⟩
  exact (cursor_ahead_of_clear_edits hrun).1 row (Table.mem_of_get? hget)

/-- The schedule is created, an editor reads the clock, the due slots are recorded, and the UPDATE
of the editor takes the cursor back; every later call at this time fails. -/
def staleEditOps : List Op :=
  [.createSchedule sampleSchedule, .tick (seconds 30), .readClock, .tick (seconds 90), .readClock,
    .materialize (seconds 90) [], .updateSchedule scheduleOne sampleEdit (seconds 30) none]

theorem stale_edit_takes_cursor_back : ∃ s : System, s.Reachable ∧
    (∃ row ∈ s.db.schedules, ∃ o ∈ s.db.occurrencesOf row.id, row.nextRunAt ≤ o.scheduledFor) ∧
    ∃ asOf ∈ s.reads, (materializeNextScheduleAt asOf [] s.now s.db).1 =
      .error (.database "schedule_occurrences_slot_unique") := by
  have hexec : (exec System.step (.initial 0) staleEditOps).any (fun s =>
      (s.db.schedules.rows.any fun row => (s.db.occurrencesOf row.id).any fun o =>
        decide (row.nextRunAt ≤ o.scheduledFor)) &&
      s.reads.any fun asOf =>
        match (materializeNextScheduleAt asOf [] s.now s.db).1 with
        | .error e => e == .database "schedule_occurrences_slot_unique"
        | .ok _ => false) = true := by
    decide +kernel
  obtain ⟨s, hs, hfacts⟩ := (Option.any_eq_true _ _).mp hexec
  rw [Bool.and_eq_true] at hfacts
  obtain ⟨hbehind, hfails⟩ := hfacts
  obtain ⟨row, hrow, hrecorded⟩ := List.any_eq_true.mp hbehind
  obtain ⟨o, ho, hle⟩ := List.any_eq_true.mp hrecorded
  obtain ⟨asOf, hread, herror⟩ := List.any_eq_true.mp hfails
  refine ⟨s, reachable_of_exec hs, ⟨row, hrow, o, ho, of_decide_eq_true hle⟩, asOf, hread, ?_⟩
  split at herror
  · rename_i e he
    rw [he, beq_iff_eq.mp herror]
  · cases herror

end TaskHarbor
