import TaskHarbor.System.Records
import TaskHarbor.System.Tenure

/-! Workers that stop. A lease comes from a worker that is active, so it ends at most one lease
duration after the stop of its worker, and nothing brings a stopped worker back. -/
namespace TaskHarbor

open Relational Transaction Runs

/-- No lease of the worker ends later. -/
def WorkerRow.leaseHorizon (now : ℤ) (w : WorkerRow) : ℤ :=
  w.stoppedAt.getD now + seconds w.leaseDurationSeconds

/-- Where an attempt row after a step of `s` comes from: it was there, or an active worker has just
got its lease, by a renewal or by a claim. -/
inductive System.Grants (s : System) (op : Op) (a : AttemptRow) : Prop
  | continued (b : AttemptRow) (mem : b ∈ s.db.jobAttempts) (continues : b.Continues a)
  | leased (w : WorkerRow) (active : activeWorker s.db w.id s.now = some w)
      (owner : a.workerId = some w.id)
      (lease : a.leaseExpiresAt = some (s.now + seconds w.leaseDurationSeconds))
      (source : (∃ b ∈ s.db.jobAttempts, b.id = a.id) ∨
        ∃ claimToken locked, op = .claimNext w.id claimToken locked)

/-- Every running attempt has a lease that ends by the horizon of its worker. -/
def System.Leased (s : System) : Prop :=
  ∀ w ∈ s.db.workers, ∀ a ∈ s.db.jobAttempts, a.workerId = some w.id → a.state = .running →
    ∃ e, a.leaseExpiresAt = some e ∧ e ≤ w.leaseHorizon s.now

section Rows

variable {db : Db} {a b c : AttemptRow} {w w' : WorkerRow} {now now' : ℤ} {workerId : Uuid}

theorem AttemptRow.Continues.refl (a : AttemptRow) : a.Continues a :=
  ⟨rfl, rfl, rfl, fun h => h⟩

theorem AttemptRow.Continues.trans (h : a.Continues b) (h' : b.Continues c) : a.Continues c where
  id := h'.id.trans h.id
  workerId := h'.workerId.trans h.workerId
  leaseExpiresAt := h'.leaseExpiresAt.trans h.leaseExpiresAt
  running := fun hc => h.running (h'.running hc)

theorem activeWorker_spec (h : activeWorker db workerId now = some w) :
    w ∈ db.workers ∧ w.id = workerId ∧ w.stoppedAt = none := by
  unfold activeWorker at h
  obtain ⟨hget, hactive⟩ := Option.mem_filter_iff.mp h
  rw [Bool.and_eq_true, Option.isNone_iff_eq_none] at hactive
  exact ⟨Table.mem_of_get? hget, Table.key_of_get? hget, hactive.1⟩

/-- A worker stops with a horizon that it has then, and the horizon does not come closer. -/
theorem WorkerRow.Serves.horizon (h : w.Serves now w') (hle : now ≤ now') :
    w.leaseHorizon now ≤ w'.leaseHorizon now' := by
  unfold WorkerRow.leaseHorizon
  rw [h.leaseDurationSeconds]
  cases hstopped : w.stoppedAt with
  | some x =>
    obtain rfl := h.stopped x hstopped
    simp only [hstopped, Option.getD_some, le_refl]
  | none =>
    rcases h.stops hstopped with hnone | hnow
    · simp only [hnone, Option.getD_none]
      omega
    · simp only [hnow, Option.getD_none, Option.getD_some, le_refl]

end Rows

/-! ### One step -/

section Steps

variable {s t : System} {op : Op} {a : AttemptRow} {w w' : WorkerRow}

theorem System.Grants.of_same (h : t.db.jobAttempts = s.db.jobAttempts)
    (ha : a ∈ t.db.jobAttempts) : s.Grants op a := by
  rw [h] at ha
  exact .continued a ha (.refl a)

theorem System.Grants.of_put {a' : AttemptRow} (h : t.db.jobAttempts = s.db.jobAttempts.put a')
    (ha : a ∈ t.db.jobAttempts) (hnew : s.Grants op a') : s.Grants op a := by
  rw [h] at ha
  rcases Table.mem_put ha with hold | rfl
  · exact .continued a hold (.refl a)
  · exact hnew

/-- Every attempt row of the next state has an origin. -/
theorem System.step_grants (h : s.step op = some t) (ha : a ∈ t.db.jobAttempts) :
    s.Grants op a := by
  cases System.step_attends h with
  | same h => exact .of_same h.attempts ha
  | staffed h => exact .of_same h.attempts ha
  | tended claimed claim h =>
    cases h with
    | same h => exact .of_same h.attempts ha
    | wrote b b' row continues put =>
      exact .of_put put ha (.continued b (Table.mem_of_get? row) continues)
  | renewed claimed claim h =>
    cases h with
    | same h => exact .of_same h.attempts ha
    | wrote b worker row owner active put =>
      obtain ⟨-, hid, -⟩ := activeWorker_spec active
      rw [← hid] at active owner
      refine .of_put put ha (.leased worker active owner ?_ (Or.inl ⟨b, Table.mem_of_get? row, ?_⟩))
      · rfl
      · rfl
  | opened workerId claimToken locked claim h =>
    cases h with
    | same h => exact .of_same h.attempts ha
    | added b worker active owner lease rows =>
      obtain ⟨-, hid, -⟩ := activeWorker_spec active
      rw [← hid] at active owner claim
      rw [Table.mem_def, rows] at ha
      rcases List.mem_append.mp ha with hold | hnew
      · exact .continued a hold (.refl a)
      · obtain rfl := List.mem_singleton.mp hnew
        exact .leased worker active owner lease (Or.inr ⟨claimToken, locked, claim⟩)
  | expired asOf clock h =>
    cases h with
    | same h => exact .of_same h.attempts ha
    | wrote b b' row due continues given put =>
      exact .of_put put ha (.continued b (Table.mem_of_get? row) continues)

theorem Db.Staffs.of_same {db db' : Db} {now : ℤ} (h : db'.workers = db.workers) :
    (∀ w ∈ db.workers, ∃ w' ∈ db'.workers, w.Serves now w') ∧
      ∀ w' ∈ db'.workers, (∃ w ∈ db.workers, w.Serves now w') ∨
        db.workers.get? w'.id = none := by
  rw [h]
  exact ⟨fun w hw => ⟨w, hw, .refl now w⟩, fun w hw => Or.inl ⟨w, hw, .refl now w⟩⟩

/-- Every worker row serves, or it is new. -/
theorem System.step_staffs (h : s.step op = some t) :
    (∀ w ∈ s.db.workers, ∃ w' ∈ t.db.workers, w.Serves s.now w') ∧
      ∀ w' ∈ t.db.workers, (∃ w ∈ s.db.workers, w.Serves s.now w') ∨
        s.db.workers.get? w'.id = none := by
  cases System.step_attends h with
  | same h => exact Db.Staffs.of_same h.workers
  | staffed h => exact ⟨h.kept, h.added⟩
  | tended claimed claim h => exact Db.Staffs.of_same h.workers
  | renewed claimed claim h => exact Db.Staffs.of_same h.workers
  | opened workerId claimToken locked claim h => exact Db.Staffs.of_same h.workers
  | expired asOf clock h => exact Db.Staffs.of_same h.workers

/-- The horizons keep bounding the leases. -/
theorem System.Leased.step (h : s.Leased) (hs : s.Reachable) (hstep : s.step op = some t) :
    t.Leased := by
  intro w' hw' a' ha' howner hrunning
  have hnow := System.step_now hstep
  rcases (System.step_staffs hstep).2 w' hw' with ⟨w, hw, hserves⟩ | hnew
  · rw [hserves.id] at howner
    cases System.step_grants hstep ha' with
    | continued b hb continues =>
      rw [continues.workerId] at howner
      obtain ⟨e, he, hle⟩ := h w hw b hb howner (continues.running hrunning)
      exact ⟨e, continues.leaseExpiresAt.trans he, hle.trans (hserves.horizon hnow)⟩
    | leased w₀ active owner lease =>
      obtain ⟨hw₀, -, hnone⟩ := activeWorker_spec active
      have hid : w₀.id = w.id := Option.some.inj (owner.symm.trans howner)
      obtain rfl : w₀ = w := Table.key_inj hw₀ hw hid
      refine ⟨_, lease, ?_⟩
      have hhorizon := hserves.horizon hnow
      unfold WorkerRow.leaseHorizon at hhorizon
      rw [hnone] at hhorizon
      exact hhorizon
  · have hemployed := hs.employed
    cases System.step_grants hstep ha' with
    | continued b hb continues =>
      rw [continues.workerId] at howner
      have hknown := hemployed b hb w'.id howner
      rw [hnew] at hknown
      cases hknown
    | leased w₀ active owner lease =>
      obtain ⟨hw₀, -, -⟩ := activeWorker_spec active
      have hid : w₀.id = w'.id := Option.some.inj (owner.symm.trans howner)
      have hknown : s.db.workers.get? w₀.id = some w₀ := Table.get?_key hw₀
      rw [hid, hnew] at hknown
      cases hknown

/-- A stopped worker stays as it is, and gets no lease. -/
theorem System.step_stopped {x : ℤ} (hstep : s.step op = some t) (hw : w ∈ s.db.workers)
    (hstopped : w.stoppedAt = some x) : w ∈ t.db.workers ∧ ∀ a ∈ t.db.jobAttempts,
      a.workerId = some w.id → ∃ b ∈ s.db.jobAttempts, b.Continues a := by
  constructor
  · obtain ⟨w', hw', hserves⟩ := (System.step_staffs hstep).1 w hw
    rw [hserves.stopped x hstopped] at hw'
    exact hw'
  · intro a ha howner
    cases System.step_grants hstep ha with
    | continued b hb continues => exact ⟨b, hb, continues⟩
    | leased w₀ active owner lease =>
      obtain ⟨hw₀, -, hnone⟩ := activeWorker_spec active
      have hid : w₀.id = w.id := Option.some.inj (owner.symm.trans howner)
      obtain rfl : w₀ = w := Table.key_inj hw₀ hw hid
      rw [hstopped] at hnone
      cases hnone

end Steps

/-! ### Runs -/

section Runs

variable {s t : System} {w : WorkerRow} {x : ℤ}

theorem System.Reachable.leased (hs : s.Reachable) : s.Leased := by
  obtain ⟨start, hrun⟩ := hs
  have hall : s.Reachable ∧ s.Leased := by
    refine hrun.invariant (P := fun s => s.Reachable ∧ s.Leased) ?_
      ⟨⟨start, .refl _⟩, fun w hw => absurd hw (Table.not_mem_empty w)⟩
    rintro s op t ⟨hs, hleased⟩ hok hstep
    exact ⟨hs.run (.single op hok hstep), hleased.step hs hstep⟩
  exact hall.2

theorem System.run_stopped (hrun : Run System.step Always s t) (hw : w ∈ s.db.workers)
    (hstopped : w.stoppedAt = some x) : w ∈ t.db.workers ∧ ∀ a ∈ t.db.jobAttempts,
      a.workerId = some w.id → ∃ b ∈ s.db.jobAttempts, b.Continues a := by
  induction hrun with
  | refl => exact ⟨hw, fun a ha _ => ⟨a, ha, .refl a⟩⟩
  | tail op hrun _ hstep ih =>
    obtain ⟨hmid, horigin⟩ := ih
    obtain ⟨hafter, hcontinues⟩ := System.step_stopped hstep hmid hstopped
    refine ⟨hafter, fun a ha howner => ?_⟩
    obtain ⟨b, hb, hba⟩ := hcontinues a ha howner
    obtain ⟨c, hc, hcb⟩ := horigin b hb (hba.workerId.symm.trans howner)
    exact ⟨c, hc, hcb.trans hba⟩

end Runs

/-- A stopped worker winds down: its row never changes again, each attempt of it was there when it
had stopped and keeps its lease, and no attempt of it runs on a lease that ends later than one lease
duration after the stop, so from then on its claims hold for no attempt. -/
theorem stopped_worker_winds_down {s t : System} {w : WorkerRow} {x : ℤ} (hs : s.Reachable)
    (hw : w ∈ s.db.workers) (hstopped : w.stoppedAt = some x)
    (hrun : Run System.step Always s t) :
    w ∈ t.db.workers ∧ ∀ a ∈ t.db.jobAttempts, a.workerId = some w.id →
      (∃ b ∈ s.db.jobAttempts, b.Continues a) ∧
      (a.state = .running →
        ∃ e, a.leaseExpiresAt = some e ∧ e ≤ x + seconds w.leaseDurationSeconds) ∧
      (x + seconds w.leaseDurationSeconds ≤ t.now →
        ∀ claimed : ClaimedJob, claimed.fences t.now a = false) := by
  obtain ⟨hafter, hcontinues⟩ := System.run_stopped hrun hw hstopped
  refine ⟨hafter, fun a ha howner => ⟨hcontinues a ha howner, ?_⟩⟩
  have hlease : a.state = .running →
      ∃ e, a.leaseExpiresAt = some e ∧ e ≤ x + seconds w.leaseDurationSeconds := by
    intro hrunning
    have hle := (hs.run hrun).leased w hafter a ha howner hrunning
    unfold WorkerRow.leaseHorizon at hle
    rw [hstopped] at hle
    exact hle
  refine ⟨hlease, fun hover claimed => ?_⟩
  rw [Bool.eq_false_iff]
  intro hfences
  obtain ⟨-, -, hrunning, -, -, hafter⟩ := ClaimedJob.fences_iff.mp hfences
  obtain ⟨e, he, hle⟩ := hlease hrunning
  unfold AttemptRow.leaseAfter at hafter
  rw [he, Option.any_some, decide_eq_true_eq] at hafter
  omega

/-- Worker 7 stops in the middle of its attempt. -/
theorem stopped_worker_winds_down_seven : ∃ s : System, s.Reachable ∧
    (∃ a ∈ s.db.jobAttempts, a.workerId = some 7 ∧ a.state = .running) ∧
    ∃ w ∈ s.db.workers, w.id = 7 ∧ ∀ t, Run System.step Always s t → w ∈ t.db.workers := by
  have hrun :
      (exec System.step (System.initial 0) (sampleClaimOps ++ [.stopWorker 7])).any (fun s =>
      (s.db.jobAttempts.rows.any fun a => a.workerId == some 7 && a.state == .running) &&
        s.db.workers.rows.any fun w => w.id == 7 && w.stoppedAt == some 0) = true := by
    decide +kernel
  obtain ⟨s, hexec, hboth⟩ := (Option.any_eq_true _ _).mp hrun
  rw [Bool.and_eq_true, List.any_eq_true, List.any_eq_true] at hboth
  obtain ⟨⟨a, ha, hattempt⟩, w, hw, hworker⟩ := hboth
  rw [Bool.and_eq_true, beq_iff_eq, beq_iff_eq] at hattempt hworker
  refine ⟨s, reachable_of_exec hexec, ⟨a, ha, hattempt⟩, w, hw, hworker.1, fun t hrun => ?_⟩
  exact (stopped_worker_winds_down (reachable_of_exec hexec) hw hworker.2 hrun).1

end TaskHarbor
