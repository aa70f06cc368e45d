import TaskHarbor.Lifecycle.Readback
import TaskHarbor.System.Manifest

/-! A terminal job stays as it is, and a cancel that was answered stands. A cancel request is an
UPDATE and a read after it, so other steps may come between the two. -/
namespace TaskHarbor

open Relational Transaction Runs

section Runs

variable {ok : System → Op → Prop} {s t : System} {r : JobRow}

/-- A terminal job keeps its row, up to the expiry of its outputs, and its attempts. -/
theorem terminal_run (hinv : s.Inv) (hr : s.db.jobs.get? r.id = some r)
    (hterminal : r.state.isTerminal = true) (hrun : Run System.step ok s t) :
    (∃ e, t.db.jobs.get? r.id = some { r with outputsExpiredAt := e }) ∧
      t.db.attemptsOf r.id = s.db.attemptsOf r.id := by
  induction hrun with
  | refl => exact ⟨⟨r.outputsExpiredAt, hr⟩, rfl⟩
  | tail op hrun _ hstep ih =>
    obtain ⟨⟨e, he⟩, hattempts⟩ := ih
    have hmid := hinv.run hrun
    obtain ⟨⟨e', he'⟩, hattempts'⟩ := ((System.step_db hmid hstep).turns r.id).terminal
      (hmid.db.lifecycle r.id) he hterminal
    exact ⟨⟨e', he'⟩, hattempts'.trans hattempts⟩

/-- A cancelling job stays cancelling. -/
theorem cancelling_run {id : ℕ} (hinv : s.Inv)
    (hr : ∃ r, s.db.jobs.get? id = some r ∧ r.state.isCancelling = true)
    (hrun : Run System.step ok s t) :
    ∃ r, t.db.jobs.get? id = some r ∧ r.state.isCancelling = true := by
  induction hrun with
  | refl => exact hr
  | tail op hrun _ hstep ih =>
    obtain ⟨r, hr, hc⟩ := ih
    exact ((System.step_db (hinv.run hrun) hstep).turns id).cancelling hr hc

/-- A cancelling job has no outputs. -/
theorem cancelling_outputs {id : ℕ} (hinv : s.Inv) (hr : s.db.jobs.get? id = some r)
    (hc : r.state.isCancelling = true) : s.db.artifactsOf id .output = [] := by
  refine (hinv.db.manifest id).unpublished r hr fun hshow => ?_
  rw [hshow.1] at hc
  cases hc

end Runs

/-! ### The two statements of a cancel request -/

/-- The row that a caller sees under an id. -/
def Db.sees (db : Db) (id : JobId) (owner : Option ℕ) : Option JobRow :=
  (db.jobs.get? id.get).filter (ownedBy owner)

/-- The answer of a cancel request whose UPDATE runs in `s` and whose read runs in `t`. -/
def System.cancelAnswer (s t : System) (id : JobId) (owner : Option ℕ) :
    Except RepositoryError (Option JobRecord) :=
  requestCancelReply id owner (s.db.jobs.count (JobRow.cancellable id.get owner)) t.db

section Request

variable {s t : System} {id : JobId} {owner : Option ℕ}

/-- Without steps in between this is the answer of the whole call. -/
theorem requestCancel_answer (s : System) (id : JobId) (owner : Option ℕ) :
    (requestCancel id owner s.now s.db).1 =
      s.cancelAnswer (s.apply (.requestCancel id owner)) id owner := rfl

theorem requestCancel_cases (s : System) (id : JobId) (owner : Option ℕ) :
    (s.db.jobs.count (JobRow.cancellable id.get owner) = 0 ∧
      (s.apply (.requestCancel id owner)).db = s.db ∧
      ∀ r, s.db.sees id owner = some r → r.state.isCancellable = false) ∨
    (s.db.jobs.count (JobRow.cancellable id.get owner) = 1 ∧
      ∃ r, s.db.sees id owner = some r ∧ r.state.isCancellable = true ∧
        (s.apply (.requestCancel id owner)).db = s.db.setJob (r.cancelRequested s.now)) := by
  have hdb : (s.apply (.requestCancel id owner)).db = { s.db with
      jobs := s.db.jobs.update (JobRow.cancellable id.get owner)
        (JobRow.cancelRequested s.now) (fun _ => rfl) } := rfl
  have hpin : ∀ r, JobRow.cancellable id.get owner r = true → r.id = id.get :=
    fun r hr => (JobRow.cancellable_iff.mp hr).1
  rw [hdb]
  rcases Table.update_cases (t := s.db.jobs) (JobRow.cancelRequested s.now) (fun _ => rfl)
    hpin with ⟨hcount, hsame, hnone⟩ | ⟨hcount, r, hr, hc, hput⟩
  · refine Or.inl ⟨hcount, by rw [hsame], fun r hr => ?_⟩
    obtain ⟨hget, howner⟩ := Option.filter_eq_some_iff.mp hr
    have hid : r.id = id.get := Table.key_of_get? hget
    by_contra hstate
    have hcancellable : r.cancellable id.get owner = true :=
      JobRow.cancellable_iff.mpr ⟨hid, howner, by simpa using hstate⟩
    rw [hnone r hget] at hcancellable
    cases hcancellable
  · obtain ⟨-, howner, hstate⟩ := JobRow.cancellable_iff.mp hc
    exact Or.inr ⟨hcount, r, Option.filter_eq_some_iff.mpr ⟨hr, howner⟩, hstate, by rw [hput]; rfl⟩

/-- After its UPDATE touched a row, the job is cancelling. -/
theorem requestCancel_cancelling {r : JobRow} (hr : s.db.sees id owner = some r)
    (hc : r.state.isCancellable = true)
    (hdb : (s.apply (.requestCancel id owner)).db = s.db.setJob (r.cancelRequested s.now)) :
    ∃ r', (s.apply (.requestCancel id owner)).db.jobs.get? id.get = some r' ∧
      r'.state.isCancelling = true := by
  obtain ⟨hget, -⟩ := Option.filter_eq_some_iff.mp hr
  have hid : r.id = id.get := Table.key_of_get? hget
  refine ⟨r.cancelRequested s.now, ?_, ?_⟩
  · rw [hdb]
    exact Table.get?_put_self hget hid
  · unfold JobRow.cancelRequested
    cases hs : r.state <;> simp_all [JobStatus.isCancellable, JobStatus.isCancelling]

theorem System.step_requestCancel (s : System) (id : JobId) (owner : Option ℕ) :
    s.step (.requestCancel id owner) = some (s.apply (.requestCancel id owner)) := if_pos rfl

/-- An answer with a record comes after an UPDATE that touched the job. -/
theorem cancelAnswer_some {record : JobRecord} (hs : s.Inv)
    (hrun : Run System.step Always (s.apply (.requestCancel id owner)) t)
    (h : s.cancelAnswer t id owner = .ok (some record)) :
    ∃ r, t.db.jobs.get? id.get = some r ∧ r.state.isCancelling = true := by
  rcases requestCancel_cases s id owner with ⟨hcount, -, -⟩ | ⟨-, r, hr, hc, hdb⟩
  · rw [System.cancelAnswer, hcount, requestCancelReply, if_pos rfl] at h
    obtain ⟨found, -, hrest⟩ := except_bind_ok.mp h
    split at hrest <;> cases hrest
  · have hmid := hs.step (System.step_requestCancel s id owner)
    exact cancelling_run hmid (requestCancel_cancelling hr hc hdb) hrun

/-- When a cancel request answers with a conflict. -/
theorem cancelAnswer_conflict (hs : s.Inv)
    (hrun : Run System.step Always (s.apply (.requestCancel id owner)) t) :
    s.cancelAnswer t id owner = .error (.stateConflict "cancel terminal job") ↔
      (∃ r, s.db.sees id owner = some r ∧ (r.state = .succeeded ∨ r.state = .failed)) ∨
      (s.db.sees id owner = none ∧ (t.db.sees id owner).isSome = true) := by
  have hmid := hs.step (System.step_requestCancel s id owner)
  have ht := hmid.run hrun
  have hread := getWithOwner_cases ht.db id owner
  unfold System.cancelAnswer requestCancelReply
  rcases requestCancel_cases s id owner with ⟨hcount, hdb, hnone⟩ | ⟨hcount, r, hr, hc, -⟩
  · rw [hcount, if_pos rfl]
    rcases hread with ⟨r', record, hget, howner, hfound⟩ | ⟨hunseen, hfound⟩
    · have hsees : t.db.sees id owner = some r' := Option.filter_eq_some_iff.mpr ⟨hget, howner⟩
      rw [hfound]
      refine ⟨fun _ => ?_, fun _ => rfl⟩
      cases hr : s.db.sees id owner with
      | none => exact Or.inr ⟨rfl, by rw [hsees]; rfl⟩
      | some r =>
        have hstate := hnone r hr
        refine Or.inl ⟨r, rfl, ?_⟩
        cases hs : r.state <;> simp_all [JobStatus.isCancellable]
    · have hsees : t.db.sees id owner = none := by
        rw [Db.sees, Option.filter_eq_none_iff]
        intro r hr
        simp [hunseen r hr]
      rw [hfound]
      refine ⟨fun h => ?_, ?_⟩
      · cases h
      · rintro (⟨r, hr, hstate⟩ | ⟨-, hsome⟩)
        · obtain ⟨hget, howner⟩ := Option.filter_eq_some_iff.mp hr
          have hid : r.id = id.get := Table.key_of_get? hget
          have hterminal : r.state.isTerminal = true := by
            rcases hstate with hstate | hstate <;> rw [hstate] <;> rfl
          rw [← hdb, ← hid] at hget
          obtain ⟨⟨e, he⟩, -⟩ := terminal_run hmid hget hterminal hrun
          rw [← hid] at hunseen
          have hstill : ownedBy owner r = false := hunseen { r with outputsExpiredAt := e } he
          rw [howner] at hstill
          cases hstill
        · rw [hsees] at hsome
          cases hsome
  · rw [hcount, if_neg (by decide)]
    refine ⟨fun h => ?_, ?_⟩
    · rcases hread with ⟨_, _, -, -, hfound⟩ | ⟨-, hfound⟩
      · rw [hfound] at h
        cases h
      · rw [hfound] at h
        cases h
    · rintro (⟨r', hr', hstate⟩ | ⟨hunseen, -⟩)
      · obtain rfl : r = r' := Option.some.inj (hr.symm.trans hr')
        rcases hstate with hstate | hstate
        · rw [hstate] at hc
          cases hc
        · rw [hstate] at hc
          cases hc
      · rw [hunseen] at hr
        cases hr

/-- Asking again changes nothing. -/
theorem requestCancel_again {r : JobRow} (hs : s.Inv) (hr : s.db.jobs.get? id.get = some r)
    (hc : r.state.isCancelling = true) : (s.apply (.requestCancel id owner)).db = s.db := by
  rcases requestCancel_cases s id owner with ⟨-, hdb, -⟩ | ⟨-, r', hr', -, hdb⟩
  · exact hdb
  · obtain ⟨hget, -⟩ := Option.filter_eq_some_iff.mp hr'
    obtain rfl : r = r' := Option.some.inj (hr.symm.trans hget)
    have hstate : r.state = .cancelRequested ∨ r.state = .cancelled := by
      cases hs : r.state <;> simp_all [JobStatus.isCancelling]
    have hasked := ((hs.db.lifecycle id.get).course r hr).asked hstate
    rw [hdb, JobRow.cancelRequested_of_cancelled hstate hasked, Db.setJob,
      Table.put_mem (Table.mem_of_get? hr)]

end Request

/-- One terminal winner and no lost cancel. -/
theorem one_terminal_winner {s : System} (hs : s.Reachable) :
    (∀ r ∈ s.db.jobs, r.state.isTerminal = true → ∀ t, Run System.step Always s t →
      (∃ e, t.db.jobs.get? r.id = some { r with outputsExpiredAt := e }) ∧
        t.db.attemptsOf r.id = s.db.attemptsOf r.id) ∧
    ∀ id owner t, Run System.step Always (s.apply (.requestCancel id owner)) t →
      (∀ record, s.cancelAnswer t id owner = .ok (some record) → ∀ u, Run System.step Always t u →
        ∃ r r', t.db.jobs.get? id.get = some r ∧ u.db.jobs.get? id.get = some r' ∧
          (r.state = .cancelRequested ∧ (r'.state = .cancelRequested ∨ r'.state = .cancelled) ∨
            r.state = .cancelled ∧ r'.state = .cancelled) ∧
          u.db.artifactsOf id.get .output = []) ∧
      (s.cancelAnswer t id owner = .error (.stateConflict "cancel terminal job") ↔
        (∃ r, s.db.sees id owner = some r ∧ (r.state = .succeeded ∨ r.state = .failed)) ∨
        (s.db.sees id owner = none ∧ (t.db.sees id owner).isSome = true)) ∧
      (∀ r, s.db.jobs.get? id.get = some r →
        (r.state = .cancelRequested ∨ r.state = .cancelled) →
          (s.apply (.requestCancel id owner)).db = s.db) := by
  have hinv := hs.inv
  refine ⟨fun r hr hterminal t hrun => terminal_run hinv (Table.get?_key hr) hterminal hrun, ?_⟩
  intro id owner t hrun
  have ht := (hinv.step (System.step_requestCancel s id owner)).run hrun
  refine ⟨?_, cancelAnswer_conflict hinv hrun, ?_⟩
  · intro record hanswer u hlater
    obtain ⟨r, hr, hc⟩ := cancelAnswer_some hinv hrun hanswer
    obtain ⟨r', hr', hc'⟩ := cancelling_run ht ⟨r, hr, hc⟩ hlater
    refine ⟨r, r', hr, hr', ?_, cancelling_outputs (ht.run hlater) hr' hc'⟩
    cases hstate : r.state with
    | cancelRequested =>
      left
      refine ⟨rfl, ?_⟩
      cases hstate' : r'.state <;> simp_all [JobStatus.isCancelling]
    | cancelled =>
      have hid : r.id = id.get := Table.key_of_get? hr
      rw [← hid] at hr hr'
      obtain ⟨⟨e, he⟩, -⟩ := terminal_run ht hr (by rw [hstate]; rfl) hlater
      obtain rfl := Option.some.inj (he.symm.trans hr')
      exact Or.inr ⟨rfl, hstate⟩
    | queued => simp_all [JobStatus.isCancelling]
    | running => simp_all [JobStatus.isCancelling]
    | retryWaiting => simp_all [JobStatus.isCancelling]
    | succeeded => simp_all [JobStatus.isCancelling]
    | failed => simp_all [JobStatus.isCancelling]
  · intro r hr hstate
    refine requestCancel_again hinv hr ?_
    rcases hstate with hstate | hstate <;> rw [hstate] <;> rfl

def jobOne : JobId := ⟨1, by decide, by decide⟩

/-- A running job is asked to stop; its worker then finishes the cancel. -/
theorem one_terminal_winner_cancelled : ∃ s t u : System, s.Reachable ∧
    Run System.step Always (s.apply (.requestCancel jobOne none)) t ∧
    (∃ record, s.cancelAnswer t jobOne none = .ok (some record)) ∧
    Run System.step Always t u ∧
    ∃ r r', t.db.jobs.get? jobOne.get = some r ∧ u.db.jobs.get? jobOne.get = some r' ∧
      r.state = .cancelRequested ∧ r'.state = .cancelled ∧
      (r.state = .cancelRequested ∧ (r'.state = .cancelRequested ∨ r'.state = .cancelled) ∨
        r.state = .cancelled ∧ r'.state = .cancelled) ∧
      u.db.artifactsOf jobOne.get .output = [] := by
  have hrun : (exec System.step (System.initial 0) sampleClaimOps).any (fun s =>
      let t := s.apply (.requestCancel jobOne none)
      (s.cancelAnswer t jobOne none).toOption.any Option.isSome &&
      ((t.db.jobs.get? jobOne.get).any fun r => r.state == .cancelRequested) &&
      s.claims.any fun claimed => (t.step (.finishCancelled claimed 3)).any fun u =>
        (u.db.jobs.get? jobOne.get).any fun r => r.state == .cancelled) = true := by
    decide +kernel
  obtain ⟨s, hexec, hrest⟩ := (Option.any_eq_true _ _).mp hrun
  simp only [Bool.and_eq_true] at hrest
  obtain ⟨⟨hanswer, hasked⟩, hclaims⟩ := hrest
  obtain ⟨claimed, -, hstep⟩ := List.any_eq_true.mp hclaims
  obtain ⟨u, hu, hcancelled⟩ := (Option.any_eq_true _ _).mp hstep
  obtain ⟨q, hq, hq'⟩ := (Option.any_eq_true _ _).mp hasked
  obtain ⟨q', hqu, hqu'⟩ := (Option.any_eq_true _ _).mp hcancelled
  obtain ⟨record, hrecord⟩ : ∃ record,
      s.cancelAnswer (s.apply (.requestCancel jobOne none)) jobOne none = .ok (some record) := by
    obtain ⟨found, hfound, hsome⟩ := except_any_eq_true.mp hanswer
    obtain ⟨record, rfl⟩ := Option.isSome_iff_exists.mp hsome
    exact ⟨record, hfound⟩
  have hs := reachable_of_exec hexec
  have hlast : Run System.step Always (s.apply (.requestCancel jobOne none)) u :=
    .single _ trivial hu
  obtain ⟨r, r', hr, hr', hstates, houtputs⟩ :=
    ((one_terminal_winner hs).2 jobOne none _ (.refl _)).1 record hrecord u hlast
  obtain rfl : q = r := Option.some.inj (hq.symm.trans hr)
  obtain rfl : q' = r' := Option.some.inj (hqu.symm.trans hr')
  exact ⟨s, _, u, hs, .refl _, ⟨record, hrecord⟩, hlast, q, q', hr, hr', by simpa using hq',
    by simpa using hqu', hstates, houtputs⟩

/-- A job created between the two statements is answered as a terminal one. -/
theorem conflict_without_terminal_job : ∃ t : System,
    Run System.step Always ((System.initial 0).apply (.requestCancel jobOne none)) t ∧
    (System.initial 0).cancelAnswer t jobOne none =
      .error (.stateConflict "cancel terminal job") ∧
    ∀ r, (System.initial 0).db.sees jobOne none = some r ∨ t.db.sees jobOne none = some r →
      r.state = .queued := by
  have hrun : (((System.initial 0).apply (.requestCancel jobOne none)).step
      (.create sampleName)).any (fun t =>
        (t.db.sees jobOne none).any fun r => r.state == .queued) = true := by
    decide +kernel
  obtain ⟨t, ht, hsees⟩ := (Option.any_eq_true _ _).mp hrun
  obtain ⟨q, hq, hstate⟩ := (Option.any_eq_true _ _).mp hsees
  have hlast : Run System.step Always
      ((System.initial 0).apply (.requestCancel jobOne none)) t := .single _ trivial ht
  refine ⟨t, hlast, ?_, ?_⟩
  · exact (cancelAnswer_conflict (System.Inv.initial 0) hlast).mpr
      (Or.inr ⟨rfl, by rw [hq]; rfl⟩)
  · rintro r (hr | hr)
    · cases hr
    · obtain rfl : q = r := Option.some.inj (hq.symm.trans hr)
      simpa using hstate

end TaskHarbor
