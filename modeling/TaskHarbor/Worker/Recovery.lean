import TaskHarbor.System.Recovery
import TaskHarbor.Worker.Fleet

/-! `reclaim_expired_attempts`: the loop that closes the attempts of dead workers and removes what
they left. It reads the clock before every reclaim, and leases go on ending while it works. -/
namespace TaskHarbor

open Interleaving Relational Transaction Runs

/-! ### The loop -/

inductive RecoveryRequest where
  | databaseNow
  | reclaimNextExpiredAttemptAt (asOf : ℤ)
  | removeTree (key : String)

def RecoveryRequest.Reply : RecoveryRequest → Type
  | databaseNow => Except RepositoryError ℤ
  | reclaimNextExpiredAttemptAt _ => Except RepositoryError (Option ReclaimedAttempt)
  | removeTree _ => Except StorageError Unit

abbrev Recovery (α : Type) :=
  ExceptT RepositoryError (Program RecoveryRequest RecoveryRequest.Reply) α

/-- `reclaim_next_expired_attempt`. -/
def reclaimNextExpiredAttempt : Recovery (Option ReclaimedAttempt) := do
  let asOf ← ExceptT.mk (.perform RecoveryRequest.databaseNow)
  ExceptT.mk (.perform (RecoveryRequest.reclaimNextExpiredAttemptAt asOf))

/-- `reclaim_expired_attempts` with the attempts that it logs; `none` when `fuel` runs out. A
removal that fails is logged only. -/
def reclaimExpiredAttempts : ℕ → Recovery (Option (List ReclaimedAttempt))
  | 0 => return none
  | fuel + 1 => do
      match ← reclaimNextExpiredAttempt with
      | none => return some []
      | some reclaimed => do
          let _ ← ExceptT.lift (.perform (RecoveryRequest.removeTree
            (attemptOutputPrefix reclaimed.jobId.get reclaimed.attemptId)))
          let later ← reclaimExpiredAttempts fuel
          return later.map fun answers => reclaimed :: answers

/-! ### Its calls -/

/-- Time passes. -/
inductive Passes (w : World) : World → Prop
  | tick (now : ℤ) (later : w.system.now ≤ now) (dated : now ≤ maxTimestamp) :
      Passes w { w with system := { w.system with now } }

def Passing : World → World → Prop := Relation.ReflTransGen Passes

/-- What each call may answer and change. -/
def Recovers (faulty : Bool) (w : World) : (q : RecoveryRequest) → q.Reply → World → Prop
  | .databaseNow, r, w' => Commits .readClock (fun db => (.ok w.system.now, db)) w r w'
  | .reclaimNextExpiredAttemptAt asOf, r, w' =>
      Commits (.reclaim asOf []) (reclaimNextExpiredAttemptAt asOf []) w r w'
  | .removeTree key, r, w' => ∃ st, Removal faulty key w.storage r st ∧
      w' = { w with storage := st }

/-! ### What it has done -/

/-- From `v` to `w` the attempts of `log` were reclaimed, in this order, and nothing else changed
but files of theirs. -/
structure Recovering (v w : World) (log : List (AttemptRow × ReclaimedAttempt)) : Prop where
  reachable : w.system.Reachable
  later : v.system.now ≤ w.system.now ∧ w.system.now ≤ maxTimestamp
  reclaimed : ∀ p ∈ log, p.1 ∈ v.system.db.running ∧ p.2.Tells p.1 ∧
    ∃ t, v.system.now ≤ t ∧ t ≤ w.system.now ∧
      v.system.db.Recovered t p.1 p.2.disposition w.system.db
  running : (log.map Prod.fst ++ w.system.db.running).Perm v.system.db.running
  ordered : (log.map Prod.fst).Pairwise fun a b => a.leaseKey ≤ b.leaseKey
  ahead : ∀ p ∈ log, ∀ b ∈ w.system.db.running, p.1.leaseKey ≤ b.leaseKey
  attempts : ∀ id, (∀ p ∈ log, p.1.id ≠ id) →
    w.system.db.jobAttempts.get? id = v.system.db.jobAttempts.get? id
  jobs : ∀ id, (∀ p ∈ log, p.1.jobId ≠ id) →
    w.system.db.jobs.get? id = v.system.db.jobs.get? id
  rest : w.system.db = { v.system.db with
    jobs := w.system.db.jobs, jobAttempts := w.system.db.jobAttempts }
  files : ∀ path, (∀ p ∈ log, ¬attemptPath p.1.jobId p.1.id <+: path) →
    w.storage.read? path = v.storage.read? path

/-- Nothing is left of the files of these attempts. -/
def Emptied (log : List (AttemptRow × ReclaimedAttempt)) (w : World) : Prop :=
  ∀ p ∈ log, ∀ path, attemptPath p.1.jobId p.1.id <+: path → w.storage.read? path = none

section Recovering

variable {v w w' : World} {log : List (AttemptRow × ReclaimedAttempt)} {a : AttemptRow}
  {answer : ReclaimedAttempt} {t : ℤ}

theorem running_nodup (db : Db) : db.running.Nodup :=
  (List.Nodup.of_map Keyed.key db.jobAttempts.nodup).filter _

theorem Recovering.refl (hv : v.system.Reachable) (hmax : v.system.now ≤ maxTimestamp) :
    Recovering v v [] where
  reachable := hv
  later := ⟨le_rfl, hmax⟩
  reclaimed := fun _ hp => absurd hp List.not_mem_nil
  running := List.Perm.refl _
  ordered := List.Pairwise.nil
  ahead := fun _ hp => absurd hp List.not_mem_nil
  attempts := fun _ _ => rfl
  jobs := fun _ _ => rfl
  rest := rfl
  files := fun _ _ => rfl

/-- The clock may go on. -/
theorem Recovering.clock (h : Recovering v w log) (hreachable : w'.system.Reachable)
    (hlater : w.system.now ≤ w'.system.now) (hmax : w'.system.now ≤ maxTimestamp)
    (hdb : w'.system.db = w.system.db) (hstorage : w'.storage = w.storage) :
    Recovering v w' log where
  reachable := hreachable
  later := ⟨h.later.1.trans hlater, hmax⟩
  reclaimed := by
    intro p hp
    obtain ⟨hrunning, htells, t, hfrom, hto, hrecovered⟩ := h.reclaimed p hp
    rw [hdb]
    exact ⟨hrunning, htells, t, hfrom, hto.trans hlater, hrecovered⟩
  running := by rw [hdb]; exact h.running
  ordered := h.ordered
  ahead := by rw [hdb]; exact h.ahead
  attempts := by rw [hdb]; exact h.attempts
  jobs := by rw [hdb]; exact h.jobs
  rest := by rw [hdb]; exact h.rest
  files := by rw [hstorage]; exact h.files

/-- Files of a reclaimed attempt may go. -/
theorem Recovering.remove (h : Recovering v w log) {p : AttemptRow × ReclaimedAttempt}
    (hp : p ∈ log) {st : Storage}
    (houtside : SameOutside (attemptPath p.1.jobId p.1.id) w.storage st) :
    Recovering v { w with storage := st } log where
  reachable := h.reachable
  later := h.later
  reclaimed := h.reclaimed
  running := h.running
  ordered := h.ordered
  ahead := h.ahead
  attempts := h.attempts
  jobs := h.jobs
  rest := h.rest
  files := fun path hpath => (houtside.read? (hpath p hp)).trans (h.files path hpath)

/-- An attempt that is about to be reclaimed shares neither id nor job with those before it. -/
theorem Recovering.apart (h : Recovering v w log) (hv : v.system.db.Inv)
    (ha : a ∈ w.system.db.running) {p : AttemptRow × ReclaimedAttempt} (hp : p ∈ log) :
    p.1.id ≠ a.id ∧ p.1.jobId ≠ a.jobId := by
  have hold : p.1 ∈ log.map Prod.fst := List.mem_map_of_mem hp
  have hnodup := h.running.nodup_iff.mpr (running_nodup v.system.db)
  have hne : p.1 ≠ a := fun heq =>
    List.disjoint_of_nodup_append hnodup hold (heq ▸ ha)
  have hpv : p.1 ∈ v.system.db.running := h.running.subset (List.mem_append_left _ hold)
  have hav : a ∈ v.system.db.running := h.running.subset (List.mem_append_right _ ha)
  refine ⟨fun hid => hne ?_, fun hjob => hne (hv.running_unique hpv hav hjob)⟩
  exact Table.key_inj (mem_running.mp hpv).1 (mem_running.mp hav).1 hid

theorem Db.Recovered.keep {db db₁ db₂ : Db} {d : ReclaimDisposition}
    (h : db.Recovered t a d db₁) (hjob : db₂.jobs.get? a.jobId = db₁.jobs.get? a.jobId)
    (hattempt : db₂.jobAttempts.get? a.id = db₁.jobAttempts.get? a.id) :
    db.Recovered t a d db₂ := by
  obtain ⟨r, r', ms, hr, hdisposed, hid, hms, hr', ha'⟩ := h.rows
  exact ⟨h.due, r, r', ms, hr, hdisposed, hid, hms, hjob.trans hr', hattempt.trans ha'⟩

/-- One more attempt is reclaimed. -/
theorem Recovering.reclaim (h : Recovering v w log) (hv : v.system.db.Inv)
    (hreachable : w'.system.Reachable) (hstorage : w'.storage = w.storage)
    (hnow : w'.system.now = w.system.now) (hfrom : v.system.now ≤ t) (hto : t ≤ w.system.now)
    (hr : Reclaims w.system.db t a answer w'.system.db) :
    Recovering v w' (log ++ [(a, answer)]) := by
  have hav : a ∈ v.system.db.running := h.running.subset (List.mem_append_right _ hr.running)
  obtain ⟨a', hid, -, hput⟩ := hr.attempts
  have hother : ∀ id, a.id ≠ id →
      w'.system.db.jobAttempts.get? id = w.system.db.jobAttempts.get? id := by
    intro id hne
    rw [hput]
    exact Table.get?_put_of_ne fun hkey => hne (hid.symm.trans hkey)
  have hjobs : ∀ id, a.jobId ≠ id → w'.system.db.jobs.get? id = w.system.db.jobs.get? id :=
    fun id hne => hr.jobs id fun heq => hne heq.symm
  have hjobv : w.system.db.jobs.get? a.jobId = v.system.db.jobs.get? a.jobId :=
    h.jobs a.jobId fun p hp => (h.apart hv hr.running hp).2
  refine ⟨hreachable, ?_, ?_, ?_, ?_, ?_, ?_, ?_, ?_, ?_⟩
  · rw [hnow]
    exact h.later
  · intro p hp
    rw [hnow]
    rcases List.mem_append.mp hp with hp | hp
    · obtain ⟨hrunning, htells, u, hu, hu', hrecovered⟩ := h.reclaimed p hp
      obtain ⟨hid', hjob'⟩ := h.apart hv hr.running hp
      exact ⟨hrunning, htells, u, hu, hu', hrecovered.keep (hjobs _ hjob'.symm)
        (hother _ hid'.symm)⟩
    · obtain rfl := List.mem_singleton.mp hp
      obtain ⟨r, r', ms, hjob, hdisposed, hrid, hms, hr', ha'⟩ := hr.recovered.rows
      exact ⟨hav, hr.tells, t, hfrom, hto, hr.recovered.due, r, r', ms, hjobv.symm.trans hjob,
        hdisposed, hrid, hms, hr', ha'⟩
  · obtain ⟨l₁, l₂, hbefore, hafter⟩ := hr.run
    have hperm := h.running
    rw [hbefore] at hperm
    rw [List.map_append, List.map_cons, List.map_nil, hafter, List.append_assoc]
    have hmiddle : (a :: (l₁ ++ l₂)).Perm (l₁ ++ a :: l₂) := List.perm_middle.symm
    exact (hmiddle.append_left _).trans hperm
  · rw [List.map_append, List.map_cons, List.map_nil]
    refine List.pairwise_append.mpr ⟨h.ordered, List.pairwise_singleton _ _, ?_⟩
    intro b hb c hc
    obtain ⟨p, hp, rfl⟩ := List.mem_map.mp hb
    rw [List.mem_singleton.mp hc]
    exact h.ahead p hp a hr.running
  · intro p hp b hb
    obtain ⟨l₁, l₂, hbefore, hafter⟩ := hr.run
    have hb' : b ∈ w.system.db.running := by
      rw [hafter] at hb
      rw [hbefore]
      rcases List.mem_append.mp hb with hb | hb
      · exact List.mem_append_left _ hb
      · exact List.mem_append_right _ (List.mem_cons_of_mem _ hb)
    rcases List.mem_append.mp hp with hp | hp
    · exact h.ahead p hp b hb'
    · rw [List.mem_singleton.mp hp]
      exact hr.first b hb'
  · intro id hlog
    rw [hother id (hlog _ (List.mem_append_right _ List.mem_cons_self))]
    exact h.attempts id fun p hp => hlog p (List.mem_append_left _ hp)
  · intro id hlog
    rw [hjobs id (hlog _ (List.mem_append_right _ List.mem_cons_self))]
    exact h.jobs id fun p hp => hlog p (List.mem_append_left _ hp)
  · rw [hr.rest, h.rest]
  · intro path hpath
    rw [hstorage]
    exact h.files path fun p hp => hpath p (List.mem_append_left _ hp)

/-- When none is overdue any more, the attempts reclaimed are those that were overdue. -/
theorem Recovering.overdue (h : Recovering v w log)
    (hover : ∀ p ∈ log, p.1.leaseOver (bindTimestamp t) = true)
    (hnone : w.system.db.overdue (bindTimestamp t) = []) :
    log.map Prod.fst = v.system.db.overdue (bindTimestamp t) := by
  have hrows : ∀ b ∈ v.system.db.running, b ∈ v.system.db.jobAttempts :=
    fun b hb => (mem_running.mp hb).1
  have hlog : ∀ b ∈ log.map Prod.fst, b ∈ v.system.db.running :=
    fun b hb => h.running.subset (List.mem_append_left _ hb)
  have hmem : ∀ b, b ∈ log.map Prod.fst ↔ b ∈ v.system.db.overdue (bindTimestamp t) := by
    intro b
    rw [mem_overdue]
    constructor
    · intro hb
      obtain ⟨p, hp, rfl⟩ := List.mem_map.mp hb
      obtain ⟨hrow, hrunning⟩ := mem_running.mp (hlog _ hb)
      exact ⟨hrow, hrunning, hover p hp⟩
    · rintro ⟨hrow, hrunning, hb⟩
      have hstart : b ∈ v.system.db.running := mem_running.mpr ⟨hrow, hrunning⟩
      rcases List.mem_append.mp (h.running.symm.subset hstart) with hdone | hleft
      · exact hdone
      · obtain ⟨hrow', hrunning'⟩ := mem_running.mp hleft
        have hoverdue : b ∈ w.system.db.overdue (bindTimestamp t) :=
          mem_overdue.mpr ⟨hrow', hrunning', hb⟩
        rw [hnone] at hoverdue
        cases hoverdue
  have hnodup : (log.map Prod.fst).Nodup :=
    List.Nodup.of_append_left (h.running.nodup_iff.mpr (running_nodup v.system.db))
  have hnodup' : (v.system.db.overdue (bindTimestamp t)).Nodup :=
    (Table.sortBy_perm _ _).nodup_iff.mpr
      ((List.Nodup.of_map Keyed.key v.system.db.jobAttempts.nodup).filter _)
  have hperm : (log.map Prod.fst).Perm (v.system.db.overdue (bindTimestamp t)) :=
    (List.perm_ext_iff_of_nodup hnodup hnodup').mpr hmem
  refine List.Perm.eq_of_pairwise ?_ h.ordered (Table.sortBy_pairwise _ _) hperm
  intro b c hb hc hle hle'
  have hc' : c ∈ log.map Prod.fst := (hmem c).mpr hc
  exact leaseKey_inj (hrows b (hlog b hb)) (hrows c (hlog c hc')) (le_antisymm hle hle')

end Recovering

/-! ### What its calls do -/

/-- Why the loop may fail: the database has, or a retry would come after the year 9999. -/
def Excused (e : RepositoryError) : Prop :=
  (∃ message, e = .database message) ∨ e = .invalidData "retry time overflowed"

/-- How `reclaim_next_expired_attempt` ends. -/
def NextEnds (faulty : Bool) (v : World) (log : List (AttemptRow × ReclaimedAttempt)) :
    Except RepositoryError (Option ReclaimedAttempt) → World → Prop
  | .ok none, w => Recovering v w log ∧ (faulty = false → Emptied log w) ∧
      ∃ asOf, v.system.now ≤ asOf ∧ asOf ≤ w.system.now ∧
        log.map Prod.fst = v.system.db.overdue (bindTimestamp asOf)
  | .ok (some answer), w => (faulty = false → Emptied log w) ∧
      ∃ a, Recovering v w (log ++ [(a, answer)])
  | .error e, w => Excused e ∧ ∃ log, Recovering v w log

/-- How the rest of the loop ends. -/
def LoopEnds (faulty : Bool) (v : World) (log : List (AttemptRow × ReclaimedAttempt)) :
    Except RepositoryError (Option (List ReclaimedAttempt)) → World → Prop
  | .ok none, _ => False
  | .ok (some answers), w => ∃ later, answers = later.map Prod.snd ∧
      Recovering v w (log ++ later) ∧ (faulty = false → Emptied (log ++ later) w) ∧
      ∃ asOf, v.system.now ≤ asOf ∧ asOf ≤ w.system.now ∧
        (log ++ later).map Prod.fst = v.system.db.overdue (bindTimestamp asOf)
  | .error e, w => Excused e ∧ ∃ log, Recovering v w log

section Calls

variable {faulty : Bool} {v w w' : World} {log : List (AttemptRow × ReclaimedAttempt)}

theorem Passing.refl (w : World) : Passing w w := Relation.ReflTransGen.refl

theorem Passing.trans (u v w : World) (h : Passing u v) (h' : Passing v w) : Passing u w :=
  Relation.ReflTransGen.trans h h'

theorem tick_step {s : System} {now : ℤ} (h : s.now ≤ now) :
    s.step (.tick now) = some { s with now } :=
  System.step_eq_some.mpr ⟨by simp [Op.enabled, Op.claim, Op.clock, h], rfl⟩

theorem tick_run {s : System} {now : ℤ} (h : s.now ≤ now) :
    Run System.step Always s { s with now } := Run.single _ trivial (tick_step h)

theorem Recovering.pass (h : Recovering v w log) (hpass : Passing w w') :
    Recovering v w' log ∧ w'.system.db = w.system.db ∧ w'.storage = w.storage ∧
      w.system.now ≤ w'.system.now := by
  induction hpass with
  | refl => exact ⟨h, rfl, rfl, le_rfl⟩
  | tail _ hlast ih =>
    obtain ⟨hrecovering, hdb, hstorage, hnow⟩ := ih
    cases hlast with
    | tick now later dated =>
      refine ⟨hrecovering.clock ?_ later dated rfl rfl, hdb, hstorage, hnow.trans later⟩
      exact hrecovering.reachable.run (tick_run later)

theorem Recovering.length (h : Recovering v w log) :
    log.length + w.system.db.running.length = v.system.db.running.length := by
  have hlength := h.running.length_eq
  rwa [List.length_append, List.length_map] at hlength

theorem Emptied.of_storage (h : Emptied log w) (hstorage : w'.storage = w.storage) :
    Emptied log w' := by
  intro p hp path hpath
  rw [hstorage]
  exact h p hp path hpath

/-- The clock reading that a reclaim is about to use. -/
structure Reading (faulty : Bool) (v w : World) (log : List (AttemptRow × ReclaimedAttempt))
    (asOf : ℤ) : Prop where
  recovering : Recovering v w log
  emptied : faulty = false → Emptied log w
  between : v.system.now ≤ asOf ∧ asOf ≤ w.system.now
  due : ∀ p ∈ log, p.1.leaseOver (bindTimestamp asOf) = true

theorem Reading.pass {asOf : ℤ} (h : Reading faulty v w log asOf) (hpass : Passing w w') :
    Reading faulty v w' log asOf := by
  obtain ⟨hrecovering, -, hstorage, hnow⟩ := h.recovering.pass hpass
  exact ⟨hrecovering, fun hf => (h.emptied hf).of_storage hstorage,
    ⟨h.between.1, h.between.2.trans hnow⟩, h.due⟩

/-- How `database_now` ends. -/
def ReadingEnds (faulty : Bool) (v : World) (log : List (AttemptRow × ReclaimedAttempt)) :
    Except RepositoryError ℤ → World → Prop
  | .ok asOf, w => Reading faulty v w log asOf
  | .error e, w => Excused e ∧ ∃ log, Recovering v w log

theorem databaseNow_ends (h : Recovering v w log) (hemptied : faulty = false → Emptied log w)
    {r : Except RepositoryError ℤ} (hr : Recovers faulty w .databaseNow r w') :
    ReadingEnds faulty v log r w' := by
  have hread : ∀ s, w.system.step .readClock = some s →
      Recovering v { w with system := s } log ∧ s.now = w.system.now := by
    intro s hstep
    have hreachable : s.Reachable :=
      h.reachable.run (Run.single _ trivial hstep : Run System.step Always w.system s)
    obtain ⟨-, rfl⟩ := System.step_eq_some.mp hstep
    exact ⟨h.clock hreachable le_rfl h.later.2 rfl rfl, rfl⟩
  cases hr with
  | broken message => exact ⟨Or.inl ⟨message, rfl⟩, log, h⟩
  | unheard s message step => exact ⟨Or.inl ⟨message, rfl⟩, log, (hread s step).1⟩
  | answered s step =>
    obtain ⟨hrecovering, hnow⟩ := hread s step
    refine ⟨hrecovering, fun hf => (hemptied hf).of_storage rfl, ⟨h.later.1, hnow.ge⟩,
      fun p hp => ?_⟩
    obtain ⟨-, -, t, -, hto, hrecovered⟩ := h.reclaimed p hp
    exact leaseOver_mono hrecovered.due (bindTimestamp_mono hto)

theorem reclaim_ends (hv : v.system.Reachable) (hdated : v.system.db.Dated)
    (hmin : minTimestamp ≤ v.system.now) {asOf : ℤ} (h : Reading faulty v w log asOf)
    {r : Except RepositoryError (Option ReclaimedAttempt)}
    (hr : Recovers faulty w (.reclaimNextExpiredAttemptAt asOf) r w') :
    NextEnds faulty v log r w' := by
  have hinv := h.recovering.reachable.inv.db
  have hcall := reclaim_cases (t := asOf) hinv
  -- What the call has done when it committed, whether or not its answer arrived.
  have hdone : ∀ s, w.system.step (.reclaim asOf []) = some s →
      NextEnds faulty v log (reclaimNextExpiredAttemptAt asOf [] w.system.db).1
        { w with system := s } := by
    intro s hstep
    have hreachable : s.Reachable :=
      h.recovering.reachable.run (Run.single _ trivial hstep : Run System.step Always w.system s)
    obtain ⟨-, rfl⟩ := System.step_eq_some.mp hstep
    have hafter : (w.system.apply (.reclaim asOf [])).db =
        (reclaimNextExpiredAttemptAt asOf [] w.system.db).2 := rfl
    have hsame : (reclaimNextExpiredAttemptAt asOf [] w.system.db).2 = w.system.db →
        Recovering v { w with system := w.system.apply (.reclaim asOf []) } log :=
      fun hdb => h.recovering.clock hreachable le_rfl h.recovering.later.2 (hafter.trans hdb) rfl
    rcases hcall with ⟨hnone, hanswer⟩ | ⟨a, answer, db', hreclaims, hanswer⟩ | ⟨e, htx, hanswer⟩
    · rw [hanswer]
      refine ⟨hsame (by rw [hanswer]), fun hf => (h.emptied hf).of_storage rfl, asOf, h.between.1,
        h.between.2, ?_⟩
      exact h.recovering.overdue h.due hnone
    · rw [hanswer] at hafter ⊢
      refine ⟨fun hf => (h.emptied hf).of_storage rfl, a,
        h.recovering.reclaim hv.inv.db hreachable rfl rfl h.between.1 h.between.2 ?_⟩
      rw [hafter]
      exact hreclaims
    · rw [hanswer]
      refine ⟨Or.inr ?_, log, hsame (by rw [hanswer])⟩
      refine (reclaimTx_failsOnly hinv (fun a hc => ?_) (hmin.trans h.between.1)
        (h.between.2.trans h.recovering.later.2) e htx).1
      obtain ⟨hget, hrunning, -⟩ := expiredCandidate_spec hc
      have ha : a ∈ w.system.db.running := mem_running.mpr ⟨Table.mem_of_get? hget, hrunning⟩
      have hstart := h.recovering.running.subset (List.mem_append_right _ ha)
      exact hdated.started a (mem_running.mp hstart).1
  have hbroken : ∀ s, w.system.step (.reclaim asOf []) = some s →
      ∃ log, Recovering v { w with system := s } log := by
    intro s hstep
    have hends := hdone s hstep
    generalize (reclaimNextExpiredAttemptAt asOf [] w.system.db).1 = answer at hends
    rcases answer with e | _ | answer
    · exact hends.2
    · exact ⟨log, hends.1⟩
    · obtain ⟨-, a, hrecovering⟩ := hends
      exact ⟨_, hrecovering⟩
  cases hr with
  | answered s step => exact hdone s step
  | broken message => exact ⟨Or.inl ⟨message, rfl⟩, log, h.recovering⟩
  | unheard s message step => exact ⟨Or.inl ⟨message, rfl⟩, hbroken s step⟩

end Calls

/-! ### The whole loop -/

/-- The program ends in `post` however time passes between its calls. -/
def Carries (faulty : Bool) {α : Type} (post : α → World → Prop)
    (p : Program RecoveryRequest RecoveryRequest.Reply α) (w : World) : Prop :=
  Meets Passing (Recovers faulty) (fun _ _ => True) post p w

/-- How the removal after a reclaim ends; its error is logged only. -/
def RemovalEnds (faulty : Bool) (v : World) (log : List (AttemptRow × ReclaimedAttempt))
    (answer : ReclaimedAttempt) :
    Except RepositoryError (Except StorageError Unit) → World → Prop
  | .ok _, w => ∃ a, Recovering v w (log ++ [(a, answer)]) ∧
      (faulty = false → Emptied (log ++ [(a, answer)]) w)
  | .error _, _ => False

section Loop

variable {faulty : Bool} {v w w' : World} {log : List (AttemptRow × ReclaimedAttempt)}

theorem excused_pass {e : RepositoryError} (h : Excused e ∧ ∃ log, Recovering v w log)
    (hpass : Passing w w') : Excused e ∧ ∃ log, Recovering v w' log := by
  obtain ⟨hexcused, log, hrecovering⟩ := h
  exact ⟨hexcused, log, (hrecovering.pass hpass).1⟩

theorem NextEnds.pass {r : Except RepositoryError (Option ReclaimedAttempt)}
    (h : NextEnds faulty v log r w) (hpass : Passing w w') : NextEnds faulty v log r w' := by
  rcases r with e | _ | answer
  · exact excused_pass h hpass
  · obtain ⟨hrecovering, hemptied, asOf, hfrom, hto, hlog⟩ := h
    obtain ⟨hrecovering, -, hstorage, hnow⟩ := hrecovering.pass hpass
    exact ⟨hrecovering, fun hf => (hemptied hf).of_storage hstorage, asOf, hfrom, hto.trans hnow,
      hlog⟩
  · obtain ⟨hemptied, a, hrecovering⟩ := h
    obtain ⟨hrecovering, -, hstorage, -⟩ := hrecovering.pass hpass
    exact ⟨fun hf => (hemptied hf).of_storage hstorage, a, hrecovering⟩

theorem carries_perform {q : RecoveryRequest} {post : q.Reply → World → Prop}
    (h : ∀ w₁, Passing w w₁ → ∀ r w₂, Recovers faulty w₁ q r w₂ → ∀ w₃, Passing w₂ w₃ → post r w₃) :
    Carries faulty post (.perform q) w :=
  meets_perform fun w₁ hw₁ => ⟨trivial, h w₁ hw₁⟩

theorem databaseNow_carries (h : Recovering v w log) (hemptied : faulty = false → Emptied log w) :
    Carries faulty (ReadingEnds faulty v log) (.perform RecoveryRequest.databaseNow) w := by
  refine carries_perform (q := .databaseNow) fun w₁ hw₁ r w₂ hr w₃ hw₃ => ?_
  obtain ⟨hbefore, -, hstorage, -⟩ := h.pass hw₁
  have hends := databaseNow_ends hbefore (fun hf => (hemptied hf).of_storage hstorage) hr
  rcases r with e | asOf
  · exact excused_pass hends hw₃
  · exact Reading.pass hends hw₃

theorem reclaimNext_carries (hv : v.system.Reachable) (hdated : v.system.db.Dated)
    (hmin : minTimestamp ≤ v.system.now) (h : Recovering v w log)
    (hemptied : faulty = false → Emptied log w) :
    Carries faulty (NextEnds faulty v log) reclaimNextExpiredAttempt.run w := by
  refine meets_except_bind Passing.refl ((databaseNow_carries h hemptied).consequence ?_)
  intro r w₁ hends
  rcases r with e | asOf
  · exact fun w₂ hw₂ => excused_pass hends hw₂
  · refine carries_perform (q := .reclaimNextExpiredAttemptAt asOf) fun w₂ hw₂ r w₃ hr w₄ hw₄ => ?_
    exact (reclaim_ends hv hdated hmin (Reading.pass hends hw₂) hr).pass hw₄

/-- The removal after a reclaim empties the directory of the attempt, unless the storage fails. -/
theorem removeTree_empties {a : AttemptRow} {answer : ReclaimedAttempt}
    (h : Recovering v w (log ++ [(a, answer)])) (hemptied : faulty = false → Emptied log w)
    {r : Except StorageError Unit}
    (hr : Recovers faulty w
      (.removeTree (attemptOutputPrefix answer.jobId.get answer.attemptId)) r w') :
    Recovering v w' (log ++ [(a, answer)]) ∧
      (faulty = false → Emptied (log ++ [(a, answer)]) w') := by
  obtain ⟨st, hremoval, rfl⟩ := hr
  have hlast : (a, answer) ∈ log ++ [(a, answer)] := List.mem_append_right _ List.mem_cons_self
  obtain ⟨-, htells, -⟩ := h.reclaimed _ hlast
  rw [htells.jobId, htells.attemptId] at hremoval
  have houtside := hremoval.outside (attemptPath_resolves a.jobId a.id)
  refine ⟨h.remove hlast houtside, ?_⟩
  rintro rfl p hp path hpath
  by_cases hunder : attemptPath a.jobId a.id <+: path
  · cases hremoval with
    | refused e key_eq =>
      rw [attemptPath_resolves] at key_eq
      cases key_eq
    | stopped e path st' key_eq fault => cases fault
    | removed root key_eq =>
      rw [attemptPath_resolves, Except.ok.injEq] at key_eq
      subst key_eq
      exact removeTree_read? hunder w.storage
  · rcases List.mem_append.mp hp with hp | hp
    · exact (houtside.read? hunder).trans (hemptied rfl p hp path hpath)
    · rw [List.mem_singleton.mp hp] at hpath
      exact absurd hpath hunder

/-- The removal after a reclaim, whose error is logged only. -/
theorem removal_carries {answer : ReclaimedAttempt}
    (h : NextEnds faulty v log (.ok (some answer)) w) :
    Carries faulty (RemovalEnds faulty v log answer)
      (ExceptT.lift (.perform (RecoveryRequest.removeTree
        (attemptOutputPrefix answer.jobId.get answer.attemptId))) :
        Recovery (Except StorageError Unit)).run w := by
  obtain ⟨hemptied, a, hrecovering⟩ := h
  refine meets_bind Passing.refl (carries_perform (q := .removeTree _)
    fun w₁ hw₁ r w₂ hr w₃ hw₃ => meets_done fun w₄ hw₄ => ?_)
  obtain ⟨hbefore, -, hstorage, -⟩ := hrecovering.pass hw₁
  obtain ⟨hafter, hempty⟩ :=
    removeTree_empties hbefore (fun hf => (hemptied hf).of_storage hstorage) hr
  obtain ⟨hlast, -, hstorage, -⟩ := hafter.pass (Passing.trans _ _ _ hw₃ hw₄)
  exact ⟨a, hlast, fun hf => (hempty hf).of_storage hstorage⟩

theorem LoopEnds.cons {a : AttemptRow} {answer : ReclaimedAttempt}
    {r : Except RepositoryError (Option (List ReclaimedAttempt))}
    (h : LoopEnds faulty v (log ++ [(a, answer)]) r w) :
    LoopEnds faulty v log (r.map fun later => later.map fun answers => answer :: answers) w := by
  rcases r with e | _ | answers
  · exact h
  · exact h
  · obtain ⟨later, rfl, hrecovering, hemptied, hend⟩ := h
    rw [List.append_assoc] at hrecovering hemptied hend
    exact ⟨(a, answer) :: later, rfl, hrecovering, hemptied, hend⟩

theorem LoopEnds.pass {r : Except RepositoryError (Option (List ReclaimedAttempt))}
    (h : LoopEnds faulty v log r w) (hpass : Passing w w') : LoopEnds faulty v log r w' := by
  rcases r with e | _ | answers
  · exact excused_pass h hpass
  · exact h
  · obtain ⟨later, rfl, hrecovering, hemptied, asOf, hfrom, hto, hlog⟩ := h
    obtain ⟨hrecovering, -, hstorage, hnow⟩ := hrecovering.pass hpass
    exact ⟨later, rfl, hrecovering, fun hf => (hemptied hf).of_storage hstorage, asOf, hfrom,
      hto.trans hnow, hlog⟩

/-- The loop, by induction on its fuel: every round takes one attempt out of the running ones. -/
theorem loop_carries (hv : v.system.Reachable) (hdated : v.system.db.Dated)
    (hmin : minTimestamp ≤ v.system.now) (fuel : ℕ) (h : Recovering v w log)
    (hemptied : faulty = false → Emptied log w)
    (hfuel : v.system.db.running.length < fuel + log.length) :
    Carries faulty (LoopEnds faulty v log) (reclaimExpiredAttempts fuel).run w := by
  induction fuel generalizing w log with
  | zero =>
    have hlength := h.length
    omega
  | succ fuel ih =>
    have hnext := reclaimNext_carries hv hdated hmin h hemptied
    refine meets_except_bind Passing.refl (hnext.consequence fun r w₁ hends => ?_)
    rcases r with e | _ | answer
    · exact fun w₂ hw₂ => excused_pass hends hw₂
    · refine meets_done fun w₂ hw₂ => ?_
      obtain ⟨hrecovering, hemptied, hend⟩ := NextEnds.pass hends hw₂
      refine ⟨[], rfl, ?_⟩
      rw [List.append_nil]
      exact ⟨hrecovering, hemptied, hend⟩
    · have hremoved := removal_carries hends
      refine meets_except_bind Passing.refl (hremoved.consequence fun r w₂ hafter => ?_)
      rcases r with e | removal
      · exact hafter.elim
      obtain ⟨a, hrecovering, hemptied⟩ := hafter
      have hless : v.system.db.running.length < fuel + (log ++ [(a, answer)]).length := by
        rw [List.length_append, List.length_singleton]
        omega
      have hloop := ih hrecovering hemptied hless
      refine meets_except_bind Passing.refl (hloop.consequence fun r w₃ hends => ?_)
      rcases r with e | later
      · exact fun w₄ hw₄ => excused_pass hends hw₄
      · refine meets_done fun w₄ hw₄ => ?_
        have hcons := LoopEnds.cons hends
        exact hcons.pass hw₄

/-- However time passes, the loop with fuel for every running attempt comes to an end: it has
reclaimed exactly the attempts whose leases were over when it read the clock last, each once and in
the order of their leases, and emptied their directories; everything else is as it was. When it
fails it has reclaimed some of them. -/
theorem recovery_drains {s : System} {start : ℤ} {st : Storage} {fuel : ℕ}
    {r : Except RepositoryError (Option (List ReclaimedAttempt))} (hmin : minTimestamp ≤ start)
    (hmax : start ≤ maxTimestamp) (h : Run System.step Op.Dated (.initial start) s)
    (hfuel : s.db.running.length < fuel)
    (hrun : Relation.ReflTransGen (Step Passing (Recovers faulty))
      ((reclaimExpiredAttempts fuel).run, ⟨s, st⟩) (.done r, w)) :
    ∃ log, Recovering ⟨s, st⟩ w log ∧ ((∃ e, r = .error e ∧ Excused e) ∨
      r = .ok (some (log.map Prod.snd)) ∧ (faulty = false → Emptied log w) ∧
        ∃ asOf, s.now ≤ asOf ∧ asOf ≤ w.system.now ∧
          log.map Prod.fst = s.db.overdue (bindTimestamp asOf)) := by
  have hreachable : s.Reachable := ⟨start, h.always⟩
  obtain ⟨hdated, hfrom, hto⟩ := run_dated hmin hmax h
  have hbegin : Recovering ⟨s, st⟩ ⟨s, st⟩ [] := .refl hreachable hto
  have hempty : faulty = false → Emptied [] ⟨s, st⟩ := fun _ p hp => absurd hp List.not_mem_nil
  have hloop := loop_carries hreachable hdated hfrom fuel hbegin hempty hfuel
  have hends := Meets.result Passing.refl Passing.trans hloop hrun
  rcases r with e | _ | answers
  · obtain ⟨hexcused, log, hrecovering⟩ := hends
    exact ⟨log, hrecovering, Or.inl ⟨e, rfl, hexcused⟩⟩
  · exact hends.elim
  · obtain ⟨log, rfl, hrecovering, hemptied, hend⟩ := hends
    exact ⟨log, hrecovering, Or.inr ⟨rfl, hemptied, hend⟩⟩

end Loop

/-! ### Two dead workers -/

/-- The loop alone with its database and its files. -/
def World.recover (w : World) : (q : RecoveryRequest) → q.Reply × World
  | .databaseNow => w.commit .readClock fun db => (.ok w.system.now, db)
  | .reclaimNextExpiredAttemptAt asOf =>
      w.commit (.reclaim asOf []) (reclaimNextExpiredAttemptAt asOf [])
  | .removeTree key => w.discard quietDisk key

theorem World.recover_recovers (faulty : Bool) (w : World) (q : RecoveryRequest) :
    Recovers faulty w q (w.recover q).1 (w.recover q).2 := by
  cases q with
  | removeTree key => exact ⟨_, removeTree_removal quietDisk_removes key w.storage, rfl⟩
  | _ => exact w.commit_commits _ _

theorem recover_steps (faulty : Bool) {α : Type}
    (p : Program RecoveryRequest RecoveryRequest.Reply α) (w : World) :
    Relation.ReflTransGen (Step Passing (Recovers faulty)) (p, w)
      (.done (p.run World.recover w).1, (p.run World.recover w).2) :=
  run_steps (World.recover_recovers faulty) p w

def sampleDeadOps : List Op :=
  [.create sampleName, .create sampleName, .readClock, .registerWorker (sampleWorker 7) 0,
    .registerWorker (sampleWorker 8) 0, .claimNext 7 5 [], .claimNext 8 6 [], .tick (seconds 60)]

theorem recovery_drains_two :
    ∃ (s : System) (w : World) (log : List (AttemptRow × ReclaimedAttempt)),
    s.db.running.length = 2 ∧ w.system.db.running = [] ∧ Recovering ⟨s, squareStorage⟩ w log ∧
      ∃ asOf, log.map Prod.fst = s.db.overdue (bindTimestamp asOf) := by
  have hrun : (exec System.step (System.initial 0) sampleDeadOps).any (fun s =>
      s.db.running.length == 2 &&
        let answer := (reclaimExpiredAttempts 3).run.run World.recover ⟨s, squareStorage⟩
        answer.2.system.db.running.isEmpty && answer.1.toOption.any fun result =>
          result.isSome) = true := by
    decide +kernel
  obtain ⟨s, hexec, hboth⟩ := (Option.any_eq_true _ _).mp hrun
  simp only [Bool.and_eq_true, beq_iff_eq, List.isEmpty_iff] at hboth
  obtain ⟨htwo, hnone, hanswer⟩ := hboth
  obtain ⟨result, hok, -⟩ := except_any_eq_true.mp hanswer
  have hdated : Run System.step Op.Dated (.initial 0) s := by
    refine run_of_exec ?_ hexec
    intro u op hop
    simp only [sampleDeadOps, List.mem_cons, List.not_mem_nil, or_false] at hop
    rcases hop with rfl | rfl | rfl | rfl | rfl | rfl | rfl | rfl
    · trivial
    · trivial
    · trivial
    · trivial
    · trivial
    · trivial
    · trivial
    · exact (by decide : seconds 60 ≤ maxTimestamp)
  have hsteps := recover_steps false (reclaimExpiredAttempts 3).run ⟨s, squareStorage⟩
  rw [hok] at hsteps
  obtain ⟨log, hrecovering, herror | ⟨-, -, asOf, -, -, hlog⟩⟩ :=
    recovery_drains (by decide) (by decide) hdated (by omega) hsteps
  · obtain ⟨e, he, -⟩ := herror
    cases he
  · exact ⟨s, _, log, htwo, hnone, hrecovering, asOf, hlog⟩

end TaskHarbor
