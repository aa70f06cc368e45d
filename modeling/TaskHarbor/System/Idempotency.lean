import TaskHarbor.System.Desk

/-! Idempotent creation: over every interleaving of keyed uploads with each other and with the rest
of the system, the callers under one key share one job, or hear of a conflict of fingerprints. -/
namespace TaskHarbor

open Relational Transaction Runs

/-! ### The invariant of the calls -/

def Creation.id : Creation → ℕ
  | .existing id | .created id => id

/-- The job under the key and with the fingerprint of `i`, by its id. -/
def Db.Holds (db : Db) (owner : ℕ) (i : IdempotencyRequest) (id : ℕ) : Prop :=
  ∃ r ∈ db.jobs, r.Under owner i ∧ r.replays i ∧ r.id = id

/-- The job under the key of `i` has another fingerprint. -/
def Db.Refuses (db : Db) (owner : ℕ) (i : IdempotencyRequest) : Prop :=
  ∃ r ∈ db.jobs, r.Under owner i ∧ ¬r.replays i

/-- What a phase says about the database. -/
def Phase.Knows (request : NewImageJob) (db : Db) : Phase → Prop
  | .begun | .locked => True
  | .looked found => existingImageJob request db = found
  | .settled creation =>
      ∀ i, request.idempotency = some i → db.Holds request.ownerUserId i creation.id
  | .answered (.ok record) =>
      ∀ i, request.idempotency = some i → db.Holds request.ownerUserId i record.id.get
  | .answered (.error e) => e = .idempotencyConflict →
      ∀ i, request.idempotency = some i → db.Refuses request.ownerUserId i

def Phase.isAnswered : Phase → Bool
  | .answered _ => true
  | _ => false

/-- What a call knows is true of the database. -/
structure Call.Good (call : Call) (db : Db) : Prop where
  keyed : call.request.idempotency.isSome = true
  valid : call.phase.isAnswered = false → call.request.validate = .ok ()
  knows : call.phase.Knows call.request db

structure Desk.Inv (hash : String → ℕ → ℕ) (d : Desk) : Prop where
  system : d.system.Inv
  keyed : d.system.db.Keyed
  calls : ∀ (n : ℕ) (call : Call), d.calls[n]? = some call → call.Good d.system.db
  exclusive : ∀ (n m : ℕ) (c c' : Call), d.calls[n]? = some c → d.calls[m]? = some c' →
    c.holds = true → c'.holds = true → c.lockKey hash = c'.lockKey hash → n = m

section Good

variable {uploads : NewImageJob → Prop} {now : ℤ} {db db' : Db} {call : Call} {owner id : ℕ}
  {i : IdempotencyRequest}

theorem Db.Holds.turns (h : db.Holds owner i id) (hturns : db.Turns now db') :
    db'.Holds owner i id := by
  obtain ⟨r, hr, hunder, hreplays, rfl⟩ := h
  obtain ⟨r', hr', hsame⟩ := keyed_after hturns hr
  exact ⟨r', hr', hunder.of_claims hsame, JobRow.replays_of_claims hsame hreplays,
    JobRow.claims_id hsame⟩

theorem Db.Refuses.turns (h : db.Refuses owner i) (hturns : db.Turns now db') :
    db'.Refuses owner i := by
  obtain ⟨r, hr, hunder, hreplays⟩ := h
  obtain ⟨r', hr', hsame⟩ := keyed_after hturns hr
  exact ⟨r', hr', hunder.of_claims hsame,
    fun hnow => hreplays (JobRow.replays_of_claims hsame.symm hnow)⟩

/-- What a call knows stays true while no other call under its key commits behind its lookup. -/
theorem Call.Good.step (h : call.Good db) (hkeyed : db.Keyed) (hturns : db.Turns now db')
    (hgrows : db.Grows uploads now db')
    (hother : call.holds = true → ∀ i, call.request.idempotency = some i →
      ∀ request' i', uploads request' → request'.idempotency = some i' →
        request'.ownerUserId = call.request.ownerUserId → i'.key ≠ i.key) :
    call.Good db' := by
  refine ⟨h.keyed, h.valid, ?_⟩
  have hknows := h.knows
  cases hphase : call.phase with
  | begun => trivial
  | locked => trivial
  | looked found =>
    rw [hphase] at hknows
    obtain ⟨i, hi⟩ := Option.isSome_iff_exists.mp h.keyed
    have hholds : call.holds = true := by simp [Call.holds, hphase]
    exact (existingImageJob_stable hkeyed hturns hgrows hi (hother hholds i hi)).trans hknows
  | settled creation =>
    rw [hphase] at hknows
    exact fun i hi => (hknows i hi).turns hturns
  | answered result =>
    rw [hphase] at hknows
    cases result with
    | ok record => exact fun i hi => (hknows i hi).turns hturns
    | error e => exact fun he i hi => (hknows he i hi).turns hturns

end Good

section Invariant

variable {hash : String → ℕ → ℕ} {d d' : Desk} {event : Event} {n : ℕ} {call : Call} {phase : Phase}
  {db : Db}

theorem Desk.getElem?_move {m : ℕ} (hcall : d.calls[n]? = some call) :
    (d.move n call phase db).calls[m]? =
      if n = m then some { call with phase } else d.calls[m]? := by
  obtain ⟨hlt, -⟩ := List.getElem?_eq_some_iff.mp hcall
  have hset : (d.calls.set n { call with phase })[m]? =
      if n = m then if n < d.calls.length then some { call with phase } else none
      else d.calls[m]? := List.getElem?_set
  rw [if_pos hlt] at hset
  exact hset

/-- A statement of a call leaves the database or commits the upload of the call. -/
theorem Call.Moves.database (h : call.Moves hash d phase db) (hinv : d.Inv hash)
    (hgood : call.Good d.system.db) :
    db = d.system.db ∨ ∃ id, phase = .settled (.created id) ∧ call.holds = true ∧
      createImageJobTx call.request call.startedAt d.system.db = .ok (.created id, db) ∧
      d.system.db.Evolves call.startedAt db ∧
      d.system.db.Grows (fun request => request = call.request) call.startedAt db := by
  cases h with
  | created id db looked inserted =>
    right
    have hnone : existingImageJob call.request d.system.db = .ok none := by
      have hknows := hgood.knows
      rw [looked] at hknows
      exact hknows
    have htx := createImageJobTx_of_insert hnone inserted
    have hvalid : call.request.validate = .ok () := hgood.valid (by rw [looked]; rfl)
    refine ⟨id, rfl, by simp [Call.holds, looked], htx, createImageJobTx_evolves htx, ?_⟩
    exact createImageJobTx_grows hinv.system.db rfl hvalid htx
  | locked begun free => exact Or.inl rfl
  | looked locked => exact Or.inl rfl
  | refused e looked => exact Or.inl rfl
  | found id looked => exact Or.inl rfl
  | failed e looked rolledBack => exact Or.inl rfl
  | answered creation settled => exact Or.inl rfl

/-- The committed job of a call stands under its key with its fingerprint. -/
theorem insertImageJob_holds {request : NewImageJob} {now : ℤ} {db' : Db} {id : ℕ}
    {i : IdempotencyRequest} (hi : request.idempotency = some i)
    (h : createImageJobTx request now db = .ok (.created id, db')) :
    db'.Holds request.ownerUserId i id := by
  rcases createImageJobTx_ok h with ⟨id', -, hc, -⟩ | ⟨-, id', db₁, rows, hinsert, happended, -, hc⟩
  · cases hc
  · cases hc
    obtain ⟨rfl, -, -, -, rfl⟩ := insertJob_ok.mp hinsert
    have hmem : request.row request.name.asStr now db.jobs.next ∈
        db.jobs.insertNew (request.row request.name.asStr now) (fun _ => rfl) :=
      Table.mem_insertNew.mpr (Or.inr rfl)
    refine ⟨request.row request.name.asStr now db.jobs.next, ?_, ⟨rfl, ?_⟩, ?_, rfl⟩
    · rw [happended.jobs]
      exact hmem
    · show request.idempotency.map IdempotencyRequest.key = _
      rw [hi]
      rfl
    · show request.idempotency.map IdempotencyRequest.fingerprint = _
      rw [hi]
      rfl

/-- A settled call reads its job back. -/
theorem Call.readBack_ok {creation : Creation} {i : IdempotencyRequest} (hinv : d.Inv hash)
    (h : d.system.db.Holds call.request.ownerUserId i creation.id) :
    ∃ record, call.readBack creation d.system.db = .ok record ∧ record.id.get = creation.id := by
  obtain ⟨r, hr, hunder, -, hid⟩ := h
  rw [← hid]
  cases creation with
  | existing id =>
    obtain rfl : r.id = id := hid
    have howned : ownedBy (some call.request.ownerUserId) r = true := by simp [ownedBy, hunder.1]
    obtain ⟨record, hrecord, hshows⟩ :=
      TaskHarbor.readBack_ok hinv.system.db hr howned "read idempotent image job"
    exact ⟨record, hrecord, hshows.id⟩
  | created id =>
    obtain rfl : r.id = id := hid
    have hanyone : ownedBy none r = true := rfl
    obtain ⟨record, hrecord, hshows⟩ :=
      TaskHarbor.readBack_ok hinv.system.db hr hanyone "read created image job"
    exact ⟨record, hrecord, hshows.id⟩

/-- The next phase of a call is good again. -/
theorem Call.Moves.good (h : call.Moves hash d phase db) (hinv : d.Inv hash)
    (hgood : call.Good d.system.db) : ({ call with phase } : Call).Good db := by
  obtain ⟨i, hi⟩ := Option.isSome_iff_exists.mp hgood.keyed
  have hsame : ∀ j, call.request.idempotency = some j → j = i :=
    fun j hj => Option.some.inj (hj.symm.trans hi)
  have hcases := existingImageJob_cases hinv.keyed hi
  have hknows := hgood.knows
  have hvalid := hgood.valid
  cases h with
  | locked begun free =>
    rw [begun] at hvalid
    exact ⟨hgood.keyed, hvalid, trivial⟩
  | looked locked =>
    rw [locked] at hvalid
    exact ⟨hgood.keyed, hvalid, rfl⟩
  | refused e looked =>
    refine ⟨hgood.keyed, (by intro h; cases h), ?_⟩
    rintro rfl j hj
    obtain rfl := hsame j hj
    rw [looked] at hknows
    have hlook : existingImageJob call.request d.system.db = _ := hknows
    rw [hlook] at hcases
    rcases hcases with ⟨-, message, h⟩ | ⟨-, -, h⟩ | ⟨r, hr, hunder, ⟨-, h⟩ | ⟨hreplays, -⟩⟩
    · cases h
    · cases h
    · cases h
    · exact ⟨r, hr, hunder, hreplays⟩
  | found id looked =>
    rw [looked] at hvalid hknows
    refine ⟨hgood.keyed, hvalid, fun j hj => ?_⟩
    obtain rfl := hsame j hj
    have hlook : existingImageJob call.request d.system.db = _ := hknows
    rw [hlook] at hcases
    rcases hcases with ⟨-, message, h⟩ | ⟨-, -, h⟩ | ⟨r, hr, hunder, ⟨hreplays, h⟩ | ⟨-, h⟩⟩
    · cases h
    · cases h
    · cases h
      exact ⟨r, hr, hunder, hreplays, rfl⟩
    · cases h
  | created id db looked inserted =>
    rw [looked] at hvalid hknows
    refine ⟨hgood.keyed, hvalid, fun j hj => ?_⟩
    exact insertImageJob_holds hj (createImageJobTx_of_insert hknows inserted)
  | failed e looked rolledBack =>
    refine ⟨hgood.keyed, (by intro h; cases h), fun he => ?_⟩
    have hfault := insertImageJob_faults call.request _ rolledBack
    rw [he] at hfault
    cases hfault
  | answered creation settled =>
    rw [settled] at hknows
    obtain ⟨record, hrecord, hid⟩ := Call.readBack_ok hinv (hknows i hi)
    rw [hrecord]
    refine ⟨hgood.keyed, (by intro h; cases h), fun j hj => ?_⟩
    rw [hid]
    exact hknows j hj

/-- A step of the rest of the system leaves what the calls know. -/
theorem Desk.Inv.other (hinv : d.Inv hash) {op : Op} {system : System}
    (hkeyed : op.isKeyed = false) (hstep : d.system.step op = some system) :
    Desk.Inv hash { d with system } := by
  have hturns := (System.step_db hinv.system hstep).turns
  have hgrows := System.step_grows hinv.system hstep
  refine ⟨hinv.system.step hstep, hinv.keyed.step hturns hgrows, fun n call hcall => ?_,
    hinv.exclusive⟩
  refine (hinv.calls n call hcall).step hinv.keyed hturns hgrows ?_
  intro _ i _ request' i' huploads hi' _
  have hop : op = .createImageJob request' := huploads
  rw [hop, Op.isKeyed, hi'] at hkeyed
  cases hkeyed

theorem NewImageJob.firstPhase_good {request : NewImageJob} (db : Db)
    (hkeyed : request.idempotency.isSome = true) (now : ℤ) :
    (⟨request, now, request.firstPhase⟩ : Call).Good db := by
  unfold NewImageJob.firstPhase
  cases hvalid : request.validate with
  | ok _ => exact ⟨hkeyed, fun _ => hvalid, trivial⟩
  | error e =>
    refine ⟨hkeyed, (by intro h; cases h), fun he => ?_⟩
    have hfault := request.validate_faults e hvalid
    rw [he] at hfault
    cases hfault

theorem NewImageJob.firstPhase_holds (request : NewImageJob) (now : ℤ) :
    (⟨request, now, request.firstPhase⟩ : Call).holds = false := by
  unfold NewImageJob.firstPhase
  cases request.validate <;> rfl

theorem Desk.getElem?_begin {c new : Call} (h : (d.calls ++ [new])[n]? = some c) :
    d.calls[n]? = some c ∨ c = new := by
  rw [List.getElem?_append] at h
  split at h
  · exact Or.inl h
  · exact Or.inr (List.mem_singleton.mp (List.mem_of_getElem? h))

theorem Desk.Inv.begin (hinv : d.Inv hash) {request : NewImageJob}
    (hkeyed : request.idempotency.isSome = true) :
    Desk.Inv hash
      { d with calls := d.calls ++ [⟨request, d.system.now, request.firstPhase⟩] } := by
  refine ⟨hinv.system, hinv.keyed, fun n c hc => ?_, fun n m c c' hc hc' hholds hholds' => ?_⟩
  · rcases Desk.getElem?_begin hc with hold | rfl
    · exact hinv.calls n c hold
    · exact request.firstPhase_good d.system.db hkeyed d.system.now
  · rcases Desk.getElem?_begin hc with hold | rfl
    · rcases Desk.getElem?_begin hc' with hold' | rfl
      · exact hinv.exclusive n m c c' hold hold' hholds hholds'
      · rw [request.firstPhase_holds] at hholds'
        cases hholds'
    · rw [request.firstPhase_holds] at hholds
      cases hholds

/-- A call takes its lock when no other call holds it. -/
theorem Call.Moves.holds (h : call.Moves hash d phase db)
    (hholds : ({ call with phase } : Call).holds = true) :
    call.holds = true ∨ ∀ c ∈ d.calls, c.holds = true → c.lockKey hash ≠ call.lockKey hash := by
  cases h with
  | locked begun free => exact Or.inr free
  | looked locked => exact Or.inl (by simp [Call.holds, locked])
  | refused e looked => cases hholds
  | found id looked => cases hholds
  | created id db looked inserted => cases hholds
  | failed e looked rolledBack => cases hholds
  | answered creation settled => cases hholds

/-- Calls of one owner under one key share their lock. -/
theorem Call.lockKey_eq {c c' : Call} {i i' : IdempotencyRequest}
    (hi : c.request.idempotency = some i) (hi' : c'.request.idempotency = some i')
    (howner : c.request.ownerUserId = c'.request.ownerUserId) (hkey : i.key = i'.key) :
    c.lockKey hash = c'.lockKey hash := by
  simp only [Call.lockKey, hi, hi', Option.map_some, howner, hkey]

theorem Desk.Inv.move (hinv : d.Inv hash) (hcall : d.calls[n]? = some call)
    (hmoves : call.Moves hash d phase db) : (d.move n call phase db).Inv hash := by
  have hgood := hinv.calls n call hcall
  have hself := hmoves.good hinv hgood
  have hexclusive : ∀ (n' m : ℕ) (c c' : Call), (d.move n call phase db).calls[n']? = some c →
      (d.move n call phase db).calls[m]? = some c' → c.holds = true → c'.holds = true →
      c.lockKey hash = c'.lockKey hash → n' = m := by
    -- the moved call held its lock before, or nobody did
    have hmoved : ∀ (m : ℕ) (c : Call), ({ call with phase } : Call).holds = true →
        d.calls[m]? = some c → c.holds = true → c.lockKey hash = call.lockKey hash → n = m := by
      intro m c hself hc hholds hsame
      rcases hmoves.holds hself with hbefore | hfree
      · exact hinv.exclusive n m call c hcall hc hbefore hholds hsame.symm
      · exact absurd hsame (hfree c (List.mem_of_getElem? hc) hholds)
    intro n' m c c' hc hc' hholds hholds' hsame
    rw [Desk.getElem?_move hcall] at hc hc'
    by_cases hn : n = n'
    · by_cases hm : n = m
      · exact hn.symm.trans hm
      · rw [if_pos hn] at hc
        rw [if_neg hm] at hc'
        cases hc
        exact hn.symm.trans (hmoved m c' hholds hc' hholds' hsame.symm)
    · rw [if_neg hn] at hc
      by_cases hm : n = m
      · rw [if_pos hm] at hc'
        cases hc'
        exact (hmoved n' c hholds' hc hholds hsame).symm.trans hm
      · rw [if_neg hm] at hc'
        exact hinv.exclusive n' m c c' hc hc' hholds hholds' hsame
  rcases hmoves.database hinv hgood with rfl | ⟨id, -, hheld, -, hevolves, hgrows⟩
  · refine ⟨hinv.system, hinv.keyed, fun m c hc => ?_, hexclusive⟩
    rw [Desk.getElem?_move hcall] at hc
    split at hc
    · cases hc
      exact hself
    · exact hinv.calls m c hc
  · have hturns := hevolves.turns
    have hsteps : Db.Steps (fun _ => False) (fun _ _ _ => False) (fun _ => False)
        call.startedAt d.system.db db := hevolves.steps
    refine ⟨⟨?_, ?_⟩, hinv.keyed.step hturns hgrows, fun m c hc => ?_, hexclusive⟩
    · exact hinv.system.db.steps hsteps
    · exact fun claimed hclaimed => (hinv.system.issued claimed hclaimed).turns hturns
    · rw [Desk.getElem?_move hcall] at hc
      split at hc
      · cases hc
        exact hself
      · rename_i hne
        refine (hinv.calls m c hc).step hinv.keyed hturns hgrows ?_
        intro hholds i hi request' i' hrequest hi' howner hkey
        rw [hrequest] at hi' howner
        have hlock : call.lockKey hash = c.lockKey hash := Call.lockKey_eq hi' hi howner hkey
        exact hne (hinv.exclusive n m call c hcall hc hheld hholds hlock)

theorem Desk.Inv.step (hinv : d.Inv hash) (h : d.step hash event = some d') : d'.Inv hash := by
  rcases Desk.step_cases h with ⟨op, system, hkeyed, hstep, rfl⟩ | ⟨request, hkeyed, rfl⟩ |
    ⟨n, call, phase, db, hcall, hmoves, rfl⟩
  · exact hinv.other hkeyed hstep
  · exact hinv.begin hkeyed
  · exact hinv.move hcall hmoves

theorem Desk.Inv.initial (now : ℤ) : (Desk.initial now).Inv hash := by
  refine ⟨System.Inv.initial now, ⟨fun r hr => ?_, fun r hr => ?_⟩, fun n call h => ?_,
    fun n m c c' h => ?_⟩
  · exact absurd hr (Table.not_mem_empty r)
  · exact absurd hr (Table.not_mem_empty r)
  · cases h
  · cases h

theorem Desk.Inv.run {ok : Desk → Event → Prop} (hinv : d.Inv hash)
    (h : Run (Desk.step hash) ok d d') : d'.Inv hash :=
  h.invariant (fun _ _ _ hinv _ hstep => hinv.step hstep) hinv

end Invariant

/-! ### Answers after a commit -/

/-- The answer that a caller under the key of `r` is owed. -/
def JobRow.Answered (r : JobRow) (i : IdempotencyRequest)
    (result : Except RepositoryError JobRecord) : Prop :=
  (r.replays i → ∃ record, result = .ok record ∧ record.id.get = r.id) ∧
    (¬r.replays i → result = .error .idempotencyConflict)

/-- If the call is under the key of `r` and was answered, it was answered with `r`. -/
def Call.Repeats (call : Call) (r : JobRow) : Prop :=
  ∀ i result, call.request.idempotency = some i → r.Under call.request.ownerUserId i →
    call.request.validate = .ok () → call.phase = .answered result → r.Answered i result

/-- `find_idempotent_image_job` with its two statements at two moments. -/
def findIdempotentAcross (owner : ℕ) (idempotency : IdempotencyRequest) (db db' : Db) :
    Except RepositoryError (Option JobRecord) := do
  idempotency.validate
  match idempotentRow db owner idempotency.key with
  | none => return none
  | some row => do
      let id ← replay row idempotency
      let record ← readBack id (some owner) "read idempotent image job" db'
      return some record

section Answers

variable {hash : String → ℕ → ℕ} {d d' : Desk} {event : Event} {n : ℕ} {call : Call} {phase : Phase}
  {db : Db} {r : JobRow} {owner : ℕ} {i : IdempotencyRequest}

theorem findIdempotentAcross_self :
    findIdempotentAcross owner i db db = findIdempotentImageJob owner i db := rfl

/-- A statement that answers a call, while a job stands under its key, answers with this job. -/
theorem Call.Moves.repeats (h : call.Moves hash d phase db) (hinv : d.Inv hash)
    (hgood : call.Good d.system.db) (hr : r ∈ d.system.db.jobs) :
    ({ call with phase } : Call).Repeats r := by
  intro i result hi hunder hvalid hphase
  have hknows := hgood.knows
  obtain ⟨hreplay, hconflict⟩ := existingImageJob_replay hinv.keyed hr hi hunder
  have hdone : phase = .answered result := hphase
  have hlooked : ∀ found, call.phase = .looked found →
      existingImageJob call.request d.system.db = found := by
    intro found hlooked
    rw [hlooked] at hknows
    exact hknows
  cases h with
  | locked begun free => cases hdone
  | looked locked => cases hdone
  | found id looked => cases hdone
  | created id db looked inserted => cases hdone
  | refused e looked =>
    cases hdone
    have hlook := hlooked _ looked
    constructor
    · intro hsame
      cases (hreplay hsame).symm.trans hlook
    · intro hother
      cases (hconflict hother).symm.trans hlook
      rfl
  | failed e looked rolledBack =>
    have hlook := hlooked _ looked
    by_cases hsame : r.replays i
    · cases (hreplay hsame).symm.trans hlook
    · cases (hconflict hsame).symm.trans hlook
  | answered creation settled =>
    rw [settled] at hknows
    have hholds := hknows i hi
    obtain ⟨record, hrecord, hid⟩ := Call.readBack_ok hinv hholds
    obtain ⟨r', hr', hunder', hsame, hid'⟩ := hholds
    have hone := hinv.keyed.unique r' hr' r hr _ i hunder' hunder
    obtain rfl : r' = r := Table.key_inj hr' hr hone
    cases hdone
    exact ⟨fun _ => ⟨record, hrecord, hid.trans hid'.symm⟩, fun hother => absurd hsame hother⟩

theorem Call.Repeats.of_claims {r' : JobRow} (h : call.Repeats r') (hsame : r'.claims = r.claims) :
    call.Repeats r := by
  intro i result hi hunder hvalid hphase
  obtain ⟨hreplay, hconflict⟩ := h i result hi (hunder.of_claims hsame) hvalid hphase
  constructor
  · intro hreplays
    rw [← JobRow.claims_id hsame]
    exact hreplay (JobRow.replays_of_claims hsame hreplays)
  · intro hother
    exact hconflict fun hreplays => hother (JobRow.replays_of_claims hsame.symm hreplays)

theorem NewImageJob.firstPhase_repeats (request : NewImageJob) (now : ℤ) (r : JobRow) :
    (⟨request, now, request.firstPhase⟩ : Call).Repeats r := by
  intro i result _ _ hvalid hphase
  simp only [NewImageJob.firstPhase] at hvalid hphase
  rw [hvalid] at hphase
  cases hphase

/-- A job keeps its key, and every call under the key that was not answered before it stood there
is answered with it. -/
theorem Desk.repeats_run {ok : Desk → Event → Prop} (hinv : d.Inv hash)
    (h : Run (Desk.step hash) ok d d') (hr : r ∈ d.system.db.jobs) :
    (∃ r' ∈ d'.system.db.jobs, r'.claims = r.claims) ∧
    ∀ (n : ℕ) (call : Call), (∀ c : Call, d.calls[n]? = some c → c.phase.isAnswered = false) →
      d'.calls[n]? = some call → call.Repeats r := by
  induction h with
  | refl =>
    refine ⟨⟨r, hr, rfl⟩, fun n call hopen hcall i result _ _ _ hphase => ?_⟩
    have hnot := hopen call hcall
    rw [hphase] at hnot
    cases hnot
  | @tail t u event hrun hok hstep ih =>
    have hinv' := hinv.run hrun
    obtain ⟨⟨r', hr', hsame⟩, hrepeats⟩ := ih
    rcases Desk.step_cases hstep with ⟨op, system, hkeyed, hop, rfl⟩ | ⟨request, hkeyed, rfl⟩ |
      ⟨m, call', phase, db, hcall', hmoves, rfl⟩
    · obtain ⟨r'', hr'', hsame'⟩ := keyed_after (System.step_db hinv'.system hop).turns hr'
      exact ⟨⟨r'', hr'', hsame'.trans hsame⟩, hrepeats⟩
    · refine ⟨⟨r', hr', hsame⟩, fun n call hopen hcall => ?_⟩
      rcases Desk.getElem?_begin hcall with hold | rfl
      · exact hrepeats n call hopen hold
      · exact request.firstPhase_repeats t.system.now r
    · have hgood := hinv'.calls m call' hcall'
      constructor
      · rcases hmoves.database hinv' hgood with rfl | ⟨id, -, -, -, hevolves, -⟩
        · exact ⟨r', hr', hsame⟩
        · obtain ⟨r'', hr'', hsame'⟩ := keyed_after hevolves.turns hr'
          exact ⟨r'', hr'', hsame'.trans hsame⟩
      · intro n call hopen hcall
        rw [Desk.getElem?_move hcall'] at hcall
        split at hcall
        · cases hcall
          exact (hmoves.repeats hinv' hgood hr').of_claims hsame
        · exact hrepeats n call hopen hcall

end Answers

/-! ### Idempotent creation -/

/-- What holds when `d` was reached, `d'` after it and `d''` after that. -/
structure Desk.Idempotent (hash : String → ℕ → ℕ) (d d' d'' : Desk) : Prop where
  /-- An owner has at most one job under a key. -/
  unique : ∀ r ∈ d.system.db.jobs, ∀ r' ∈ d.system.db.jobs, ∀ owner i, r.Under owner i →
    r'.Under owner i → r = r'
  /-- The first job under a key stays, with its fingerprint. -/
  kept : ∀ r ∈ d.system.db.jobs, ∃ r' ∈ d'.system.db.jobs, r'.claims = r.claims
  /-- A call that returned a job returned the one under its key and with its fingerprint. -/
  returned : ∀ call ∈ d.calls, ∀ record i, call.phase = .answered (.ok record) →
    call.request.idempotency = some i → d.system.db.Holds call.request.ownerUserId i record.id.get
  /-- A call that reported a conflict met another fingerprint of its own owner. -/
  conflicted : ∀ call ∈ d.calls, ∀ i, call.phase = .answered (.error .idempotencyConflict) →
    call.request.idempotency = some i → d.system.db.Refuses call.request.ownerUserId i
  /-- Every valid call that was not answered before `d` is answered with the job. -/
  repeated : ∀ r ∈ d.system.db.jobs, ∀ (n : ℕ) (call : Call),
    (∀ c : Call, d.calls[n]? = some c → c.phase.isAnswered = false) →
    d'.calls[n]? = some call → call.Repeats r
  /-- Every valid lookup finds the job. -/
  found : ∀ r ∈ d.system.db.jobs, ∀ owner i, r.Under owner i → i.validate = .ok () →
    (r.replays i → ∃ record,
      findIdempotentAcross owner i d'.system.db d''.system.db = .ok (some record) ∧
        record.id.get = r.id) ∧
    (¬r.replays i → findIdempotentAcross owner i d'.system.db d''.system.db =
      .error .idempotencyConflict)
  /-- A key that only other owners used is free. -/
  free : ∀ owner i, (∀ r ∈ d.system.db.jobs, ¬r.Under owner i) → i.validate = .ok () →
    findIdempotentAcross owner i d.system.db d'.system.db = .ok none
  /-- A statement of a call changes nothing, or it commits one upload under a free key, and the
  call goes on with that job. -/
  unchanged : ∀ n t, d.step hash (.advance n) = some t → t.system.db = d.system.db ∨
    ∃ call id, d.calls[n]? = some call ∧
      createImageJobTx call.request call.startedAt d.system.db = .ok (.created id, t.system.db) ∧
      t.calls[n]? = some { call with phase := .settled (.created id) } ∧
      ∀ i, call.request.idempotency = some i → ∀ r ∈ d.system.db.jobs,
        ¬r.Under call.request.ownerUserId i

section Idempotent

variable {hash : String → ℕ → ℕ} {d d' d'' : Desk}

theorem findIdempotentAcross_none {owner : ℕ} {i : IdempotencyRequest} {db db' : Db}
    (hnone : ∀ r ∈ db.jobs, ¬r.Under owner i) (hvalid : i.validate = .ok ()) :
    findIdempotentAcross owner i db db' = .ok none := by
  have hrow : idempotentRow db owner i.key = none := by
    cases hfound : idempotentRow db owner i.key with
    | none => rfl
    | some r =>
      obtain ⟨hr, hunder⟩ := idempotentRow_some hfound
      exact absurd hunder (hnone r hr)
  unfold findIdempotentAcross
  simp only [hvalid, hrow]
  rfl

theorem findIdempotentAcross_replay {owner : ℕ} {i : IdempotencyRequest} {db db' : Db}
    {r r' : JobRow} (hkeyed : db.Keyed) (hr : r ∈ db.jobs) (hinv : db'.Inv) (hr' : r' ∈ db'.jobs)
    (hsame : r'.claims = r.claims) (hunder : r.Under owner i) (hvalid : i.validate = .ok ()) :
    (r.replays i → ∃ record, findIdempotentAcross owner i db db' = .ok (some record) ∧
      record.id.get = r.id) ∧
    (¬r.replays i → findIdempotentAcross owner i db db' = .error .idempotencyConflict) := by
  have hrow := idempotentRow_eq hkeyed hr hunder
  have howned : ownedBy (some owner) r' = true := by
    simp [ownedBy, (hunder.of_claims hsame).1]
  unfold findIdempotentAcross
  simp only [hvalid, hrow]
  constructor
  · intro hreplays
    obtain ⟨record, hrecord, hshows⟩ := readBack_ok hinv hr' howned "read idempotent image job"
    rw [JobRow.claims_id hsame] at hrecord
    refine ⟨record, ?_, hshows.id.trans (JobRow.claims_id hsame)⟩
    rw [replay_ok hreplays]
    show (readBack r.id (some owner) "read idempotent image job" db' >>= fun record =>
      pure (some record)) = _
    rw [hrecord]
    rfl
  · intro hother
    rw [replay_conflict hother]
    rfl

theorem Desk.Inv.unchanged (hinv : d.Inv hash) {n : ℕ} {t : Desk}
    (h : d.step hash (.advance n) = some t) : t.system.db = d.system.db ∨
    ∃ call id, d.calls[n]? = some call ∧
      createImageJobTx call.request call.startedAt d.system.db = .ok (.created id, t.system.db) ∧
      t.calls[n]? = some { call with phase := .settled (.created id) } ∧
      ∀ i, call.request.idempotency = some i → ∀ r ∈ d.system.db.jobs,
        ¬r.Under call.request.ownerUserId i := by
  obtain ⟨call, hcall, h⟩ := Option.bind_eq_some_iff.mp h
  obtain ⟨phase, db, hmoves, rfl⟩ := Desk.advance_moves h
  have hmoved : (d.move n call phase db).calls[n]? = some { call with phase } := by
    rw [Desk.getElem?_move hcall, if_pos rfl]
  rcases hmoves.database hinv (hinv.calls n call hcall) with rfl | ⟨id, rfl, -, htx, -⟩
  · exact Or.inl rfl
  · refine Or.inr ⟨call, id, hcall, htx, hmoved, fun i hi r hr hunder => ?_⟩
    obtain ⟨hreplay, hconflict⟩ := existingImageJob_replay hinv.keyed hr hi hunder
    rcases createImageJobTx_ok htx with ⟨id', -, hc, -⟩ | ⟨hnone, -⟩
    · cases hc
    · by_cases hsame : r.replays i
      · cases (hreplay hsame).symm.trans hnone
      · cases (hconflict hsame).symm.trans hnone

end Idempotent

/-- Idempotent creation, for every lock function and every interleaving. -/
theorem idempotent_creation {hash : String → ℕ → ℕ} {now : ℤ} {d d' d'' : Desk}
    (h : Run (Desk.step hash) Always (.initial now) d) (h' : Run (Desk.step hash) Always d d')
    (h'' : Run (Desk.step hash) Always d' d'') : Desk.Idempotent hash d d' d'' := by
  have hinv := (Desk.Inv.initial now).run h
  have hinv' := hinv.run h'
  have hinv'' := hinv'.run h''
  have hgood : ∀ call ∈ d.calls, call.Good d.system.db := by
    intro call hcall
    obtain ⟨n, hn⟩ := List.mem_iff_getElem?.mp hcall
    exact hinv.calls n call hn
  constructor
  · intro r hr r' hr' owner i hunder hunder'
    exact Table.key_inj hr hr' (hinv.keyed.unique r hr r' hr' owner i hunder hunder')
  · exact fun r hr => (Desk.repeats_run hinv h' hr).1
  · intro call hcall record i hphase hi
    have hknows := (hgood call hcall).knows
    rw [hphase] at hknows
    exact hknows i hi
  · intro call hcall i hphase hi
    have hknows := (hgood call hcall).knows
    rw [hphase] at hknows
    exact hknows rfl i hi
  · exact fun r hr => (Desk.repeats_run hinv h' hr).2
  · intro r hr owner i hunder hvalid
    obtain ⟨r', hr', hsame⟩ := (Desk.repeats_run hinv h' hr).1
    obtain ⟨r'', hr'', hsame'⟩ := (Desk.repeats_run hinv' h'' hr').1
    obtain ⟨hreplay, hconflict⟩ := findIdempotentAcross_replay hinv'.keyed hr' hinv''.system.db
      hr'' hsame' (hunder.of_claims hsame) hvalid
    constructor
    · intro hreplays
      obtain ⟨record, hrecord, hid⟩ := hreplay (JobRow.replays_of_claims hsame hreplays)
      exact ⟨record, hrecord, hid.trans (JobRow.claims_id hsame)⟩
    · exact fun hother => hconflict fun h => hother (JobRow.replays_of_claims hsame.symm h)
  · exact fun owner i hnone hvalid => findIdempotentAcross_none hnone hvalid
  · exact fun n t hstep => hinv.unchanged hstep

/-! Two uploads under one key and one fingerprint, the second one without inputs. -/

def sampleKeyed : NewImageJob :=
  { sampleImageJob with idempotency := some ⟨"key", List.replicate 32 1⟩ }

def sampleCallEvents (n : ℕ) (request : NewImageJob) : List Event :=
  [.begin request, .advance n, .advance n, .advance n, .advance n]

/-- Every lock key is the same. -/
def oneLock : String → ℕ → ℕ := fun _ _ => 0

def Phase.returns (id : ℕ) : Phase → Bool
  | .answered (.ok record) => record.id.get == id
  | _ => false

theorem run_of_events {hash : String → ℕ → ℕ} {d d' : Desk} {events : List Event}
    (h : exec (Desk.step hash) d events = some d') : Run (Desk.step hash) Always d d' :=
  run_of_exec (fun _ _ _ => trivial) h

theorem idempotent_creation_second : ∃ d d' : Desk,
    (d.calls[1]?.any fun call => call.phase.returns 1) = false ∧
    (d'.calls[1]?.any fun call => call.phase.returns 1) = true ∧
    Desk.Idempotent oneLock d d' d' := by
  have hrun : (exec (Desk.step oneLock) (.initial 0) (sampleCallEvents 0 sampleKeyed)).any
      (fun d => !(d.calls[1]?.any fun call => call.phase.returns 1) &&
        (exec (Desk.step oneLock) d (sampleCallEvents 1 sampleKeyed)).any fun d' =>
          d'.calls[1]?.any fun call => call.phase.returns 1) = true := by
    decide +kernel
  obtain ⟨d, hd, hrest⟩ := (Option.any_eq_true _ _).mp hrun
  obtain ⟨hbefore, hrest⟩ := Bool.and_eq_true_iff.mp hrest
  obtain ⟨d', hd', hafter⟩ := (Option.any_eq_true _ _).mp hrest
  refine ⟨d, d', by simpa using hbefore, hafter, ?_⟩
  exact idempotent_creation (run_of_events hd) (run_of_events hd') (.refl d')

def sampleEmptyKeyed : NewImageJob := { sampleKeyed with inputs := [] }

theorem sampleEmptyKeyed_refused : sampleEmptyKeyed.firstPhase =
    .answered (.error (.invalidData "image job must contain between 1 and 10 inputs")) := rfl

/-- A call with the key and the fingerprint of a committed job need not return this job: its other
arguments are validated first. -/
theorem repeated_call_refused : ¬∀ d d' : Desk, Run (Desk.step oneLock) Always (.initial 0) d →
    Run (Desk.step oneLock) Always d d' → ∀ r ∈ d.system.db.jobs,
    ∀ (n : ℕ) (call : Call) (i : IdempotencyRequest) (result : Except RepositoryError JobRecord),
      d.calls[n]? = none → d'.calls[n]? = some call → call.request.idempotency = some i →
      r.Under call.request.ownerUserId i → r.replays i → call.phase = .answered result →
      ∃ record, result = .ok record ∧ record.id.get = r.id := by
  have hrun : (exec (Desk.step oneLock) (.initial 0) (sampleCallEvents 0 sampleKeyed)).any
      (fun d => d.calls.length == 1 && (d.system.db.jobs.get? 1).any fun r =>
        decide (r.ownerUserId = 1 ∧ r.idempotencyKey = some "key" ∧
          r.requestFingerprint = some (List.replicate 32 1))) = true := by
    decide +kernel
  obtain ⟨d, hd, hrest⟩ := (Option.any_eq_true _ _).mp hrun
  obtain ⟨hlength, hrow⟩ := Bool.and_eq_true_iff.mp hrest
  obtain ⟨r, hr, hcolumns⟩ := (Option.any_eq_true _ _).mp hrow
  obtain ⟨howner, hkey, hfingerprint⟩ := of_decide_eq_true hcolumns
  have hone : d.calls.length = 1 := by simpa using hlength
  intro hclaim
  have hstep : Run (Desk.step oneLock) Always d { d with calls :=
      d.calls ++ [⟨sampleEmptyKeyed, d.system.now, sampleEmptyKeyed.firstPhase⟩] } :=
    .single (.begin sampleEmptyKeyed) trivial rfl
  have hnone : d.calls[1]? = none := List.getElem?_eq_none hone.le
  have hnew : (d.calls ++ [⟨sampleEmptyKeyed, d.system.now, sampleEmptyKeyed.firstPhase⟩])[1]? =
      some (⟨sampleEmptyKeyed, d.system.now, sampleEmptyKeyed.firstPhase⟩ : Call) := by
    rw [List.getElem?_append_right hone.le, hone]
    rfl
  obtain ⟨record, hrecord, -⟩ := hclaim d _ (run_of_events hd) hstep r (Table.mem_of_get? hr) 1 _ _
    _ hnone hnew rfl ⟨howner, hkey⟩ hfingerprint sampleEmptyKeyed_refused
  cases hrecord

end TaskHarbor
