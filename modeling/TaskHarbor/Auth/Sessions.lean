import TaskHarbor.Auth.Moves
import TaskHarbor.Library.Runs

/-! Runs of the session calls. The state remembers every session that `create_session` returned and
every token whose row was seen revoked; a session is alive from the first until the second or until
its end. The tables follow this, and a session that is dead stays dead. -/
namespace TaskHarbor

open Relational Transaction Runs

/-! ### The machine -/

structure AuthSystem where
  db : AuthDb
  now : ℤ
  /-- The token hash and the answer of every `create_session` that succeeded. -/
  created : List (List UInt8 × SessionRecord)
  /-- The token hashes of the rows that were seen with a `revoked_at`. -/
  revoked : List (List UInt8)

def AuthSystem.initial (now : ℤ) : AuthSystem := ⟨.migrated now, now, [], []⟩

inductive AuthOp where
  | createSession (userId : ℕ) (tokenHash csrfTokenHash : List UInt8) (ttl : ℕ) (sessionId : Uuid)
  | activeSession (tokenHash : List UInt8)
  | rotateSessionCsrf (sessionId : Uuid) (csrfTokenHash : List UInt8)
  | revokeSession (sessionId : Uuid)
  | configureOwner (username passwordHash : String)
  | purgeExpiredSessions
  | tick (now : ℤ)

/-- Time does not go back. -/
def AuthOp.enabled (s : AuthSystem) : AuthOp → Bool
  | .tick now => decide (s.now ≤ now)
  | _ => true

/-- Session tokens never repeat. -/
def AuthOp.Fresh (s : AuthSystem) : AuthOp → Prop
  | .createSession _ tokenHash _ _ _ => tokenHash ∉ s.created.map Prod.fst
  | _ => True

instance (s : AuthSystem) : (op : AuthOp) → Decidable (op.Fresh s)
  | .createSession _ tokenHash _ _ _ => inferInstanceAs (Decidable (tokenHash ∉ _))
  | .activeSession _ | .rotateSessionCsrf _ _ | .revokeSession _ | .configureOwner _ _
  | .purgeExpiredSessions | .tick _ => isTrue trivial

def AuthDb.revokedTokens (db : AuthDb) : List (List UInt8) :=
  (db.sessions.rows.filter fun r => r.revokedAt.isSome).map SessionRow.tokenHash

/-- Run a call on the tables. -/
def AuthSystem.run {α : Type} (s : AuthSystem) (x : AuthCall α) : AuthSystem :=
  let db := (x s.db).2
  { s with db, revoked := db.revokedTokens ++ s.revoked }

def createdSession (tokenHash : List UInt8) :
    Except RepositoryError SessionRecord → List (List UInt8 × SessionRecord)
  | .ok record => [(tokenHash, record)]
  | .error _ => []

def AuthSystem.apply (s : AuthSystem) : AuthOp → AuthSystem
  | .createSession userId tokenHash csrfTokenHash ttl sessionId =>
      let x := createSession userId tokenHash csrfTokenHash ttl sessionId s.now
      { s.run x with created := createdSession tokenHash (x s.db).1 ++ s.created }
  | .activeSession tokenHash => s.run (activeSession tokenHash s.now)
  | .rotateSessionCsrf sessionId csrfTokenHash =>
      s.run (rotateSessionCsrf sessionId csrfTokenHash s.now)
  | .revokeSession sessionId => s.run (revokeSession sessionId s.now)
  | .configureOwner username passwordHash => s.run (configureOwner username passwordHash s.now)
  | .purgeExpiredSessions => s.run (purgeExpiredSessions s.now)
  | .tick now => { s with now }

def AuthSystem.step (s : AuthSystem) (op : AuthOp) : Option AuthSystem :=
  if op.enabled s then some (s.apply op) else none

theorem AuthSystem.step_eq_some {s t : AuthSystem} {op : AuthOp} :
    s.step op = some t ↔ op.enabled s = true ∧ t = s.apply op := by
  unfold AuthSystem.step
  split
  · rename_i h
    simp [h, eq_comm]
  · rename_i h
    simp [h]

/-! ### The invariant -/

/-- The session under a token hash is alive: it was created, was not revoked and is not over. -/
def AuthSystem.Alive (s : AuthSystem) (tokenHash : List UInt8) : Prop :=
  ∃ record, (tokenHash, record) ∈ s.created ∧ tokenHash ∉ s.revoked ∧ s.now < record.expiresAt

structure AuthSystem.Inv (s : AuthSystem) : Prop where
  owner : s.db.Owned
  sound : ∀ r ∈ s.db.sessions, holdsAll r.checks = true ∧ r.userId = ownerUserId ∧
    r.createdAt ≤ s.now
  recorded : ∀ r ∈ s.db.sessions, ∃ record, (r.tokenHash, record) ∈ s.created ∧
    record.id = r.id ∧ record.userId = r.userId ∧ record.expiresAt = r.expiresAt
  owned : ∀ c ∈ s.created, c.1.length = 32 ∧ c.2.userId = ownerUserId
  distinct : (s.created.map Prod.fst).Nodup
  kept : ∀ c ∈ s.created, (∃ r ∈ s.db.sessions, r.tokenHash = c.1) ∨ c.2.expiresAt ≤ s.now ∨
    c.1 ∈ s.revoked
  unique : ∀ r ∈ s.db.sessions, ∀ r' ∈ s.db.sessions, r.tokenHash = r'.tokenHash → r = r'
  shown : ∀ r ∈ s.db.sessions, r.tokenHash ∈ s.revoked ↔ r.revokedAt.isSome = true
  known : ∀ tokenHash ∈ s.revoked, tokenHash ∈ s.created.map Prod.fst

section Invariant

variable {s t : AuthSystem} {op : AuthOp}

theorem mem_revokedTokens {db : AuthDb} {tokenHash : List UInt8} :
    tokenHash ∈ db.revokedTokens ↔
      ∃ r ∈ db.sessions, r.revokedAt.isSome = true ∧ r.tokenHash = tokenHash := by
  simp [AuthDb.revokedTokens, Table.mem_def, and_assoc]

/-- A creation that is recorded. -/
structure AuthSystem.Records (s : AuthSystem) (r : SessionRow) (record : SessionRecord) :
    Prop where
  id : record.id = r.id
  userId : record.userId = r.userId
  expiresAt : record.expiresAt = r.expiresAt
  fresh : r.tokenHash ∉ s.created.map Prod.fst

/-- The state after a call that left `db` and created `created`. -/
def AuthSystem.after (s : AuthSystem) (db : AuthDb)
    (created : List (List UInt8 × SessionRecord)) : AuthSystem :=
  { s with
    db
    created := created ++ s.created
    revoked := db.revokedTokens ++ s.revoked }

variable {db' : AuthDb} {born : Option SessionRow} {created : List (List UInt8 × SessionRecord)}

theorem AuthSystem.Inv.recorded_after (h : s.Inv) (hmoves : s.db.Moves s.now born db')
    (hborn : ∀ r, born = some r → ∃ record, created = [(r.tokenHash, record)] ∧
      s.Records r record) :
    ∀ r ∈ db'.sessions, ∃ record, (r.tokenHash, record) ∈ created ++ s.created ∧
      record.id = r.id ∧ record.userId = r.userId ∧ record.expiresAt = r.expiresAt := by
  intro r' hr'
  rcases hmoves.rows r' hr' with ⟨r, hr, hbecomes⟩ | hnew
  · obtain ⟨record, hmem, hid, huser, hexpires⟩ := h.recorded r hr
    refine ⟨record, ?_, ?_, ?_, ?_⟩
    · rw [hbecomes.tokenHash]
      exact List.mem_append_right _ hmem
    · rw [hid, hbecomes.id]
    · rw [huser, hbecomes.userId]
    · rw [hexpires, hbecomes.expiresAt]
  · obtain ⟨record, rfl, hrecords⟩ := hborn r' hnew
    exact ⟨record, by simp, hrecords.id, hrecords.userId, hrecords.expiresAt⟩

/-- A hash is recorded with one session. -/
theorem AuthSystem.Inv.record_eq (h : s.Inv) {tokenHash : List UInt8} {a b : SessionRecord}
    (ha : (tokenHash, a) ∈ s.created) (hb : (tokenHash, b) ∈ s.created) : a = b :=
  congrArg Prod.snd (List.inj_on_of_nodup_map h.distinct ha hb rfl)

theorem AuthSystem.Inv.unique_after (h : s.Inv) (hmoves : s.db.Moves s.now born db') :
    ∀ r ∈ db'.sessions, ∀ r' ∈ db'.sessions, r.tokenHash = r'.tokenHash → r = r' := by
  intro a ha b hb hsame
  rcases hmoves.rows a ha with ⟨r, hr, hbecomes⟩ | hnew
  · rcases hmoves.rows b hb with ⟨r', hr', hbecomes'⟩ | hnew'
    · rw [hbecomes.tokenHash, hbecomes'.tokenHash] at hsame
      obtain rfl := h.unique r hr r' hr' hsame
      exact Table.key_inj ha hb (hbecomes.id.trans hbecomes'.id.symm)
    · rw [hbecomes.tokenHash] at hsame
      exact absurd hsame ((hmoves.born b hnew').2.fresh r hr)
  · rcases hmoves.rows b hb with ⟨r', hr', hbecomes'⟩ | hnew'
    · rw [hbecomes'.tokenHash] at hsame
      exact absurd hsame.symm ((hmoves.born a hnew).2.fresh r' hr')
    · exact Option.some.inj (hnew.symm.trans hnew')

/-- A call that creates no session keeps the invariant, and so does a creation that is recorded. -/
theorem AuthSystem.Inv.after (h : s.Inv) (hmoves : s.db.Moves s.now born db')
    (hborn : ∀ r, born = some r → ∃ record, created = [(r.tokenHash, record)] ∧
      s.Records r record)
    (hnone : born = none → created = []) : (s.after db' created).Inv := by
  have hrecorded := h.recorded_after hmoves hborn
  have hunique := h.unique_after hmoves
  refine ⟨h.owner.keeps hmoves.users, fun r' hr' => ?_, hrecorded, fun c hc => ?_, ?_,
    fun c hc => ?_, hunique, fun r' hr' => ?_, fun tokenHash hrevoked => ?_⟩
  · rcases hmoves.rows r' hr' with ⟨r, hr, hbecomes⟩ | hnew
    · obtain ⟨hsound, huser, hcreated⟩ := h.sound r hr
      exact ⟨hbecomes.sound hsound, hbecomes.userId.trans huser, hbecomes.createdAt ▸ hcreated⟩
    · have hb := (hmoves.born r' hnew).2
      exact ⟨hb.sound, (h.owner.activeUser _).mp hb.user, hb.createdAt.le⟩
  · rcases List.mem_append.mp hc with hc | hc
    · cases hb : born with
      | none =>
        rw [hnone hb] at hc
        cases hc
      | some r =>
        obtain ⟨record, rfl, hrecords⟩ := hborn r hb
        have hnew := (hmoves.born r hb).2
        rw [List.mem_singleton.mp hc, hrecords.userId]
        exact ⟨SessionRow.token_length hnew.sound, (h.owner.activeUser _).mp hnew.user⟩
    · exact h.owned c hc
  · cases hb : born with
    | none =>
      rw [AuthSystem.after, hnone hb]
      exact h.distinct
    | some r =>
      obtain ⟨record, rfl, hrecords⟩ := hborn r hb
      exact List.nodup_cons.mpr ⟨hrecords.fresh, h.distinct⟩
  · rcases List.mem_append.mp hc with hc | hc
    · cases hb : born with
      | none =>
        rw [hnone hb] at hc
        cases hc
      | some r =>
        obtain ⟨record, rfl, -⟩ := hborn r hb
        rw [List.mem_singleton.mp hc]
        exact Or.inl ⟨r, (hmoves.born r hb).1, rfl⟩
    · rcases h.kept c hc with ⟨r, hr, htoken⟩ | hover | hrevoked
      · rcases hmoves.kept r hr with ⟨r', hr', hbecomes⟩ | hover | hrevoked
        · exact Or.inl ⟨r', hr', hbecomes.tokenHash.trans htoken⟩
        · obtain ⟨record, hmem, -, -, hexpires⟩ := h.recorded r hr
          rw [htoken] at hmem
          rw [h.record_eq hc hmem, hexpires]
          exact Or.inr (Or.inl hover)
        · rw [← htoken]
          exact Or.inr (Or.inr (List.mem_append_right _ ((h.shown r hr).mpr hrevoked)))
      · exact Or.inr (Or.inl hover)
      · exact Or.inr (Or.inr (List.mem_append_right _ hrevoked))
  · constructor
    · intro hrevoked
      rcases List.mem_append.mp hrevoked with hrevoked | hrevoked
      · obtain ⟨r, hr, hsome, htoken⟩ := mem_revokedTokens.mp hrevoked
        rwa [← hunique r hr r' hr' htoken]
      · rcases hmoves.rows r' hr' with ⟨r, hr, hbecomes⟩ | hnew
        · rw [hbecomes.tokenHash, h.shown r hr] at hrevoked
          obtain ⟨t, ht⟩ := Option.isSome_iff_exists.mp hrevoked
          rw [hbecomes.revoked t ht]
          rfl
        · obtain ⟨record, -, hrecords⟩ := hborn r' hnew
          exact absurd (h.known _ hrevoked) hrecords.fresh
    · intro hsome
      exact List.mem_append_left _ (mem_revokedTokens.mpr ⟨r', hr', hsome, rfl⟩)
  · rcases List.mem_append.mp hrevoked with hrevoked | hrevoked
    · obtain ⟨r, hr, -, rfl⟩ := mem_revokedTokens.mp hrevoked
      obtain ⟨record, hmem, -⟩ := hrecorded r hr
      exact List.mem_map_of_mem hmem
    · rw [AuthSystem.after, List.map_append]
      exact List.mem_append_right _ (h.known tokenHash hrevoked)

theorem AuthSystem.Inv.initial (now : ℤ) : (AuthSystem.initial now).Inv where
  owner := ⟨_, rfl, rfl, rfl⟩
  sound := fun r hr => absurd hr (Table.not_mem_empty r)
  recorded := fun r hr => absurd hr (Table.not_mem_empty r)
  owned := nofun
  distinct := List.nodup_nil
  kept := nofun
  unique := fun r hr => absurd hr (Table.not_mem_empty r)
  shown := fun r hr => absurd hr (Table.not_mem_empty r)
  known := nofun

theorem AuthSystem.Inv.tick (h : s.Inv) {now : ℤ} (hnow : s.now ≤ now) :
    AuthSystem.Inv { s with now } := by
  refine ⟨h.owner, fun r hr => ?_, h.recorded, h.owned, h.distinct, fun c hc => ?_, h.unique,
    h.shown, h.known⟩
  · obtain ⟨hsound, huser, hcreated⟩ := h.sound r hr
    exact ⟨hsound, huser, hcreated.trans hnow⟩
  · rcases h.kept c hc with hrow | hover | hrevoked
    · exact Or.inl hrow
    · exact Or.inr (Or.inl (hover.trans hnow))
    · exact Or.inr (Or.inr hrevoked)

/-- What a step does: it lets time pass, or it moves the tables and records what it created. -/
theorem AuthSystem.step_cases (h : s.Inv) (hfresh : op.Fresh s) (hstep : s.step op = some t) :
    (∃ now, s.now ≤ now ∧ t = { s with now }) ∨
    ∃ born created, s.db.Moves s.now born t.db ∧ t = s.after t.db created ∧
      (∀ r, born = some r → ∃ record, created = [(r.tokenHash, record)] ∧ s.Records r record) ∧
      (born = none → created = []) := by
  obtain ⟨henabled, rfl⟩ := AuthSystem.step_eq_some.mp hstep
  have hquiet {α : Type} {x : AuthCall α}
    (hmoves : Session.Moves (AuthDb.Moves s.now none) x s.db) :
      ∃ born created, s.db.Moves s.now born (s.run x).db ∧
        s.run x = s.after (s.run x).db created ∧
        (∀ r, born = some r → ∃ record, created = [(r.tokenHash, record)] ∧ s.Records r record) ∧
        (born = none → created = []) :=
    ⟨none, [], hmoves, rfl, nofun, fun _ => rfl⟩
  cases op with
  | createSession userId tokenHash csrfTokenHash ttl sessionId =>
    right
    rcases createSession_cases userId tokenHash csrfTokenHash ttl sessionId s.now h.owner with
      ⟨row, record, db', rfl, hid, huser, hexpires, hmoves, -, hcall⟩ | ⟨e, hcall⟩
    · refine ⟨some row, [(row.tokenHash, record)], ?_, ?_, ?_, nofun⟩
      · simpa only [AuthSystem.apply, AuthSystem.run, hcall] using hmoves
      · simp only [AuthSystem.apply, AuthSystem.run, AuthSystem.after, hcall, createdSession]
      · rintro r hr
        obtain rfl := Option.some.inj hr
        exact ⟨record, rfl, hid, huser, hexpires, hfresh⟩
    · refine ⟨none, [], ?_, ?_, nofun, fun _ => rfl⟩
      · simpa only [AuthSystem.apply, AuthSystem.run, hcall] using AuthDb.Moves.refl s.now s.db
      · simp only [AuthSystem.apply, AuthSystem.run, AuthSystem.after, hcall, createdSession]
  | activeSession tokenHash => exact Or.inr (hquiet (AuthDb.Touches.moves activeSession_touches))
  | rotateSessionCsrf sessionId csrfTokenHash =>
    exact Or.inr (hquiet (AuthDb.Touches.moves rotateSessionCsrf_touches))
  | revokeSession sessionId => exact Or.inr (hquiet (AuthDb.Touches.moves revokeSession_touches))
  | configureOwner username passwordHash => exact Or.inr (hquiet configureOwner_moves)
  | purgeExpiredSessions =>
    exact Or.inr (hquiet (AuthDb.Touches.moves purgeExpiredSessions_touches))
  | tick now => exact Or.inl ⟨now, of_decide_eq_true henabled, rfl⟩

theorem AuthSystem.Inv.step (h : s.Inv) (hfresh : op.Fresh s) (hstep : s.step op = some t) :
    t.Inv := by
  rcases AuthSystem.step_cases h hfresh hstep with
    ⟨now, hnow, rfl⟩ | ⟨born, created, hmoves, ht, hborn, hnone⟩
  · exact h.tick hnow
  · rw [ht]
    exact h.after hmoves hborn hnone

theorem AuthSystem.Inv.run (h : s.Inv) (hrun : Run AuthSystem.step AuthOp.Fresh s t) : t.Inv :=
  hrun.invariant (fun _ _ _ h hfresh hstep => h.step hfresh hstep) h

/-- The records and the clock only go on. -/
structure AuthSystem.Grows (s t : AuthSystem) : Prop where
  created : s.created ⊆ t.created
  revoked : s.revoked ⊆ t.revoked
  now : s.now ≤ t.now

theorem AuthSystem.run_grows (h : s.Inv) (hrun : Run AuthSystem.step AuthOp.Fresh s t) :
    s.Grows t := by
  refine hrun.related (P := AuthSystem.Inv) (fun s => ⟨List.Subset.refl _, List.Subset.refl _,
    le_rfl⟩) (fun _ _ _ h h' => ⟨List.Subset.trans h.created h'.created,
    List.Subset.trans h.revoked h'.revoked, h.now.trans h'.now⟩) ?_ h
  intro u op v h hfresh hstep
  refine ⟨h.step hfresh hstep, ?_⟩
  rcases AuthSystem.step_cases h hfresh hstep with
    ⟨now, hnow, rfl⟩ | ⟨born, created, -, hv, -, -⟩
  · exact ⟨List.Subset.refl _, List.Subset.refl _, hnow⟩
  · rw [hv]
    exact ⟨List.subset_append_right _ _, List.subset_append_right _ _, le_rfl⟩

/-- A session that is dead stays dead. -/
theorem AuthSystem.Inv.dead (h : s.Inv) (hrun : Run AuthSystem.step AuthOp.Fresh s t)
    {tokenHash : List UInt8} (hknown : tokenHash ∈ s.created.map Prod.fst)
    (hdead : ¬s.Alive tokenHash) : ¬t.Alive tokenHash := by
  rintro ⟨record, hmem, hrevoked, hlive⟩
  obtain ⟨⟨_, record'⟩, hmem', rfl⟩ := List.mem_map.mp hknown
  have hgrows := AuthSystem.run_grows h hrun
  obtain rfl := (h.run hrun).record_eq hmem (hgrows.created hmem')
  exact hdead ⟨record, hmem', fun hold => hrevoked (hgrows.revoked hold),
    lt_of_le_of_lt hgrows.now hlive⟩

/-! ### Answers -/

/-- The rows that `active_session` finds are those of an alive session. -/
theorem AuthSystem.Inv.alive_iff (h : s.Inv) {tokenHash : List UInt8} :
    s.Alive tokenHash ↔ ∃ r ∈ s.db.sessions, r.isLive s.db tokenHash s.now = true := by
  have hlive {r : SessionRow} (hr : r ∈ s.db.sessions) :
      r.isLive s.db tokenHash s.now = true ↔
        r.tokenHash = tokenHash ∧ r.revokedAt = none ∧ s.now < r.expiresAt := by
    have huser := (h.owner.activeUser r.userId).mpr (h.sound r hr).2.1
    simp [SessionRow.isLive, huser, and_assoc]
  constructor
  · rintro ⟨record, hmem, hrevoked, hlater⟩
    rcases h.kept _ hmem with ⟨r, hr, htoken⟩ | hover | hold
    · obtain ⟨record', hmem', -, -, hexpires⟩ := h.recorded r hr
      rw [htoken] at hmem'
      rw [h.record_eq hmem hmem', hexpires] at hlater
      refine ⟨r, hr, (hlive hr).mpr ⟨htoken, ?_, hlater⟩⟩
      rw [← Option.not_isSome_iff_eq_none, ← h.shown r hr, htoken]
      exact hrevoked
    · exact absurd hlater (not_lt.mpr hover)
    · exact absurd hold hrevoked
  · rintro ⟨r, hr, hguard⟩
    obtain ⟨rfl, hnone, hlater⟩ := (hlive hr).mp hguard
    obtain ⟨record, hmem, -, -, hexpires⟩ := h.recorded r hr
    refine ⟨record, hmem, ?_, hexpires ▸ hlater⟩
    rw [h.shown r hr, hnone]
    decide

theorem SessionRow.seen_checks {r : SessionRow} {now : ℤ} (h : holdsAll r.checks = true)
    (hnow : r.createdAt ≤ now) : holdsAll { r with lastSeenAt := now }.checks = true := by
  simp only [holdsAll, SessionRow.checks, List.all_cons, List.all_nil, Bool.and_eq_true,
    Bool.and_true] at h ⊢
  exact ⟨h.1, h.2.1, h.2.2.1, decide_eq_true hnow, h.2.2.2.2⟩

theorem AuthSystem.Inv.activeSessionTx_ok (h : s.Inv) (tokenHash : List UInt8) :
    ∃ db', activeSessionTx tokenHash s.now s.db =
      .ok ((s.db.sessions.rows.find? (SessionRow.isLive s.db tokenHash s.now)).bind fun r =>
        (activeUser s.db r.userId).map fun account => (r, account.username), db') := by
  have hsound : ∀ r ∈ s.db.sessions, SessionRow.isLive s.db tokenHash s.now r = true →
      holdsAll ({ r with lastSeenAt := s.now } : SessionRow).checks = true :=
    fun r hr _ => SessionRow.seen_checks (h.sound r hr).1 (h.sound r hr).2.2
  obtain ⟨n, db', hupdate⟩ : ∃ n db', updateSessions (SessionRow.isLive s.db tokenHash s.now)
      (fun r => { r with lastSeenAt := s.now }) (fun _ => rfl) s.db = .ok (n, db') :=
    ⟨_, _, updateSessions_ok.mpr ⟨hsound, rfl, rfl⟩⟩
  exact ⟨db', Tx.bind_ok.mpr ⟨s.db, s.db, rfl, Tx.bind_ok.mpr ⟨n, db', hupdate, rfl⟩⟩⟩

theorem activeSession_run {tokenHash : List UInt8} {now : ℤ} {db db' : AuthDb}
    {row : Option (SessionRow × String)} (hlength : tokenHash.length = 32)
    (htx : activeSessionTx tokenHash now db = .ok (row, db')) :
    (activeSession tokenHash now db).1 =
      row.elim (.ok none) fun row => (SessionRecord.tryFrom row).map some := by
  have hvalid : validateDigest tokenHash "session token" = .ok () := if_pos hlength
  unfold activeSession
  rw [Session.bind_run, Session.liftExcept_run, hvalid]
  simp only
  rw [Session.commit_bind_ok htx]
  cases row with
  | none => rfl
  | some row =>
    simp only [Session.bind_run, Session.liftExcept_run, Option.elim_some]
    cases SessionRecord.tryFrom row <;> rfl

/-- `active_session` answers with the session that was created, while it is alive. -/
theorem AuthSystem.Inv.activeSession_answer (h : s.Inv) {tokenHash : List UInt8}
    (hlength : tokenHash.length = 32) :
    (s.Alive tokenHash → ∃ record found, (tokenHash, record) ∈ s.created ∧
      (activeSession tokenHash s.now s.db).1 = .ok (some found) ∧ found.id = record.id ∧
      found.userId = record.userId ∧ found.expiresAt = record.expiresAt) ∧
    (¬s.Alive tokenHash → (activeSession tokenHash s.now s.db).1 = .ok none) := by
  obtain ⟨db', htx⟩ := h.activeSessionTx_ok tokenHash
  rw [activeSession_run hlength htx]
  constructor
  · intro halive
    obtain ⟨r₀, hr₀, hguard₀⟩ := h.alive_iff.mp halive
    cases hfind : s.db.sessions.rows.find? (SessionRow.isLive s.db tokenHash s.now) with
    | none => exact absurd hguard₀ (List.find?_eq_none.mp hfind r₀ hr₀)
    | some r =>
      have hr : r ∈ s.db.sessions := List.mem_of_find?_eq_some hfind
      have hguard := List.find?_some hfind
      obtain ⟨hsound, huser, -⟩ := h.sound r hr
      obtain ⟨account, haccount⟩ :=
        Option.isSome_iff_exists.mp ((h.owner.activeUser r.userId).mpr huser)
      obtain ⟨record, hmem, hid, hrecorded, hexpires⟩ := h.recorded r hr
      have htoken : r.tokenHash = tokenHash := by
        simp only [SessionRow.isLive, Bool.and_eq_true, beq_iff_eq] at hguard
        exact hguard.1.1.1
      have hpositive : r.userId ≠ 0 := by
        rw [huser]
        decide
      rw [htoken] at hmem
      refine ⟨record, ⟨r.id, r.userId, account.username, r.csrfTokenHash, r.expiresAt⟩, hmem, ?_,
        hid.symm, hrecorded.symm, hexpires.symm⟩
      rw [Option.bind_some, haccount, Option.map_some, Option.elim_some,
        SessionRecord.tryFrom_ok (SessionRow.csrf_length hsound) hpositive]
      rfl
  · intro hdead
    have hfind : s.db.sessions.rows.find? (SessionRow.isLive s.db tokenHash s.now) = none := by
      refine List.find?_eq_none.mpr fun r hr hguard => hdead ?_
      exact h.alive_iff.mpr ⟨r, hr, hguard⟩
    rw [hfind]
    rfl

/-! ### Rows and the owner -/

/-- The rows of one token in two successive states: the same end, and a revocation stays. -/
theorem AuthSystem.Inv.row_kept (h : s.Inv) (hfresh : op.Fresh s) (hstep : s.step op = some t)
    {r r' : SessionRow} (hr : r ∈ s.db.sessions) (hr' : r' ∈ t.db.sessions)
    (htoken : r'.tokenHash = r.tokenHash) :
    r'.expiresAt = r.expiresAt ∧ ∀ at', r.revokedAt = some at' → r'.revokedAt = some at' := by
  rcases AuthSystem.step_cases h hfresh hstep with
    ⟨now, -, rfl⟩ | ⟨born, created, hmoves, -, -, -⟩
  · obtain rfl := h.unique r' hr' r hr htoken
    exact ⟨rfl, fun _ hrevoked => hrevoked⟩
  · rcases hmoves.rows r' hr' with ⟨r₀, hr₀, hbecomes⟩ | hnew
    · obtain rfl := h.unique r₀ hr₀ r hr (hbecomes.tokenHash.symm.trans htoken)
      exact ⟨hbecomes.expiresAt, hbecomes.revoked⟩
    · exact absurd htoken.symm ((hmoves.born r' hnew).2.fresh r hr)

/-- A changed name or password ends every session of the owner. -/
theorem AuthSystem.Inv.configured (h : s.Inv) {username passwordHash : String}
    {credentials : UserCredentials} {previous : UserRow}
    (hcall : (configureOwner username passwordHash s.now s.db).1 = .ok credentials)
    (hprevious : s.db.users.get? ownerUserId = some previous)
    (hchanged : previous.username ≠ username ∨ previous.passwordHash ≠ passwordHash) :
    ∀ tokenHash, ¬(s.apply (.configureOwner username passwordHash)).Alive tokenHash := by
  obtain ⟨updated, htx⟩ : ∃ updated, configureOwnerTx username passwordHash s.now s.db =
      .ok (updated, (configureOwner username passwordHash s.now s.db).2) :=
    configureOwner_ok (Prod.ext hcall rfl)
  obtain ⟨previous', hconfigures⟩ := configureOwnerTx_ok htx
  obtain rfl := Option.some.inj (hprevious.symm.trans hconfigures.stored)
  have hfresh : (AuthOp.configureOwner username passwordHash).Fresh s := trivial
  have hinv := h.step hfresh (AuthSystem.step_eq_some.mpr ⟨rfl, rfl⟩)
  intro tokenHash halive
  obtain ⟨r, hr, hguard⟩ := hinv.alive_iff.mp halive
  have hrevoked := hconfigures.revokes hchanged r hr (hinv.sound r hr).2.1
  simp only [SessionRow.isLive, Bool.and_eq_true] at hguard
  rw [Option.isSome_iff_ne_none] at hrevoked
  exact hrevoked (Option.isNone_iff_eq_none.mp hguard.1.2)

theorem AuthSystem.Inv.alive_length (h : s.Inv) {tokenHash : List UInt8}
    (halive : s.Alive tokenHash) : tokenHash.length = 32 := by
  obtain ⟨r, hr, hguard⟩ := h.alive_iff.mp halive
  simp only [SessionRow.isLive, Bool.and_eq_true, beq_iff_eq] at hguard
  rw [← hguard.1.1.1]
  exact SessionRow.token_length (h.sound r hr).1

theorem AuthSystem.Inv.activeSession_iff (h : s.Inv) {tokenHash : List UInt8} :
    (∃ found, (activeSession tokenHash s.now s.db).1 = .ok (some found)) ↔ s.Alive tokenHash := by
  constructor
  · rintro ⟨found, hfound⟩
    by_contra hdead
    by_cases hlength : tokenHash.length = 32
    · rw [(h.activeSession_answer hlength).2 hdead] at hfound
      cases hfound
    · have hinvalid : validateDigest tokenHash "session token" = .error _ := if_neg hlength
      unfold activeSession at hfound
      rw [Session.bind_run, Session.liftExcept_run, hinvalid] at hfound
      cases hfound
  · intro halive
    obtain ⟨record, found, -, hfound, -⟩ :=
      (h.activeSession_answer (h.alive_length halive)).1 halive
    exact ⟨found, hfound⟩

/-- The hashes of sessions are digests. -/
theorem AuthSystem.Inv.activeSession_none (h : s.Inv) {tokenHash : List UInt8}
    (hlength : tokenHash.length = 32) :
    (activeSession tokenHash s.now s.db).1 = .ok none ↔ ¬s.Alive tokenHash := by
  constructor
  · intro hnone halive
    obtain ⟨found, hfound⟩ := h.activeSession_iff.mpr halive
    rw [hnone] at hfound
    cases hfound
  · exact (h.activeSession_answer hlength).2

end Invariant

/-- Dead sessions stay dead: in every run with fresh tokens `active_session` finds exactly the
sessions that were created for an active user, not revoked and not over; none comes back, none ends
later than it was created for, and a change of the owner's name or password ends all of his. -/
theorem dead_sessions_stay_dead {s : AuthSystem} {start : ℤ}
    (hrun : Run AuthSystem.step AuthOp.Fresh (.initial start) s) :
    (∀ tokenHash, (∃ found, (activeSession tokenHash s.now s.db).1 = .ok (some found)) ↔
      ∃ record, (tokenHash, record) ∈ s.created ∧ tokenHash ∉ s.revoked ∧
        s.now < record.expiresAt) ∧
    (∀ c ∈ s.created, c.1.length = 32 ∧ (activeUser s.db c.2.userId).isSome = true) ∧
    (∀ tokenHash ∈ s.created.map Prod.fst, (activeSession tokenHash s.now s.db).1 = .ok none →
      ∀ t, Run AuthSystem.step AuthOp.Fresh s t →
        (activeSession tokenHash t.now t.db).1 = .ok none) ∧
    (∀ op t, op.Fresh s → s.step op = some t → ∀ r ∈ s.db.sessions, ∀ r' ∈ t.db.sessions,
      r'.tokenHash = r.tokenHash → r'.expiresAt = r.expiresAt ∧
        ∀ at', r.revokedAt = some at' → r'.revokedAt = some at') ∧
    ∀ username passwordHash credentials previous,
      (configureOwner username passwordHash s.now s.db).1 = .ok credentials →
      s.db.users.get? ownerUserId = some previous →
      (previous.username ≠ username ∨ previous.passwordHash ≠ passwordHash) →
      ∀ tokenHash ∈ s.created.map Prod.fst,
        (activeSession tokenHash s.now (configureOwner username passwordHash s.now s.db).2).1 =
          .ok none := by
  have hinv := (AuthSystem.Inv.initial start).run hrun
  have hdigest : ∀ tokenHash ∈ s.created.map Prod.fst, tokenHash.length = 32 := by
    intro tokenHash hknown
    obtain ⟨c, hc, rfl⟩ := List.mem_map.mp hknown
    exact (hinv.owned c hc).1
  refine ⟨fun _ => hinv.activeSession_iff, fun c hc => ?_, ?_, ?_, ?_⟩
  · exact ⟨(hinv.owned c hc).1, (hinv.owner.activeUser _).mpr (hinv.owned c hc).2⟩
  · intro tokenHash hknown hnone t ht
    have hlength := hdigest tokenHash hknown
    have hdead := (hinv.activeSession_none hlength).mp hnone
    exact ((hinv.run ht).activeSession_none hlength).mpr (hinv.dead ht hknown hdead)
  · intro op t hfresh hstep r hr r' hr' htoken
    exact hinv.row_kept hfresh hstep hr hr' htoken
  · intro username passwordHash credentials previous hcall hprevious hchanged tokenHash hknown
    have hstep : s.step (.configureOwner username passwordHash) =
        some (s.apply (.configureOwner username passwordHash)) :=
      AuthSystem.step_eq_some.mpr ⟨rfl, rfl⟩
    have hfresh : (AuthOp.configureOwner username passwordHash).Fresh s := trivial
    have hnext := hinv.step hfresh hstep
    exact (hnext.activeSession_none (hdigest tokenHash hknown)).mpr
      (hinv.configured hcall hprevious hchanged tokenHash)

/-! A session, its revocation by a changed password, and a purge when it is over. -/

def sampleToken : List UInt8 := List.replicate 32 7

def sampleSessionOps : List AuthOp :=
  [.configureOwner "owner" "first", .createSession 1 sampleToken sampleToken minSessionTtl 9,
    .activeSession sampleToken, .configureOwner "owner" "second", .tick (seconds 300),
    .purgeExpiredSessions]

theorem dead_sessions_stay_dead_changed : ∃ s : AuthSystem,
    Run AuthSystem.step AuthOp.Fresh (.initial 0) s ∧ s.created.map Prod.fst = [sampleToken] ∧
    ¬∃ found, (activeSession sampleToken s.now s.db).1 = .ok (some found) := by
  have hrun : (exec (guarded AuthSystem.step fun s op => decide (op.Fresh s))
      (AuthSystem.initial 0) sampleSessionOps).any (fun s =>
        decide (s.created.map Prod.fst = [sampleToken]) && s.revoked.contains sampleToken) =
      true := by
    decide +kernel
  obtain ⟨s, hexec, htests⟩ := (Option.any_eq_true _ _).mp hrun
  simp only [Bool.and_eq_true, decide_eq_true_eq, List.contains_iff_mem] at htests
  have hfresh : Run AuthSystem.step AuthOp.Fresh (.initial 0) s :=
    run_of_guarded (fun _ _ => of_decide_eq_true) hexec
  refine ⟨s, hfresh, htests.1, fun hfound => ?_⟩
  obtain ⟨record, -, hlive, -⟩ := ((dead_sessions_stay_dead hfresh).1 sampleToken).mp hfound
  exact hlive htests.2

end TaskHarbor
