import TaskHarbor.Database.Statements
import TaskHarbor.Repository.Auth

/-! What a call on the accounts and sessions may do to the two tables: a session row keeps its
identity, its end and its revocation, a new row has a fresh token, and a row that goes is over or
revoked. -/
namespace TaskHarbor

open Relational Transaction

/-- What later states show of a session row. -/
structure SessionRow.Becomes (r r' : SessionRow) : Prop where
  id : r'.id = r.id
  userId : r'.userId = r.userId
  tokenHash : r'.tokenHash = r.tokenHash
  createdAt : r'.createdAt = r.createdAt
  expiresAt : r'.expiresAt = r.expiresAt
  revoked : ∀ t, r.revokedAt = some t → r'.revokedAt = some t
  sound : holdsAll r.checks = true → holdsAll r'.checks = true

theorem SessionRow.Becomes.refl (r : SessionRow) : r.Becomes r :=
  ⟨rfl, rfl, rfl, rfl, rfl, fun _ h => h, fun h => h⟩

/-- A row that `create_session` inserts at `now`. -/
structure SessionRow.Born (now : ℤ) (db : AuthDb) (r : SessionRow) : Prop where
  user : (activeUser db r.userId).isSome = true
  createdAt : r.createdAt = now
  unrevoked : r.revokedAt = none
  sound : holdsAll r.checks = true
  fresh : ∀ s ∈ db.sessions, s.tokenHash ≠ r.tokenHash

/-- The owner's row changes its name and its password, nothing else does. -/
def AuthDb.KeepsUsers (db db' : AuthDb) : Prop :=
  db'.users = db.users ∨ ∃ u u', db.users.get? ownerUserId = some u ∧ u'.id = u.id ∧
    u'.isActive = u.isActive ∧ db'.users = db.users.put u'

/-- The owner is the only account. -/
def AuthDb.Owned (db : AuthDb) : Prop :=
  ∃ u, db.users.rows = [u] ∧ u.id = ownerUserId ∧ u.isActive = true

structure AuthDb.Moves (now : ℤ) (born : Option SessionRow) (db db' : AuthDb) : Prop where
  users : db.KeepsUsers db'
  rows : ∀ r' ∈ db'.sessions, (∃ r ∈ db.sessions, r.Becomes r') ∨ born = some r'
  kept : ∀ r ∈ db.sessions, (∃ r' ∈ db'.sessions, r.Becomes r') ∨ r.expiresAt ≤ now ∨
    r.revokedAt.isSome = true
  born : ∀ r, born = some r → r ∈ db'.sessions ∧ r.Born now db

/-- No row is new, and the account stays as it is. -/
structure AuthDb.Touches (now : ℤ) (db db' : AuthDb) : Prop where
  moves : db.Moves now none db'
  users : db'.users = db.users

section Moves

variable {now : ℤ} {db db' : AuthDb}

theorem AuthDb.Moves.refl (now : ℤ) (db : AuthDb) : db.Moves now none db where
  users := Or.inl rfl
  rows := fun r hr => Or.inl ⟨r, hr, .refl r⟩
  kept := fun r hr => Or.inl ⟨r, hr, .refl r⟩
  born := nofun

theorem AuthDb.Touches.refl (now : ℤ) (db : AuthDb) : db.Touches now db := ⟨.refl now db, rfl⟩

/-! ### The account -/

theorem AuthDb.Owned.activeUser (h : db.Owned) (id : ℕ) :
    (activeUser db id).isSome = true ↔ id = ownerUserId := by
  obtain ⟨u, hrows, hid, hactive⟩ := h
  unfold TaskHarbor.activeUser Table.get?
  rw [hrows]
  by_cases hkey : u.id = id
  · simp [hkey, hactive, ← hid]
  · have hne : id ≠ ownerUserId := fun he => hkey (hid.trans he.symm)
    simp [hkey, hne]

theorem AuthDb.Owned.id_ne_zero (h : db.Owned) {id : ℕ} {account : UserRow}
    (haccount : TaskHarbor.activeUser db id = some account) : account.id ≠ 0 := by
  have hid := (h.activeUser id).mp (by rw [haccount]; rfl)
  have hkey : account.id = id := Table.key_of_get? (Option.filter_eq_some_iff.mp haccount).1
  rw [hkey, hid]
  decide

theorem AuthDb.Owned.keeps (h : db.Owned) (husers : db.KeepsUsers db') : db'.Owned := by
  obtain ⟨u, hrows, hid, hactive⟩ := h
  rcases husers with hsame | ⟨v, v', hget, hkey, hsame, hput⟩
  · exact ⟨u, by rw [hsame, hrows], hid, hactive⟩
  · have hv : v ∈ db.users.rows := Table.mem_of_get? hget
    rw [hrows, List.mem_singleton] at hv
    subst hv
    have hrows' : (db.users.put v').rows =
        db.users.rows.map fun r => if Keyed.key r = Keyed.key v' then v' else r := rfl
    refine ⟨v', ?_, hkey.trans hid, hsame.trans hactive⟩
    rw [hput, hrows', hrows]
    simp [hkey]

/-! ### Updates -/

theorem updateSessions_ok {p : SessionRow → Bool} {f : SessionRow → SessionRow} {hf} {n : ℕ} :
    updateSessions p f hf db = .ok (n, db') ↔
      (∀ r ∈ db.sessions, p r = true → holdsAll (f r).checks = true) ∧
        n = db.sessions.count p ∧ db' = { db with sessions := db.sessions.update p f hf } := by
  have hchecks : holdsAll ((db.sessions.rows.filter p).flatMap fun r => (f r).checks) = true ↔
      ∀ r ∈ db.sessions, p r = true → holdsAll (f r).checks = true := by
    unfold holdsAll
    simp only [List.all_eq_true, List.mem_flatMap, List.mem_filter, Table.mem_def]
    constructor
    · intro h r hr hp c hc
      exact h c ⟨r, ⟨hr, hp⟩, hc⟩
    · rintro h c ⟨r, ⟨hr, hp⟩, hc⟩
      exact h r hr hp c hc
  unfold updateSessions
  simp only [except_bind_ok, enforce_ok_iff, except_pure_ok, Prod.mk.injEq, hchecks]
  constructor
  · rintro ⟨u, h, rfl, rfl⟩
    exact ⟨h, rfl, rfl⟩
  · rintro ⟨h, rfl, rfl⟩
    exact ⟨(), h, rfl, rfl⟩

theorem updateSessions_rows {p : SessionRow → Bool} {f : SessionRow → SessionRow} {hf} {n : ℕ}
    (h : updateSessions p f hf db = .ok (n, db')) :
    ∀ r ∈ db'.sessions, ∃ s ∈ db.sessions, r = if p s then f s else s := by
  obtain ⟨-, -, rfl⟩ := updateSessions_ok.mp h
  intro r hr
  have hmem : r ∈ db.sessions.update p f hf := hr
  exact Table.mem_update.mp hmem

/-- The columns that an UPDATE of the sessions may write. -/
structure KeepsSession (f : SessionRow → SessionRow) : Prop where
  id : ∀ r, (f r).id = r.id
  userId : ∀ r, (f r).userId = r.userId
  tokenHash : ∀ r, (f r).tokenHash = r.tokenHash
  createdAt : ∀ r, (f r).createdAt = r.createdAt
  expiresAt : ∀ r, (f r).expiresAt = r.expiresAt
  revoked : ∀ r t, r.revokedAt = some t → (f r).revokedAt = some t

theorem KeepsSession.revoked_at (now : ℤ) : KeepsSession (SessionRow.revoked now) := by
  refine ⟨fun _ => rfl, fun _ => rfl, fun _ => rfl, fun _ => rfl, fun _ => rfl, fun r t h => ?_⟩
  unfold SessionRow.revoked
  rw [h]
  rfl

/-- Every row of an updated table comes from one of the old table, and every old row is there. -/
theorem update_becomes {p : SessionRow → Bool} {f : SessionRow → SessionRow} (hf)
    (hkeeps : KeepsSession f)
    (hsound : ∀ r ∈ db.sessions, p r = true → holdsAll (f r).checks = true) :
    (∀ r' ∈ db.sessions.update p f hf, ∃ r ∈ db.sessions, r.Becomes r') ∧
      ∀ r ∈ db.sessions, ∃ r' ∈ db.sessions.update p f hf, r.Becomes r' := by
  have hrow (r : SessionRow) (hr : r ∈ db.sessions) : r.Becomes (if p r then f r else r) := by
    cases hp : p r with
    | false => exact .refl r
    | true =>
      exact ⟨hkeeps.id r, hkeeps.userId r, hkeeps.tokenHash r, hkeeps.createdAt r,
        hkeeps.expiresAt r, hkeeps.revoked r, fun _ => hsound r hr hp⟩
  constructor
  · intro r' hr'
    obtain ⟨r, hr, rfl⟩ := Table.mem_update.mp hr'
    exact ⟨r, hr, hrow r hr⟩
  · exact fun r hr => ⟨_, Table.mem_update.mpr ⟨r, hr, rfl⟩, hrow r hr⟩

theorem updateSessions_touches {p : SessionRow → Bool} {f : SessionRow → SessionRow} {hf} {n : ℕ}
    (hkeeps : KeepsSession f) (h : updateSessions p f hf db = .ok (n, db')) :
    db.Touches now db' := by
  obtain ⟨hsound, -, rfl⟩ := updateSessions_ok.mp h
  obtain ⟨hrows, hkept⟩ := update_becomes hf hkeeps hsound
  exact ⟨⟨Or.inl rfl, fun r hr => Or.inl (hrows r hr), fun r hr => Or.inl (hkept r hr), nofun⟩, rfl⟩

/-! ### Calls -/

/-- Nothing happens, or an UPDATE of the sessions. -/
def AuthDb.Updates (p : SessionRow → Bool) (f : SessionRow → SessionRow)
    (hf : ∀ r, Keyed.key (f r) = Keyed.key r) (db db' : AuthDb) : Prop :=
  db' = db ∨ ∃ n, updateSessions p f hf db = .ok (n, db')

theorem AuthDb.Updates.touches {p : SessionRow → Bool} {f : SessionRow → SessionRow} {hf}
    (hkeeps : KeepsSession f) (h : db.Updates p f hf db') : db.Touches now db' := by
  rcases h with rfl | ⟨n, hupdate⟩
  · exact .refl now _
  · exact updateSessions_touches hkeeps hupdate

theorem activeSession_updates {tokenHash : List UInt8} :
    Session.Moves (AuthDb.Updates (SessionRow.isLive db tokenHash now)
      (fun r => { r with lastSeenAt := now }) (by intro r; rfl))
      (activeSession tokenHash now) db := by
  refine Session.moves_lift_bind (Or.inl rfl) fun _ _ => ?_
  refine Session.moves_bind_read (Session.moves_commit (Or.inl rfl) ?_) ?_
  · intro row db' h
    unfold activeSessionTx at h
    simp only [Tx.bind_ok, Tx.get_run, Tx.pure_run, Except.ok.injEq, Prod.mk.injEq] at h
    obtain ⟨_, _, ⟨rfl, rfl⟩, n, db₁, hupdate, -, rfl⟩ := h
    exact Or.inr ⟨n, hupdate⟩
  · rintro (_ | row) db'
    · rfl
    · simp only [Session.bind_run, Session.liftExcept_run]
      cases SessionRecord.tryFrom row <;> rfl

theorem revokeSession_updates {sessionId : Uuid} :
    Session.Moves (AuthDb.Updates (fun r => r.id == sessionId) (SessionRow.revoked now)
      (by intro r; rfl)) (revokeSession sessionId now) db := by
  refine Session.moves_commit (Or.inl rfl) fun u db' h => ?_
  obtain ⟨n, db₁, hupdate, hcount⟩ := Tx.bind_ok.mp h
  obtain ⟨-, rfl⟩ := Tx.liftExcept_ok.mp hcount
  exact Or.inr ⟨n, hupdate⟩

theorem rotateSessionCsrf_updates {sessionId : Uuid} {csrfTokenHash : List UInt8} :
    Session.Moves (AuthDb.Updates
      (fun r => r.id == sessionId && r.revokedAt.isNone && decide (now < r.expiresAt))
      (fun r => { r with csrfTokenHash, lastSeenAt := now }) (by intro r; rfl))
      (rotateSessionCsrf sessionId csrfTokenHash now) db := by
  refine Session.moves_lift_bind (Or.inl rfl) fun _ _ => ?_
  refine Session.moves_commit (Or.inl rfl) fun u db' h => ?_
  obtain ⟨n, db₁, hupdate, hcount⟩ := Tx.bind_ok.mp h
  obtain ⟨-, rfl⟩ := Tx.liftExcept_ok.mp hcount
  exact Or.inr ⟨n, hupdate⟩

theorem activeSession_touches {tokenHash : List UInt8} :
    Session.Moves (AuthDb.Touches now) (activeSession tokenHash now) db := by
  refine AuthDb.Updates.touches ?_ activeSession_updates
  exact ⟨fun _ => rfl, fun _ => rfl, fun _ => rfl, fun _ => rfl, fun _ => rfl, fun _ _ h => h⟩

theorem revokeSession_touches {sessionId : Uuid} :
    Session.Moves (AuthDb.Touches now) (revokeSession sessionId now) db :=
  AuthDb.Updates.touches (.revoked_at now) revokeSession_updates

theorem rotateSessionCsrf_touches {sessionId : Uuid} {csrfTokenHash : List UInt8} :
    Session.Moves (AuthDb.Touches now) (rotateSessionCsrf sessionId csrfTokenHash now) db := by
  refine AuthDb.Updates.touches ?_ rotateSessionCsrf_updates
  exact ⟨fun _ => rfl, fun _ => rfl, fun _ => rfl, fun _ => rfl, fun _ => rfl, fun _ _ h => h⟩

theorem purgeExpiredSessions_touches :
    Session.Moves (AuthDb.Touches now) (purgeExpiredSessions now) db := by
  refine Session.moves_commit (.refl now db) fun n db' h => ?_
  cases h
  refine ⟨⟨Or.inl rfl, fun r hr => Or.inl ⟨r, (Table.mem_delete.mp hr).1, .refl r⟩, ?_, nofun⟩,
    rfl⟩
  intro r hr
  cases hgone : r.purgeable now with
  | false => exact Or.inl ⟨r, Table.mem_delete.mpr ⟨hr, hgone⟩, .refl r⟩
  | true =>
    unfold SessionRow.purgeable at hgone
    rw [Bool.or_eq_true, decide_eq_true_eq] at hgone
    rcases hgone with hover | hrevoked
    · exact Or.inr (Or.inl hover)
    · obtain ⟨t, ht, -⟩ := (Option.any_eq_true _ _).mp hrevoked
      rw [ht]
      exact Or.inr (Or.inr rfl)

/-! ### The owner -/

/-- What `configure_owner` leaves: the owner's new row, and with a changed name or password the
revocation of all his sessions. -/
structure Configures (username passwordHash : String) (now : ℤ) (db : AuthDb)
    (previous updated : UserRow) (db' : AuthDb) : Prop where
  stored : db.users.get? ownerUserId = some previous
  id : updated.id = previous.id
  isActive : updated.isActive = previous.isActive
  stores : updated.passwordHash = passwordHash
  users : db'.users = db.users.put updated
  same : previous.username = username → previous.passwordHash = passwordHash →
    db'.sessions = db.sessions
  changed : previous.username ≠ username ∨ previous.passwordHash ≠ passwordHash →
    ∃ n, updateSessions (fun r => r.userId == ownerUserId && r.revokedAt.isNone)
      (SessionRow.revoked now) (by intro r; rfl) { db with users := db'.users } = .ok (n, db')

theorem configureOwnerTx_ok {username passwordHash : String} {updated : UserRow}
    (h : configureOwnerTx username passwordHash now db = .ok (updated, db')) :
    ∃ previous, Configures username passwordHash now db previous updated db' := by
  unfold configureOwnerTx at h
  obtain ⟨_, _, hget, h⟩ := Tx.bind_ok.mp h
  cases hget
  cases hprevious : db.users.get? ownerUserId with
  | none =>
    rw [hprevious] at h
    cases h
  | some previous =>
    simp only [hprevious, Tx.bind_ok, Tx.liftExcept_ok, textParam_ok] at h
    obtain ⟨storedName, _, ⟨-, rfl⟩, _, _, ⟨⟨-, rfl⟩, rfl⟩, _, _, ⟨-, rfl⟩, _, _, hget, h⟩ := h
    cases hget
    split at h
    · cases h
    obtain ⟨_, db₁, hmodify, h⟩ := Tx.bind_ok.mp h
    cases hmodify
    refine ⟨previous, ?_⟩
    split at h
    · rename_i hchanged
      obtain ⟨n, db₂, hupdate, hend⟩ := Tx.bind_ok.mp h
      obtain ⟨hrow, rfl⟩ := Prod.mk.inj (Except.ok.inj hend)
      have husers := (updateSessions_ok.mp hupdate).2.2
      have hwritten : db₂.users = db.users.put updated := by rw [husers, ← hrow]
      refine ⟨hprevious, hrow ▸ rfl, hrow ▸ rfl, hrow ▸ rfl, hwritten, fun hname hhash => ?_,
        fun _ => ⟨n, ?_⟩⟩
      · simp [hname, hhash] at hchanged
      · rw [hwritten, ← hrow]
        exact hupdate
    · rename_i hsame
      cases h
      refine ⟨hprevious, rfl, rfl, rfl, rfl, fun _ _ => rfl, fun hchanged => absurd ?_ hsame⟩
      rw [Bool.or_eq_true, bne_iff_ne, bne_iff_ne]
      exact hchanged

variable {username passwordHash : String} {previous updated : UserRow}

theorem Configures.moves (h : Configures username passwordHash now db previous updated db') :
    db.Moves now none db' := by
  have husers : db.KeepsUsers db' :=
    Or.inr ⟨previous, updated, h.stored, h.id, h.isActive, h.users⟩
  by_cases hchanged : previous.username ≠ username ∨ previous.passwordHash ≠ passwordHash
  · obtain ⟨n, hupdate⟩ := h.changed hchanged
    have hmoves : AuthDb.Moves now none { db with users := db'.users } db' :=
      (updateSessions_touches (.revoked_at now) hupdate).moves
    exact ⟨husers, hmoves.rows, hmoves.kept, nofun⟩
  · rw [not_or, not_not, not_not] at hchanged
    have hsessions := h.same hchanged.1 hchanged.2
    refine ⟨husers, fun r hr => Or.inl ⟨r, ?_, .refl r⟩, fun r hr => Or.inl ⟨r, ?_, .refl r⟩, nofun⟩
    · rwa [← hsessions]
    · rwa [hsessions]

/-- After a change no session of the owner is left without a revocation. -/
theorem Configures.revokes (h : Configures username passwordHash now db previous updated db')
    (hchanged : previous.username ≠ username ∨ previous.passwordHash ≠ passwordHash) :
    ∀ r ∈ db'.sessions, r.userId = ownerUserId → r.revokedAt.isSome = true := by
  obtain ⟨n, hupdate⟩ := h.changed hchanged
  intro r hr howner
  obtain ⟨s, -, rfl⟩ := updateSessions_rows hupdate r hr
  split
  · rfl
  · rename_i hguard
    rw [if_neg hguard] at howner
    simpa [howner, Option.isSome_iff_ne_none] using hguard

theorem configureOwner_ok {username passwordHash : String} {credentials : UserCredentials}
    (h : configureOwner username passwordHash now db = (.ok credentials, db')) :
    ∃ updated, configureOwnerTx username passwordHash now db = .ok (updated, db') := by
  unfold configureOwner at h
  obtain ⟨_, -, h⟩ := Session.lift_bind_ok.mp h
  split at h
  · cases h
  obtain ⟨updated, db₁, hcommit, h⟩ := Session.bind_ok.mp h
  rw [Session.liftExcept_run] at h
  obtain ⟨-, rfl⟩ := Prod.mk.inj h
  exact ⟨updated, commit_eq_ok.mp hcommit⟩

/-- A call of `configure_owner` changes nothing or configures the owner. -/
theorem configureOwner_configures (username passwordHash : String) (now : ℤ) (db : AuthDb) :
    Session.Moves (fun db db' => db' = db ∨
      ∃ previous updated, Configures username passwordHash now db previous updated db')
      (configureOwner username passwordHash now) db := by
  refine Session.moves_lift_bind (Or.inl rfl) fun _ _ => ?_
  refine Session.moves_unless (Or.inl rfl) fun _ => ?_
  refine Session.moves_bind_read (Session.moves_commit (Or.inl rfl) ?_) fun _ _ => rfl
  intro updated db' h
  obtain ⟨previous, hconfigures⟩ := configureOwnerTx_ok h
  exact Or.inr ⟨previous, updated, hconfigures⟩

theorem configureOwner_moves {username passwordHash : String} :
    Session.Moves (AuthDb.Moves now none) (configureOwner username passwordHash now) db := by
  unfold Session.Moves
  rcases configureOwner_configures username passwordHash now db with hsame | ⟨_, _, hconfigures⟩
  · rw [hsame]
    exact .refl now db
  · exact hconfigures.moves

/-! ### Creation -/

section Create

variable {userId ttlSeconds : ℕ} {tokenHash csrfTokenHash : List UInt8} {sessionId : Uuid}

theorem insertSession_ok {row : SessionRow} {u : Unit}
    (h : insertSession row db = .ok (u, db')) :
    holdsAll row.checks = true ∧ (∀ r ∈ db.sessions, r.tokenHash ≠ row.tokenHash) ∧
      db'.users = db.users ∧ ∀ r, r ∈ db'.sessions ↔ r ∈ db.sessions ∨ r = row := by
  unfold insertSession at h
  simp only [except_bind_ok, enforce_ok_iff] at h
  obtain ⟨_, hchecks, _, hunique, h⟩ := h
  have hfresh : ∀ r ∈ db.sessions, r.tokenHash ≠ row.tokenHash := by
    simpa [holdsAll, Table.mem_def] using hunique
  cases hinsert : db.sessions.insertKeyed row with
  | none =>
    rw [hinsert] at h
    cases h
  | some sessions =>
    rw [hinsert] at h
    cases h
    exact ⟨hchecks, hfresh, rfl, fun r => Table.mem_insertKeyed hinsert⟩

/-- The row that `create_session` inserts, and the account it is for. -/
theorem createSessionTx_ok {row : SessionRow × String}
    (h : createSessionTx userId tokenHash csrfTokenHash ttlSeconds sessionId now db =
      .ok (row, db')) :
    ∃ account, activeUser db userId = some account ∧ row.2 = account.username ∧
      row.1 = ⟨sessionId, account.id, tokenHash, csrfTokenHash, now, now,
        now + seconds ttlSeconds, none⟩ ∧ db.Moves now (some row.1) db' ∧ db'.users = db.users := by
  unfold createSessionTx at h
  obtain ⟨_, _, hget, h⟩ := Tx.bind_ok.mp h
  cases hget
  cases haccount : activeUser db userId with
  | none =>
    rw [haccount] at h
    cases h
  | some account =>
    rw [haccount] at h
    obtain ⟨_, db₁, hinsert, h⟩ := Tx.bind_ok.mp h
    cases h
    obtain ⟨hchecks, hfresh, husers, hrows⟩ := insertSession_ok hinsert
    refine ⟨account, rfl, rfl, rfl, ⟨Or.inl husers, fun r hr => ?_, fun r hr => ?_, ?_⟩, husers⟩
    · rcases (hrows r).mp hr with hr | rfl
      · exact Or.inl ⟨r, hr, .refl r⟩
      · exact Or.inr rfl
    · exact Or.inl ⟨r, (hrows r).mpr (Or.inl hr), .refl r⟩
    · rintro r hborn
      obtain rfl := Option.some.inj hborn
      refine ⟨(hrows _).mpr (Or.inr rfl), ?_, rfl, rfl, hchecks, hfresh⟩
      have hkey : account.id = userId :=
        Table.key_of_get? (Option.filter_eq_some_iff.mp haccount).1
      show (activeUser db account.id).isSome = true
      rw [hkey, haccount]
      rfl

theorem SessionRecord.tryFrom_ok {row : SessionRow × String}
    (hcsrf : row.1.csrfTokenHash.length = 32) (huser : row.1.userId ≠ 0) :
    SessionRecord.tryFrom row =
      .ok ⟨row.1.id, row.1.userId, row.2, row.1.csrfTokenHash, row.1.expiresAt⟩ := by
  unfold SessionRecord.tryFrom validateDigest userIdNew
  rw [if_pos hcsrf, if_neg huser]
  rfl

theorem SessionRow.csrf_length {r : SessionRow} (h : holdsAll r.checks = true) :
    r.csrfTokenHash.length = 32 := by
  have hcsrf := List.all_eq_true.mp h ("sessions_csrf_hash_valid", r.csrfTokenHash.length == 32)
    (by simp [SessionRow.checks])
  simpa using hcsrf

theorem SessionRow.token_length {r : SessionRow} (h : holdsAll r.checks = true) :
    r.tokenHash.length = 32 := by
  have htoken := List.all_eq_true.mp h ("sessions_token_hash_valid", r.tokenHash.length == 32)
    (by simp [SessionRow.checks])
  simpa using htoken

/-- A call of `create_session` inserts a row and answers with it, or changes nothing. -/
theorem createSession_cases (userId : ℕ) (tokenHash csrfTokenHash : List UInt8) (ttl : ℕ)
    (sessionId : Uuid) (now : ℤ) (howned : db.Owned) :
    (∃ row record db', row.tokenHash = tokenHash ∧ record.id = row.id ∧
      record.userId = row.userId ∧ record.expiresAt = row.expiresAt ∧
      db.Moves now (some row) db' ∧ db'.users = db.users ∧
      createSession userId tokenHash csrfTokenHash ttl sessionId now db = (.ok record, db')) ∨
    ∃ e, createSession userId tokenHash csrfTokenHash ttl sessionId now db = (.error e, db) := by
  unfold createSession
  rw [Session.bind_run, Session.liftExcept_run]
  cases validateDigest tokenHash "session token" with
  | error e => exact Or.inr ⟨e, rfl⟩
  | ok _ =>
    simp only
    rw [Session.bind_run, Session.liftExcept_run]
    cases validateDigest csrfTokenHash "CSRF token" with
    | error e => exact Or.inr ⟨e, rfl⟩
    | ok _ =>
      simp only
      split
      · exact Or.inr ⟨_, rfl⟩
      rcases commit_cases (createSessionTx userId tokenHash csrfTokenHash (ttl / durationNanos)
          sessionId now) db with ⟨row, db', htx, -⟩ | ⟨e, htx, -⟩
      · obtain ⟨account, haccount, hname, hrow, hmoves, husers⟩ := createSessionTx_ok htx
        left
        have hsound := (hmoves.born row.1 rfl).2.sound
        have huser : row.1.userId ≠ 0 := by
          rw [hrow]
          exact howned.id_ne_zero haccount
        refine ⟨row.1, ⟨row.1.id, row.1.userId, row.2, row.1.csrfTokenHash, row.1.expiresAt⟩, db',
          ?_, rfl, rfl, rfl, hmoves, husers, ?_⟩
        · rw [hrow]
        · rw [Session.commit_bind_ok htx, Session.liftExcept_run,
            SessionRecord.tryFrom_ok (SessionRow.csrf_length hsound) huser]
      · exact Or.inr ⟨e, Session.commit_bind_error htx⟩

end Create

end Moves

end TaskHarbor
