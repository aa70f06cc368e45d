import TaskHarbor.Repository.Worker

/-! `auth_repository.rs`: the owner account and the login sessions, two tables that no job touches.
A statement that breaks a CHECK of one of its rows fails as a whole. -/
namespace TaskHarbor

open Relational Transaction

/-! ### Tables -/

structure UserRow where
  id : ℕ
  username : String
  passwordHash : String
  isActive : Bool
  createdAt : ℤ
  updatedAt : ℤ
  deriving DecidableEq

structure SessionRow where
  id : Uuid
  userId : ℕ
  tokenHash : List UInt8
  csrfTokenHash : List UInt8
  createdAt : ℤ
  lastSeenAt : ℤ
  expiresAt : ℤ
  revokedAt : Option ℤ
  deriving DecidableEq

instance : Keyed UserRow := ⟨UserRow.id⟩

instance : Keyed SessionRow := ⟨SessionRow.id⟩

@[simp] theorem key_userRow (r : UserRow) : Keyed.key r = r.id := rfl

@[simp] theorem key_sessionRow (r : SessionRow) : Keyed.key r = r.id := rfl

structure AuthDb where
  users : Table UserRow
  sessions : Table SessionRow

/-- `OWNER_USER_ID`. -/
def ownerUserId : ℕ := 1

/-- The migrated tables: the bootstrap owner without a usable password. -/
def AuthDb.migrated (now : ℤ) : AuthDb where
  users := Table.empty.insertNew fun id => ⟨id, "owner", "!unconfigured", true, now, now⟩
  sessions := Table.empty

abbrev AuthTx (α : Type) := Transaction.Tx AuthDb RepositoryError α

abbrev AuthCall (α : Type) := Transaction.Session AuthDb RepositoryError α

/-- `^[a-z0-9]` and `[a-z0-9_-]`. -/
def usernameCharacters : List Char → Bool
  | [] => true
  | first :: rest =>
      (first.isLower || first.isDigit) &&
        rest.all fun c => c.isLower || c.isDigit || c == '_' || c == '-'

def UserRow.checks (row : UserRow) : List Check :=
  [("users_username_valid",
      decide (3 ≤ row.username.length ∧ row.username.length ≤ 32) &&
        usernameCharacters row.username.toList),
   ("users_password_hash_present",
      decide (1 ≤ row.passwordHash.length ∧ row.passwordHash.length ≤ 512))]

def SessionRow.checks (row : SessionRow) : List Check :=
  [("sessions_token_hash_valid", row.tokenHash.length == 32),
   ("sessions_csrf_hash_valid", row.csrfTokenHash.length == 32),
   ("sessions_expiry_valid", decide (row.createdAt < row.expiresAt)),
   ("sessions_last_seen_valid", decide (row.createdAt ≤ row.lastSeenAt)),
   ("sessions_revoke_time_valid", row.revokedAt.all fun t => row.createdAt ≤ t)]

/-- `UPDATE sessions SET f WHERE p`, with the number of rows affected. -/
def updateSessions (p : SessionRow → Bool) (f : SessionRow → SessionRow)
    (hf : ∀ r, Keyed.key (f r) = Keyed.key r := by intro r; rfl) : AuthTx ℕ := fun db => do
  enforce ((db.sessions.rows.filter p).flatMap fun r => (f r).checks)
  return (db.sessions.count p, { db with sessions := db.sessions.update p f hf })

def insertSession (row : SessionRow) : AuthTx Unit := fun db => do
  enforce row.checks
  enforce [("sessions_token_hash_key", db.sessions.rows.all fun r => r.tokenHash != row.tokenHash)]
  match db.sessions.insertKeyed row with
  | some sessions => return ((), { db with sessions })
  | none => .error (.database "sessions_pkey")

/-! ### Validation -/

/-- `MIN_SESSION_TTL`. -/
def minSessionTtl : ℕ := 5 * 60 * durationNanos

/-- `MAX_SESSION_TTL`. -/
def maxSessionTtl : ℕ := 7 * 24 * 60 * 60 * durationNanos

/-- `validate_username`. -/
def validateUsername (username : String) : Except RepositoryError Unit :=
  if 3 ≤ username.utf8ByteSize ∧ username.utf8ByteSize ≤ 32 ∧
      usernameCharacters username.toList = true then .ok ()
  else .error (.invalidData
    "username must contain 3-32 lowercase letters, digits, hyphens, or underscores")

/-- `validate_digest`. -/
def validateDigest (value : List UInt8) (label : String) : Except RepositoryError Unit :=
  if value.length = 32 then .ok ()
  else .error (.invalidData (label ++ " hash must contain 32 bytes"))

/-- `UserId::new`. -/
def userIdNew (value : ℕ) : Except RepositoryError ℕ :=
  if value = 0 then .error (.invalidData "user ID must be a positive BIGINT") else .ok value

structure UserCredentials where
  id : ℕ
  username : String
  passwordHash : String
  deriving DecidableEq

structure SessionRecord where
  id : Uuid
  userId : ℕ
  username : String
  csrfTokenHash : List UInt8
  expiresAt : ℤ
  deriving DecidableEq

/-- `UserCredentials::try_from`. -/
def UserCredentials.tryFrom (row : UserRow) : Except RepositoryError UserCredentials := do
  let id ← userIdNew row.id
  return { id, username := row.username, passwordHash := row.passwordHash }

/-- `SessionRecord::try_from`, on a session row and the name of its user. -/
def SessionRecord.tryFrom (row : SessionRow × String) : Except RepositoryError SessionRecord := do
  validateDigest row.1.csrfTokenHash "CSRF token"
  let userId ← userIdNew row.1.userId
  return {
    id := row.1.id
    userId
    username := row.2
    csrfTokenHash := row.1.csrfTokenHash
    expiresAt := row.1.expiresAt }

/-! ### Accounts -/

/-- The rows that `WHERE is_active` leaves of one account. -/
def activeUser (db : AuthDb) (id : ℕ) : Option UserRow := (db.users.get? id).filter UserRow.isActive

/-- `owner_credentials`. -/
def ownerCredentials (db : AuthDb) : Except RepositoryError UserCredentials :=
  match activeUser db ownerUserId with
  | some row => UserCredentials.tryFrom row
  | none => .error (.invalidData "bootstrap owner is missing")

/-- `user_credentials_by_username`. -/
def userCredentialsByUsername (username : String) (db : AuthDb) :
    Except RepositoryError (Option UserCredentials) := do
  let username ← textParam username
  match db.users.rows.find? fun u => u.username == username && u.isActive with
  | some row => return some (← UserCredentials.tryFrom row)
  | none => return none

def SessionRow.revoked (now : ℤ) (r : SessionRow) : SessionRow :=
  { r with revokedAt := some (r.revokedAt.getD now) }

/-- The transaction of `configure_owner`: the sessions fall with a changed name or password. -/
def configureOwnerTx (username passwordHash : String) (now : ℤ) : AuthTx UserRow := do
  match (← get).users.get? ownerUserId with
  | none => throw (.invalidData "bootstrap owner is missing")
  | some previous => do
      let changed := previous.username != username || previous.passwordHash != passwordHash
      let storedName ← varcharParam 32 username
      let storedHash ← textParam passwordHash
      let updated : UserRow :=
        { previous with username := storedName, passwordHash := storedHash, updatedAt := now }
      enforce updated.checks
      if (← get).users.rows.any fun u => u.id != previous.id && u.username == storedName then
        throw (.database "users_username_key")
      modify fun db => { db with users := db.users.put updated }
      if changed then
        let _ ← updateSessions (fun r => r.userId == ownerUserId && r.revokedAt.isNone)
          (SessionRow.revoked now)
      return updated

/-- `configure_owner`. -/
def configureOwner (username passwordHash : String) (now : ℤ) : AuthCall UserCredentials := do
  validateUsername username
  if passwordHash.utf8ByteSize = 0 ∨ 512 < passwordHash.utf8ByteSize then
    throw (.invalidData "password hash length is invalid")
  let updated ← commit (configureOwnerTx username passwordHash now)
  UserCredentials.tryFrom updated

/-! ### Sessions -/

/-- The INSERT of `create_session`, for an active account. -/
def createSessionTx (userId : ℕ) (tokenHash csrfTokenHash : List UInt8) (ttlSeconds : ℕ)
    (sessionId : Uuid) (now : ℤ) : AuthTx (SessionRow × String) := do
  match activeUser (← get) userId with
  | none => throw (.stateConflict "create session for inactive user")
  | some account => do
      let row : SessionRow :=
        { id := sessionId
          userId := account.id
          tokenHash
          csrfTokenHash
          createdAt := now
          lastSeenAt := now
          expiresAt := now + seconds ttlSeconds
          revokedAt := none }
      insertSession row
      return (row, account.username)

/-- `create_session`, with its fresh UUID. -/
def createSession (userId : ℕ) (tokenHash csrfTokenHash : List UInt8) (ttl : ℕ) (sessionId : Uuid)
    (now : ℤ) : AuthCall SessionRecord := do
  validateDigest tokenHash "session token"
  validateDigest csrfTokenHash "CSRF token"
  if ttl < minSessionTtl ∨ maxSessionTtl < ttl ∨ ttl % durationNanos ≠ 0 then
    throw (.invalidData ("session TTL must be a whole number of seconds between " ++
      toString (minSessionTtl / durationNanos) ++ " and " ++
      toString (maxSessionTtl / durationNanos)))
  let row ← commit
    (createSessionTx userId tokenHash csrfTokenHash (ttl / durationNanos) sessionId now)
  SessionRecord.tryFrom row

/-- The guard of `active_session`: the session of an active account, not revoked and not over. -/
def SessionRow.isLive (db : AuthDb) (tokenHash : List UInt8) (now : ℤ) (r : SessionRow) : Bool :=
  r.tokenHash == tokenHash && (activeUser db r.userId).isSome && r.revokedAt.isNone &&
    decide (now < r.expiresAt)

/-- The UPDATE of `active_session`, with the row it returns. -/
def activeSessionTx (tokenHash : List UInt8) (now : ℤ) : AuthTx (Option (SessionRow × String)) := do
  let db ← get
  let _ ← updateSessions (SessionRow.isLive db tokenHash now) fun r => { r with lastSeenAt := now }
  return (db.sessions.rows.find? (SessionRow.isLive db tokenHash now)).bind fun r =>
    (activeUser db r.userId).map fun account => (r, account.username)

/-- `active_session`. -/
def activeSession (tokenHash : List UInt8) (now : ℤ) : AuthCall (Option SessionRecord) := do
  validateDigest tokenHash "session token"
  match ← commit (activeSessionTx tokenHash now) with
  | none => return none
  | some row => return some (← SessionRecord.tryFrom row)

/-- `revoke_session`. -/
def revokeSession (sessionId : Uuid) (now : ℤ) : AuthCall Unit :=
  commit do
    let updated ← updateSessions (fun r => r.id == sessionId) (SessionRow.revoked now)
    ensureOneRow updated "revoke session"

/-- `rotate_session_csrf`. -/
def rotateSessionCsrf (sessionId : Uuid) (csrfTokenHash : List UInt8) (now : ℤ) :
    AuthCall Unit := do
  validateDigest csrfTokenHash "CSRF token"
  commit do
    let updated ← updateSessions
      (fun r => r.id == sessionId && r.revokedAt.isNone && decide (now < r.expiresAt))
      fun r => { r with csrfTokenHash, lastSeenAt := now }
    ensureOneRow updated "rotate session CSRF token"

def secondsPerDay : ℤ := 24 * 60 * 60

/-- The rows that `purge_expired_sessions` deletes. -/
def SessionRow.purgeable (now : ℤ) (r : SessionRow) : Bool :=
  decide (r.expiresAt ≤ now) || r.revokedAt.any fun t => t ≤ now - seconds secondsPerDay

/-- `purge_expired_sessions`. -/
def purgeExpiredSessions (now : ℤ) : AuthCall ℕ :=
  commit do
    let db ← get
    set { db with sessions := db.sessions.delete (SessionRow.purgeable now) }
    return db.sessions.count (SessionRow.purgeable now)

end TaskHarbor
