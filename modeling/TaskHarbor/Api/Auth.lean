import TaskHarbor.Api.Upload
import TaskHarbor.Library.Program
import TaskHarbor.Repository.Auth

/-! `auth.rs`: `login` and `initialize_owner`, as programs that wait for one answer after another.
Argon2 and SHA-256 are libraries; a hash of a password depends on its salt, so it is an answer
too. -/
namespace TaskHarbor

open Interleaving

/-! ### Credentials -/

/-- `normalize_username`. -/
def normalizeUsername (value : String) : Option String :=
  let value := String.ofList ((trim value).toList.map Char.toLower)
  if 3 ≤ value.utf8ByteSize ∧ value.utf8ByteSize ≤ 32 ∧ usernameCharacters value.toList = true then
    some value
  else none

/-- `validate_password`. -/
def validatePassword (password : String) : Bool :=
  decide (12 ≤ password.utf8ByteSize ∧ password.utf8ByteSize ≤ 128)

/-- The Argon2 library: hashes in the PHC format, and the test of a password against one. -/
structure Argon2 where
  PasswordHash : Type
  new : String → Option PasswordHash
  verifyPassword : String → PasswordHash → Bool

/-- `verify_password`; a stored text that is no hash verifies nothing. -/
def verifyPassword (argon2 : Argon2) (password passwordHash : String) : Bool :=
  match argon2.new passwordHash with
  | some parsed => argon2.verifyPassword password parsed
  | none => false

inductive OwnerSetupError where
  | invalidUsername
  | invalidPassword
  | passwordHash
  | repository (error : RepositoryError)
  | task

/-! ### Calls -/

/-- What the two programs wait for. -/
inductive AuthRequest where
  | checkLimiter (key : String)
  | userCredentialsByUsername (username : String)
  | ownerCredentials
  | verifyPassword (password passwordHash : String)
  | hashPassword (password : String)
  | randomToken
  | configureOwner (username passwordHash : String)
  | createSession (userId : ℕ) (tokenHash csrfTokenHash : List UInt8) (ttl : ℕ)

def AuthRequest.Reply : AuthRequest → Type
  | checkLimiter _ => Except ℕ Unit
  | userCredentialsByUsername _ => Except RepositoryError (Option UserCredentials)
  | ownerCredentials => Except RepositoryError UserCredentials
  | verifyPassword _ _ => Except OwnerSetupError Bool
  | hashPassword _ => Except OwnerSetupError String
  | randomToken => String
  | configureOwner _ _ => Except RepositoryError UserCredentials
  | createSession _ _ _ _ => Except RepositoryError SessionRecord

abbrev AuthProgram (ε α : Type) := ExceptT ε (Program AuthRequest AuthRequest.Reply) α

def ask (q : AuthRequest) : Program AuthRequest AuthRequest.Reply q.Reply := .perform q

/-- A call whose error the caller translates. -/
def attempt {ε ε' α : Type} (call : Program AuthRequest AuthRequest.Reply (Except ε' α))
    (f : ε' → ε) : AuthProgram ε α := ExceptT.mk do
  let reply ← call
  return reply.mapError f

/-- An early return. -/
def refuseWhen {ε : Type} (refused : Bool) (error : ε) : AuthProgram ε Unit :=
  if refused then throw error else pure ()

/-! ### `initialize_owner` -/

/-- Whether the account already has the name and the password. -/
def isConfigured (current : UserCredentials) (username password : String) :
    AuthProgram OwnerSetupError Bool :=
  if current.username = username then
    attempt (ask (.verifyPassword password current.passwordHash)) id
  else pure false

def initializeOwner (username password : String) : AuthProgram OwnerSetupError UserCredentials := do
  match normalizeUsername username with
  | none => throw .invalidUsername
  | some username => do
      refuseWhen (!validatePassword password) .invalidPassword
      let current ← attempt (ask .ownerCredentials) .repository
      if ← isConfigured current username password then
        return current
      let passwordHash ← attempt (ask (.hashPassword password)) id
      attempt (ask (.configureOwner username passwordHash)) .repository

/-! ### `login` -/

structure LoginRequest where
  username : String
  password : String

/-- What `login` uses of the application. -/
structure AuthApp where
  sessionTtl : ℕ
  sha256 : List UInt8 → Vector UInt8 32

/-- `token_hash`. -/
def tokenHash (app : AuthApp) (value : String) : List UInt8 := (app.sha256 (textBytes value)).toList

/-- The new session and its two secrets. -/
structure LoginAnswer where
  session : SessionRecord
  sessionToken : String
  csrfToken : String

/-- The account of the given name, where the name is well formed and known. -/
def findRequestedUser : Option String → AuthProgram ApiError (Option UserCredentials)
  | some username => attempt (ask (.userCredentialsByUsername username)) .repository
  | none => pure none

/-- The credentials to verify against: an unknown name is compared with the owner's. -/
def credentialsToVerify : Option UserCredentials → AuthProgram ApiError UserCredentials
  | some credentials => pure credentials
  | none => attempt (ask .ownerCredentials) .repository

def login (app : AuthApp) (request : LoginRequest) : AuthProgram ApiError LoginAnswer := do
  attempt (ask (.checkLimiter "owner-login")) ApiError.rateLimited
  refuseWhen (!validatePassword request.password) .invalidCredentials
  let requestedUser ← findRequestedUser (normalizeUsername request.username)
  let credentials ← credentialsToVerify requestedUser
  let passwordValid ← attempt
    (ask (.verifyPassword request.password credentials.passwordHash)) fun _ => .internal
  refuseWhen (requestedUser.isNone || !passwordValid) .invalidCredentials
  let sessionToken ← ExceptT.lift (ask .randomToken)
  let csrfToken ← ExceptT.lift (ask .randomToken)
  let session ← attempt (ask (.createSession credentials.id (tokenHash app sessionToken)
    (tokenHash app csrfToken) app.sessionTtl)) .repository
  return { session, sessionToken, csrfToken }

end TaskHarbor
