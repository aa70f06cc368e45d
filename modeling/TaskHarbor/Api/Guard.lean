import TaskHarbor.Api.Auth

/-! `require_auth`, which stands before every protected route, and the two routes of the session.
The cookie jar and the headers are functions of a name; a random token is an argument. -/
namespace TaskHarbor

open Transaction

/-- `SESSION_COOKIE`. -/
def sessionCookie : String := "taskharbor_session"

/-- `CSRF_COOKIE`. -/
def csrfCookie : String := "taskharbor_csrf"

/-- `CSRF_HEADER`. -/
def csrfHeader : String := "x-csrf-token"

inductive Method where
  | get
  | head
  | options
  | post
  | put
  | delete
  | connect
  | trace
  | patch
  | extension (name : String)

/-- `requires_csrf`. -/
def requiresCsrf : Method → Bool
  | .get | .head | .options => false
  | .post | .put | .delete | .connect | .trace | .patch | .extension _ => true

/-- `constant_time_eq`: it looks at every byte before it answers. -/
def constantTimeEq (left right : List UInt8) : Bool :=
  if left.length ≠ right.length then false
  else (left.zip right).foldl (fun difference p => difference ||| (p.1 ^^^ p.2)) 0 == 0

/-- `HeaderValue::to_str`: visible ASCII and the tab. -/
def headerStr (value : List UInt8) : Option String :=
  if value.all fun b => 32 ≤ b && b < 127 || b == 9 then
    some (String.ofList (value.map fun b => Char.ofNat b.toNat))
  else none

structure GuardedRequest where
  method : Method
  cookies : String → Option String
  headers : String → Option (List UInt8)

structure AuthSession where
  id : Uuid
  userId : ℕ
  username : String
  csrfTokenHash : List UInt8
  expiresAt : ℤ

/-- `AuthSession::from`. -/
def AuthSession.ofRecord (record : SessionRecord) : AuthSession where
  id := record.id
  userId := record.userId
  username := record.username
  csrfTokenHash := record.csrfTokenHash
  expiresAt := record.expiresAt

/-- `ok_or_else`. -/
def okOrElse {ε α : Type} (x : Option α) (error : ε) : Except ε α := x.elim (.error error) .ok

/-- The CSRF test of `require_auth`. -/
def GuardedRequest.checkCsrf (app : AuthApp) (request : GuardedRequest) (session : SessionRecord) :
    Except ApiError Unit :=
  if requiresCsrf request.method then do
    let supplied ← okOrElse ((request.headers csrfHeader).bind headerStr) .invalidCsrf
    if constantTimeEq (tokenHash app supplied) session.csrfTokenHash then .ok ()
    else .error .invalidCsrf
  else .ok ()

/-- `require_auth`, up to the route: the session that the route is run with. -/
def requireAuth (app : AuthApp) (request : GuardedRequest) (now : ℤ) :
    Transaction.Session AuthDb ApiError AuthSession := do
  let rawToken ← okOrElse (request.cookies sessionCookie) ApiError.unauthorized
  let found ← Session.mapError .repository (activeSession (tokenHash app rawToken) now)
  let session ← okOrElse found ApiError.unauthorized
  request.checkCsrf app session
  return .ofRecord session

/-- The CSRF cookie, where it is the token of the session. -/
def AuthSession.currentCsrf (app : AuthApp) (session : AuthSession)
    (cookies : String → Option String) : Option String :=
  (cookies csrfCookie).filter fun token =>
    constantTimeEq (tokenHash app token) session.csrfTokenHash

/-- `current_session`: the CSRF token that it answers with, the cookie's or a new one. -/
def currentSession (app : AuthApp) (session : AuthSession) (cookies : String → Option String)
    (randomToken : String) (now : ℤ) : Transaction.Session AuthDb ApiError String :=
  match session.currentCsrf app cookies with
  | some token => pure token
  | none => do
      Session.mapError .repository
        (rotateSessionCsrf session.id (tokenHash app randomToken) now)
      return randomToken

/-- How the connection to the database fares during a call: it breaks before the call arrives, or
under its answer, or not at all. -/
inductive Connection where
  | whole
  | broken (message : String)
  | unanswered (message : String)

/-- A call over a connection. -/
def Connection.over {α : Type} (connection : Connection) (call : AuthCall α) : AuthCall α :=
  fun db =>
    match connection with
    | .whole => call db
    | .broken message => (.error (.database message), db)
    | .unanswered message => (.error (.database message), (call db).2)

/-- `logout`. -/
def logout (connection : Connection) (session : AuthSession) (now : ℤ) :
    Transaction.Session AuthDb ApiError Unit :=
  Session.mapError .repository (connection.over (revokeSession session.id now))

/-! ### What the guard asks for -/

/-- The request shows the token of that hash, where its method requires one. -/
def GuardedRequest.Presents (app : AuthApp) (request : GuardedRequest)
    (csrfTokenHash : List UInt8) : Prop :=
  requiresCsrf request.method = true → ∃ supplied,
    (request.headers csrfHeader).bind headerStr = some supplied ∧
      tokenHash app supplied = csrfTokenHash

theorem foldl_difference_eq_zero {left right : List UInt8} (h : left.length = right.length)
    (difference : UInt8) :
    (left.zip right).foldl (fun difference p => difference ||| (p.1 ^^^ p.2)) difference = 0 ↔
      difference = 0 ∧ left = right := by
  induction left generalizing right difference with
  | nil =>
    obtain rfl := List.length_eq_zero_iff.mp h.symm
    simp
  | cons a left ih =>
    cases right with
    | nil => cases h
    | cons b right =>
      rw [List.zip_cons_cons, List.foldl_cons, ih (Nat.succ.inj h), UInt8.or_eq_zero_iff,
        UInt8.xor_eq_zero_iff, List.cons.injEq, and_assoc]

theorem constantTimeEq_iff {left right : List UInt8} :
    constantTimeEq left right = true ↔ left = right := by
  unfold constantTimeEq
  split
  · rename_i hlength
    constructor
    · intro h
      cases h
    · rintro rfl
      exact absurd rfl hlength
  · rename_i hlength
    rw [beq_iff_eq, foldl_difference_eq_zero (not_not.mp hlength)]
    simp

section Guard

variable {app : AuthApp} {request : GuardedRequest} {record : SessionRecord} {rawToken : String}
  {now : ℤ} {db : AuthDb}

/-- The CSRF test accepts what it asks for and refuses everything else in the same way. -/
theorem GuardedRequest.checkCsrf_spec :
    (request.Presents app record.csrfTokenHash → request.checkCsrf app record = .ok ()) ∧
    (¬request.Presents app record.csrfTokenHash →
      request.checkCsrf app record = .error .invalidCsrf) := by
  unfold checkCsrf Presents
  by_cases hmethod : requiresCsrf request.method = true
  · rw [if_pos hmethod]
    cases hheader : (request.headers csrfHeader).bind headerStr with
    | none => exact ⟨fun h => by simpa using h hmethod, fun _ => rfl⟩
    | some supplied =>
      simp only [hmethod, Option.some.injEq, exists_eq_left', forall_const, ← constantTimeEq_iff]
      constructor
      · exact fun h => if_pos h
      · exact fun h => if_neg h
  · rw [if_neg hmethod]
    exact ⟨fun _ => rfl, fun h => absurd (fun h' => absurd h' hmethod) h⟩

theorem requireAuth_unauthorized (hcookie : request.cookies sessionCookie = some rawToken)
    (hnone : (activeSession (tokenHash app rawToken) now db).1 = .ok none) :
    (requireAuth app request now db).1 = .error .unauthorized := by
  unfold requireAuth
  rw [hcookie]
  simp [Session.bind_run, okOrElse, Session.mapError, hnone, Except.mapError]

/-- For a live session the answer is that of the CSRF test. -/
theorem requireAuth_checkCsrf (hcookie : request.cookies sessionCookie = some rawToken)
    (hfound : (activeSession (tokenHash app rawToken) now db).1 = .ok (some record)) :
    (requireAuth app request now db).1 =
      (request.checkCsrf app record).map fun _ => .ofRecord record := by
  unfold requireAuth
  rw [hcookie]
  simp only [Session.bind_run, okOrElse, Session.mapError, hfound, Except.mapError,
    Session.liftExcept_run, Option.elim_some]
  cases request.checkCsrf app record <;> rfl

/-- The guard leaves what its call leaves. -/
theorem requireAuth_run (hcookie : request.cookies sessionCookie = some rawToken) :
    (requireAuth app request now db).2 = (activeSession (tokenHash app rawToken) now db).2 := by
  unfold requireAuth
  rw [hcookie]
  simp only [Session.bind_run, okOrElse, Session.mapError, Session.liftExcept_run,
    Option.elim_some]
  rcases (activeSession (tokenHash app rawToken) now db).1 with e | _ | record
  · rfl
  · rfl
  · simp only [Except.mapError, Option.elim_some]
    cases request.checkCsrf app record <;> rfl

variable {session : AuthSession} {cookies : String → Option String} {randomToken : String}

theorem currentSession_run (hcurrent : session.currentCsrf app cookies = none) :
    (currentSession app session cookies randomToken now db).2 =
      (rotateSessionCsrf session.id (tokenHash app randomToken) now db).2 := by
  unfold currentSession
  rw [hcurrent]
  simp only [Session.bind_run, Session.mapError]
  cases (rotateSessionCsrf session.id (tokenHash app randomToken) now db).1 <;> rfl

/-- A new token is answered only after its rotation. -/
theorem currentSession_rotated {answer : String}
    (hcurrent : session.currentCsrf app cookies = none)
    (hanswer : (currentSession app session cookies randomToken now db).1 = .ok answer) :
    ∃ u, (rotateSessionCsrf session.id (tokenHash app randomToken) now db).1 = .ok u := by
  unfold currentSession at hanswer
  rw [hcurrent] at hanswer
  simp only [Session.bind_run, Session.mapError] at hanswer
  cases hrotate : (rotateSessionCsrf session.id (tokenHash app randomToken) now db).1 with
  | error e =>
    rw [hrotate] at hanswer
    cases hanswer
  | ok u => exact ⟨u, rfl⟩

/-- A call that arrives does what it does, also when its answer is lost. -/
theorem Connection.over_run {α : Type} {connection : Connection} (call : AuthCall α)
    (h : ∀ message, connection ≠ .broken message) : (connection.over call db).2 = (call db).2 := by
  cases connection with
  | broken message => exact absurd rfl (h message)
  | _ => rfl

/-- The cookie's token is answered when it is the session's. -/
theorem AuthSession.currentCsrf_ok {token : String}
    (h : session.currentCsrf app cookies = some token) :
    tokenHash app token = session.csrfTokenHash :=
  constantTimeEq_iff.mp (Option.filter_eq_some_iff.mp h).2

end Guard

end TaskHarbor
