import TaskHarbor.Api.Auth
import TaskHarbor.Auth.Sessions

/-! Logins and owner set-ups of any number of API processes over the same tables, one call at a
time. Every session that a login created is recorded with the password and the hash that this login
verified. -/
namespace TaskHarbor

open Interleaving Relational Transaction Runs

/-! ### The machine -/

/-- What an answer depends on besides the tables. -/
structure Chance where
  limiter : Except ℕ Unit := .ok ()
  joined : Except OwnerSetupError Unit := .ok ()
  hashed : Except OwnerSetupError String := .error .passwordHash
  token : String := ""
  sessionId : Uuid := 0

inductive AuthResult where
  | login (answer : Except ApiError LoginAnswer)
  | setup (credentials : Except OwnerSetupError UserCredentials)

/-- A login or a set-up under way, with the password and the hash of its last verification that
succeeded. -/
structure AuthTask where
  program : Program AuthRequest AuthRequest.Reply AuthResult
  verified : Option (String × String)

/-- A session that `create_session` returned, and what its login had verified. -/
structure IssuedSession where
  tokenHash : List UInt8
  session : SessionRecord
  verified : Option (String × String)

structure LoginSystem where
  auth : AuthSystem
  tasks : List AuthTask
  issued : List IssuedSession

def LoginSystem.initial (now : ℤ) : LoginSystem := ⟨.initial now, [], []⟩

inductive LoginOp where
  | login (app : AuthApp) (request : LoginRequest)
  | initializeOwner (username password : String)
  | advance (i : ℕ) (chance : Chance)
  | call (op : AuthOp)

/-- The answer to a call, and what it leaves. -/
def AuthSystem.serve (argon2 : Argon2) (s : AuthSystem) (chance : Chance) :
    (q : AuthRequest) → q.Reply × AuthSystem
  | .checkLimiter _ => (chance.limiter, s)
  | .userCredentialsByUsername username => (userCredentialsByUsername username s.db, s)
  | .ownerCredentials => (ownerCredentials s.db, s)
  | .verifyPassword password passwordHash =>
      (chance.joined.map fun _ => verifyPassword argon2 password passwordHash, s)
  | .hashPassword _ => (chance.hashed, s)
  | .randomToken => (chance.token, s)
  | .configureOwner username passwordHash =>
      ((configureOwner username passwordHash s.now s.db).1,
        s.apply (.configureOwner username passwordHash))
  | .createSession userId tokenHash csrfTokenHash ttl =>
      ((createSession userId tokenHash csrfTokenHash ttl chance.sessionId s.now s.db).1,
        s.apply (.createSession userId tokenHash csrfTokenHash ttl chance.sessionId))

/-- `verify_password` accepted the password. -/
def accepted (reply : Except OwnerSetupError Bool) : Bool := reply.toOption == some true

/-- The verification that a task has behind it after a call. -/
def AuthRequest.notes : (q : AuthRequest) → q.Reply → Option (String × String) →
    Option (String × String)
  | .verifyPassword password passwordHash, reply, verified =>
      if accepted reply then some (password, passwordHash) else verified
  | _, _, verified => verified

/-- The session that a call created. -/
def AuthRequest.issues : (q : AuthRequest) → q.Reply → Option (String × String) →
    List IssuedSession
  | .createSession _ tokenHash _ _, reply, verified =>
      (show Except RepositoryError SessionRecord from reply).toOption.toList.map
        fun session => ⟨tokenHash, session, verified⟩
  | _, _, _ => []

/-- The next call of a task. -/
def LoginSystem.advance (argon2 : Argon2) (s : LoginSystem) (i : ℕ) (chance : Chance)
    (task : AuthTask) : Option LoginSystem :=
  match task.program with
  | .done _ => none
  | .call q k =>
      let answer := s.auth.serve argon2 chance q
      some {
        auth := answer.2
        tasks := s.tasks.set i ⟨k answer.1, q.notes answer.1 task.verified⟩
        issued := q.issues answer.1 task.verified ++ s.issued }

/-- The calls that no task makes. -/
def AuthOp.standing : AuthOp → Bool
  | .createSession _ _ _ _ _ | .configureOwner _ _ => false
  | .activeSession _ | .rotateSessionCsrf _ _ | .revokeSession _ | .purgeExpiredSessions
  | .tick _ => true

def LoginSystem.begin (s : LoginSystem)
    (program : Program AuthRequest AuthRequest.Reply AuthResult) : LoginSystem :=
  { s with tasks := s.tasks ++ [⟨program, none⟩] }

def LoginSystem.step (argon2 : Argon2) (s : LoginSystem) : LoginOp → Option LoginSystem
  | .login app request => some (s.begin (.login <$> (login app request).run))
  | .initializeOwner username password =>
      some (s.begin (.setup <$> (initializeOwner username password).run))
  | .advance i chance => s.tasks[i]?.bind (s.advance argon2 i chance)
  | .call op =>
      if op.standing then (s.auth.step op).map fun auth => { s with auth } else none

/-! ### What a task knows -/

section Ready

variable {argon2 : Argon2} {α β ε ε' : Type}

/-- A password that was verified against a hash. -/
def Verified (argon2 : Argon2) (verified : Option (String × String)) : Prop :=
  ∃ password passwordHash, verified = some (password, passwordHash) ∧
    verifyPassword argon2 password passwordHash = true

/-- A session is created after a verification only. -/
def AuthRequest.Justified (argon2 : Argon2) : AuthRequest → Option (String × String) → Prop
  | .createSession _ _ _ _, verified => Verified argon2 verified
  | _, _ => True

/-- `verify_password` accepts what Argon2 verifies. -/
def AuthRequest.Honest (argon2 : Argon2) : (q : AuthRequest) → q.Reply → Prop
  | .verifyPassword password passwordHash, reply =>
      accepted reply = true → TaskHarbor.verifyPassword argon2 password passwordHash = true
  | _, _ => True

/-- What a task knows after a call. -/
def AuthRequest.Learns (argon2 : Argon2) (verified : Option (String × String)) (q : AuthRequest)
    (reply : q.Reply) (verified' : Option (String × String)) : Prop :=
  verified' = q.notes reply verified ∧ q.Honest argon2 reply

/-- From here on the task creates a session only for a password that it verified. -/
structure Ready (argon2 : Argon2) (p : Program AuthRequest AuthRequest.Reply α)
    (verified : Option (String × String)) : Prop where
  meets : Meets Eq (AuthRequest.Learns argon2) (AuthRequest.Justified argon2) (fun _ _ => True) p
    verified

/-- The program learns nothing, whatever it calls. -/
structure Quiet (argon2 : Argon2) (p : Program AuthRequest AuthRequest.Reply α)
    (verified : Option (String × String)) : Prop where
  meets : Meets Eq (AuthRequest.Learns argon2) (AuthRequest.Justified argon2)
    (fun _ verified' => verified' = verified) p verified

theorem ready_done (a : α) (verified : Option (String × String)) :
    Ready argon2 (.done a) verified := ⟨fun _ _ => trivial⟩

theorem AuthSystem.serve_learns (s : AuthSystem) (chance : Chance) (q : AuthRequest)
    (verified : Option (String × String)) :
    q.Learns argon2 verified (s.serve argon2 chance q).1
      (q.notes (s.serve argon2 chance q).1 verified) := by
  refine ⟨rfl, ?_⟩
  cases q with
  | verifyPassword password passwordHash =>
    show accepted (chance.joined.map fun _ => verifyPassword argon2 password passwordHash) = true →
      verifyPassword argon2 password passwordHash = true
    cases chance.joined with
    | error e => nofun
    | ok _ =>
      intro haccepted
      simpa [accepted, Except.map, Except.toOption] using haccepted
  | checkLimiter _ | userCredentialsByUsername _ | ownerCredentials | hashPassword _ | randomToken
  | configureOwner _ _ | createSession _ _ _ _ => exact trivial

variable {verified : Option (String × String)}

theorem quiet_done (a : α) (verified : Option (String × String)) :
    Quiet argon2 (.done a) verified := by
  constructor
  rintro _ rfl
  rfl

/-- A call that teaches a task nothing. -/
theorem ask_quiet {q : AuthRequest} (hjustified : q.Justified argon2 verified)
    (hnotes : ∀ reply, q.notes reply verified = verified) : Quiet argon2 (ask q) verified := by
  constructor
  rintro _ rfl
  refine ⟨hjustified, fun reply _ hlearns => ?_⟩
  rintro _ rfl
  exact hlearns.1.trans (hnotes reply)

theorem attempt_quiet {call : Program AuthRequest AuthRequest.Reply (Except ε' α)} {f : ε' → ε}
    (hcall : Quiet argon2 call verified) : Quiet argon2 (attempt call f).run verified := by
  refine ⟨meets_bind (fun _ => rfl) (hcall.meets.consequence ?_)⟩
  rintro reply _ rfl _ rfl
  rfl

theorem ready_quiet {x : AuthProgram ε α} {rest : α → AuthProgram ε β}
    (hx : Quiet argon2 x.run verified) (hrest : ∀ a, Ready argon2 (rest a).run verified) :
    Ready argon2 (x >>= rest).run verified := by
  refine ⟨meets_except_bind (fun _ => rfl) (hx.meets.consequence ?_)⟩
  rintro reply _ rfl
  cases reply with
  | ok a => exact (hrest a).meets
  | error e => exact fun _ _ => trivial

theorem ready_verify {password passwordHash : String} {f : OwnerSetupError → ε}
    {rest : Bool → AuthProgram ε β}
    (hrest : ∀ valid verified', (valid = true → Verified argon2 verified') →
      Ready argon2 (rest valid).run verified') :
    Ready argon2 (attempt (ask (.verifyPassword password passwordHash)) f >>= rest).run
      verified := by
  refine ⟨meets_except_bind (fun _ => rfl) (meets_bind (fun _ => rfl) ?_)⟩
  rintro _ rfl
  refine ⟨trivial, fun reply verified' hlearns => ?_⟩
  rintro _ rfl _ rfl
  obtain ⟨rfl, hhonest⟩ := hlearns
  change Except OwnerSetupError Bool at reply
  cases reply with
  | error e => exact fun _ _ => trivial
  | ok valid =>
    refine (hrest valid _ ?_).meets
    rintro rfl
    exact ⟨password, passwordHash, rfl, hhonest rfl⟩

theorem ready_token {rest : String → AuthProgram ε β}
    (hrest : ∀ token, Ready argon2 (rest token).run verified) :
    Ready argon2 ((ExceptT.lift (ask .randomToken) : AuthProgram ε String) >>= rest).run
      verified := by
  have hask : Quiet argon2 (ask .randomToken) verified := ask_quiet trivial fun _ => rfl
  refine ⟨meets_except_bind (fun _ => rfl) (meets_bind (fun _ => rfl) (hask.meets.consequence ?_))⟩
  rintro token _ rfl _ rfl
  exact (hrest token).meets

theorem ready_refuseWhen {refused : Bool} {e : ε} {rest : Unit → AuthProgram ε β}
    (hrest : refused = false → Ready argon2 (rest ()).run verified) :
    Ready argon2 (refuseWhen refused e >>= rest).run verified := by
  cases refused with
  | true => exact ready_done _ _
  | false => exact hrest rfl

theorem ready_map {p : Program AuthRequest AuthRequest.Reply α} {f : α → β}
    (h : Ready argon2 p verified) : Ready argon2 (f <$> p) verified := by
  refine ⟨meets_bind (fun _ => rfl) (h.meets.consequence fun a _ _ => ?_)⟩
  exact (ready_done _ _).meets

theorem findRequestedUser_quiet (normalizedUsername : Option String) :
    Quiet argon2 (findRequestedUser normalizedUsername).run verified := by
  cases normalizedUsername with
  | none => exact quiet_done _ _
  | some username =>
    have hfree : AuthRequest.Justified argon2 (.userCredentialsByUsername username) verified :=
      trivial
    exact attempt_quiet (ask_quiet hfree fun _ => rfl)

theorem ownerCredentials_quiet {f : RepositoryError → ε} : Quiet argon2
    (attempt (ask .ownerCredentials) f : AuthProgram ε UserCredentials).run verified := by
  have hfree : AuthRequest.Justified argon2 .ownerCredentials verified := trivial
  exact attempt_quiet (ask_quiet hfree fun _ => rfl)

theorem credentialsToVerify_quiet (requested : Option UserCredentials) :
    Quiet argon2 (credentialsToVerify requested).run verified := by
  cases requested with
  | some credentials => exact quiet_done _ _
  | none => exact ownerCredentials_quiet

theorem login_ready (app : AuthApp) (request : LoginRequest) :
    Ready argon2 (login app request).run none := by
  unfold login
  have hlimiter : AuthRequest.Justified argon2 (.checkLimiter "owner-login") none := trivial
  refine ready_quiet (attempt_quiet (ask_quiet hlimiter fun _ => rfl)) fun _ => ?_
  refine ready_refuseWhen fun _ => ?_
  refine ready_quiet (findRequestedUser_quiet _) fun requested => ?_
  refine ready_quiet (credentialsToVerify_quiet _) fun credentials => ?_
  refine ready_verify fun valid verified hverified => ?_
  refine ready_refuseWhen fun haccepted => ?_
  have hvalid : valid = true := by simpa using (Bool.or_eq_false_iff.mp haccepted).2
  refine ready_token fun sessionToken => ready_token fun csrfToken => ?_
  have hjustified : AuthRequest.Justified argon2 (.createSession credentials.id
      (tokenHash app sessionToken) (tokenHash app csrfToken) app.sessionTtl) verified :=
    hverified hvalid
  refine ready_quiet (attempt_quiet (ask_quiet hjustified fun _ => rfl)) fun session => ?_
  exact ready_done _ _

theorem ready_isConfigured {current : UserCredentials} {username password : String}
    {rest : Bool → AuthProgram OwnerSetupError β}
    (hrest : ∀ configured verified', Ready argon2 (rest configured).run verified') :
    Ready argon2 (isConfigured current username password >>= rest).run verified := by
  unfold isConfigured
  split
  · exact ready_verify fun configured verified' _ => hrest configured verified'
  · exact hrest false verified

theorem initializeOwner_ready (username password : String) :
    Ready argon2 (initializeOwner username password).run none := by
  unfold initializeOwner
  cases normalizeUsername username with
  | none => exact ready_done _ _
  | some username =>
    refine ready_refuseWhen fun _ => ?_
    refine ready_quiet ownerCredentials_quiet fun current => ?_
    refine ready_isConfigured fun configured verified => ?_
    split
    · exact ready_done _ _
    have hhash : AuthRequest.Justified argon2 (.hashPassword password) verified := trivial
    refine ready_quiet (attempt_quiet (ask_quiet hhash fun _ => rfl)) fun passwordHash => ?_
    have hconfigure :
        AuthRequest.Justified argon2 (.configureOwner username passwordHash) verified :=
      trivial
    have hquiet :=
      attempt_quiet (f := OwnerSetupError.repository) (ask_quiet hconfigure fun _ => rfl)
    exact ⟨hquiet.meets.consequence fun _ _ _ => trivial⟩

end Ready

/-! ### Sessions and the stored hash -/

/-- The hash that `configure_owner` stored last. -/
def AuthDb.ownerHash (db : AuthDb) : Option String :=
  (db.users.get? ownerUserId).map UserRow.passwordHash

/-- The login of a session row verified its password against the stored hash. -/
def IssuedSession.Justifies (argon2 : Argon2) (db : AuthDb) (sessionId : Uuid)
    (tokenHash : List UInt8) (c : IssuedSession) : Prop :=
  c.tokenHash = tokenHash ∧ c.session.id = sessionId ∧ ∃ password passwordHash,
    c.verified = some (password, passwordHash) ∧
      verifyPassword argon2 password passwordHash = true ∧ db.ownerHash = some passwordHash

structure AuthDb.Guarded (argon2 : Argon2) (issued : List IssuedSession) (db : AuthDb) : Prop where
  owner : db.Owned
  rows : ∀ r ∈ db.sessions, r.userId = ownerUserId
  current : ∀ r ∈ db.sessions, r.revokedAt = none →
    ∃ c ∈ issued, c.Justifies argon2 db r.id r.tokenHash

section Guarded

variable {argon2 : Argon2} {issued : List IssuedSession} {db db' : AuthDb} {now : ℤ}

theorem SessionRow.Becomes.unrevoked {r r' : SessionRow} (h : r.Becomes r')
    (hnone : r'.revokedAt = none) : r.revokedAt = none := by
  cases hrevoked : r.revokedAt with
  | none => rfl
  | some at' =>
    rw [h.revoked at' hrevoked] at hnone
    cases hnone

theorem IssuedSession.Justifies.becomes {r r' : SessionRow} {c : IssuedSession}
    (h : c.Justifies argon2 db r.id r.tokenHash) (hbecomes : r.Becomes r')
    (hhash : db'.ownerHash = db.ownerHash) : c.Justifies argon2 db' r'.id r'.tokenHash := by
  unfold IssuedSession.Justifies
  rw [hbecomes.id, hbecomes.tokenHash, hhash]
  exact h

theorem AuthDb.ownerHash_of_users (husers : db'.users = db.users) :
    db'.ownerHash = db.ownerHash := by
  unfold AuthDb.ownerHash
  rw [husers]

/-- The rows that a call leaves belong to the owner. -/
theorem AuthDb.Guarded.rows_after (h : db.Guarded argon2 issued) {born : Option SessionRow}
    (hmoves : db.Moves now born db') : ∀ r ∈ db'.sessions, r.userId = ownerUserId := by
  intro r' hr'
  rcases hmoves.rows r' hr' with ⟨r, hr, hbecomes⟩ | hnew
  · exact hbecomes.userId.trans (h.rows r hr)
  · exact (h.owner.activeUser _).mp (hmoves.born r' hnew).2.user

theorem AuthDb.Guarded.touches (h : db.Guarded argon2 issued) (htouches : db.Touches now db') :
    db'.Guarded argon2 issued := by
  refine ⟨h.owner.keeps htouches.moves.users, h.rows_after htouches.moves, fun r' hr' hnone => ?_⟩
  rcases htouches.moves.rows r' hr' with ⟨r, hr, hbecomes⟩ | hnew
  · obtain ⟨c, hc, hjustifies⟩ := h.current r hr (hbecomes.unrevoked hnone)
    exact ⟨c, hc, hjustifies.becomes hbecomes (AuthDb.ownerHash_of_users htouches.users)⟩
  · cases hnew

/-- A changed password revokes what it does not cover; the same password covers the same. -/
theorem AuthDb.Guarded.configures (h : db.Guarded argon2 issued) {username passwordHash : String}
    {previous updated : UserRow}
    (hconfigures : Configures username passwordHash now db previous updated db') :
    db'.Guarded argon2 issued := by
  have hmoves := hconfigures.moves
  refine ⟨h.owner.keeps hmoves.users, h.rows_after hmoves, fun r hr hnone => ?_⟩
  by_cases hchanged : previous.username ≠ username ∨ previous.passwordHash ≠ passwordHash
  · have hrevoked := hconfigures.revokes hchanged r hr (h.rows_after hmoves r hr)
    rw [hnone] at hrevoked
    cases hrevoked
  · rw [not_or, not_not, not_not] at hchanged
    have hhash : db'.ownerHash = db.ownerHash := by
      have hkey : updated.id = ownerUserId :=
        hconfigures.id.trans (Table.key_of_get? hconfigures.stored)
      have hstored : db'.users.get? ownerUserId = some updated := by
        rw [hconfigures.users]
        exact Table.get?_put_self hconfigures.stored hkey
      unfold AuthDb.ownerHash
      rw [hstored, hconfigures.stored, Option.map_some, Option.map_some, hconfigures.stores,
        hchanged.2]
    rw [hconfigures.same hchanged.1 hchanged.2] at hr
    obtain ⟨c, hc, hjustifies⟩ := h.current r hr hnone
    exact ⟨c, hc, hjustifies.becomes (.refl r) hhash⟩

/-- A login whose verification is up to date adds a session that its record justifies. -/
theorem AuthDb.Guarded.creates (h : db.Guarded argon2 issued) {row : SessionRow}
    {session : SessionRecord} {verified : Option (String × String)}
    (hmoves : db.Moves now (some row) db') (husers : db'.users = db.users)
    (hid : session.id = row.id) (hverified : Verified argon2 verified)
    (hcurrent : verified.map Prod.snd = db.ownerHash) :
    db'.Guarded argon2 (⟨row.tokenHash, session, verified⟩ :: issued) := by
  have hhash := AuthDb.ownerHash_of_users husers
  refine ⟨h.owner.keeps hmoves.users, h.rows_after hmoves, fun r' hr' hnone => ?_⟩
  rcases hmoves.rows r' hr' with ⟨r, hr, hbecomes⟩ | hnew
  · obtain ⟨c, hc, hjustifies⟩ := h.current r hr (hbecomes.unrevoked hnone)
    exact ⟨c, List.mem_cons_of_mem _ hc, hjustifies.becomes hbecomes hhash⟩
  · obtain rfl := Option.some.inj hnew
    obtain ⟨password, passwordHash, rfl, hverify⟩ := hverified
    exact ⟨_, List.mem_cons_self, rfl, hid, password, passwordHash, rfl, hverify,
      hhash.trans hcurrent.symm⟩

end Guarded

/-! ### Runs -/

/-- A session is created only while the owner's stored hash is the one that was verified. -/
def AuthRequest.upToDate (db : AuthDb) : AuthRequest → Option (String × String) → Bool
  | .createSession _ _ _ _, verified => verified.map Prod.snd == db.ownerHash
  | _, _ => true

def AuthTask.upToDate (db : AuthDb) (task : AuthTask) : Bool :=
  match task.program with
  | .done _ => true
  | .call q _ => q.upToDate db task.verified

/-- No change of the password lies between a login's verification and its session. -/
def LoginOp.upToDate (s : LoginSystem) : LoginOp → Bool
  | .advance i _ => s.tasks[i]?.all (AuthTask.upToDate s.auth.db)
  | .login _ _ | .initializeOwner _ _ | .call _ => true

structure LoginSystem.Inv (argon2 : Argon2) (s : LoginSystem) : Prop where
  guarded : s.auth.db.Guarded argon2 s.issued
  tasks : ∀ task ∈ s.tasks, Ready argon2 task.program task.verified

section Runs

variable {argon2 : Argon2} {s t : LoginSystem} {op : LoginOp}

theorem AuthOp.standing_touches {auth auth' : AuthSystem} {op : AuthOp}
    (hstanding : op.standing = true) (hstep : auth.step op = some auth') :
    auth.db.Touches auth.now auth'.db := by
  obtain ⟨-, rfl⟩ := AuthSystem.step_eq_some.mp hstep
  cases op with
  | activeSession tokenHash => exact activeSession_touches
  | rotateSessionCsrf sessionId csrfTokenHash => exact rotateSessionCsrf_touches
  | revokeSession sessionId => exact revokeSession_touches
  | purgeExpiredSessions => exact purgeExpiredSessions_touches
  | tick now => exact .refl _ _
  | createSession | configureOwner => cases hstanding

/-- A call of a task keeps the sessions justified. -/
theorem AuthDb.Guarded.serve {auth : AuthSystem} {issued : List IssuedSession}
    (h : auth.db.Guarded argon2 issued) (chance : Chance) {q : AuthRequest}
    {verified : Option (String × String)} (hjustified : q.Justified argon2 verified)
    (hcurrent : q.upToDate auth.db verified = true) :
    (auth.serve argon2 chance q).2.db.Guarded argon2
      (q.issues (auth.serve argon2 chance q).1 verified ++ issued) := by
  cases q with
  | checkLimiter _ | userCredentialsByUsername _ | ownerCredentials | verifyPassword _ _
  | hashPassword _ | randomToken => exact h
  | configureOwner username passwordHash =>
    show (configureOwner username passwordHash auth.now auth.db).2.Guarded argon2 issued
    rcases configureOwner_configures username passwordHash auth.now auth.db with
      hsame | ⟨_, _, hconfigures⟩
    · rw [hsame]
      exact h
    · exact h.configures hconfigures
  | createSession userId tokenHash csrfTokenHash ttl =>
    have hhash : verified.map Prod.snd = auth.db.ownerHash := beq_iff_eq.mp hcurrent
    show (createSession userId tokenHash csrfTokenHash ttl chance.sessionId auth.now
      auth.db).2.Guarded argon2 (((createSession userId tokenHash csrfTokenHash ttl
        chance.sessionId auth.now auth.db).1.toOption.toList.map
          fun session => ⟨tokenHash, session, verified⟩) ++ issued)
    rcases createSession_cases userId tokenHash csrfTokenHash ttl chance.sessionId auth.now
      h.owner with ⟨row, record, db', rfl, hid, -, -, hmoves, husers, hcall⟩ | ⟨e, hcall⟩
    · rw [hcall]
      exact h.creates hmoves husers hid hjustified hhash
    · rw [hcall]
      exact h

theorem LoginSystem.Inv.advance (h : s.Inv argon2) {i : ℕ} {chance : Chance} {task : AuthTask}
    (htask : s.tasks[i]? = some task) (hcurrent : task.upToDate s.auth.db = true)
    (hstep : s.advance argon2 i chance task = some t) : t.Inv argon2 := by
  have hready := h.tasks task (List.mem_of_getElem? htask)
  obtain ⟨program, verified⟩ := task
  cases program with
  | done _ => cases hstep
  | call q k =>
    obtain rfl := Option.some.inj hstep
    obtain ⟨hjustified, hnext⟩ :=
      hready.meets.act (fun _ => rfl) (s.auth.serve_learns chance q verified)
    refine ⟨h.guarded.serve chance hjustified hcurrent, fun other hother => ?_⟩
    rcases List.mem_or_eq_of_mem_set hother with hother | rfl
    · exact h.tasks other hother
    · exact ⟨hnext⟩

theorem LoginSystem.Inv.begin (h : s.Inv argon2)
    {program : Program AuthRequest AuthRequest.Reply AuthResult}
    (hready : Ready argon2 program none) : (s.begin program).Inv argon2 := by
  refine ⟨h.guarded, fun other hother => ?_⟩
  rcases List.mem_append.mp hother with hother | hother
  · exact h.tasks other hother
  · rw [List.mem_singleton.mp hother]
    exact hready

theorem LoginSystem.Inv.step (h : s.Inv argon2) (hcurrent : op.upToDate s = true)
    (hstep : s.step argon2 op = some t) : t.Inv argon2 := by
  cases op with
  | login app request =>
    obtain rfl := Option.some.inj hstep
    exact h.begin (ready_map (login_ready app request))
  | initializeOwner username password =>
    obtain rfl := Option.some.inj hstep
    exact h.begin (ready_map (initializeOwner_ready username password))
  | advance i chance =>
    obtain ⟨task, htask, hadvance⟩ := Option.bind_eq_some_iff.mp hstep
    simp only [LoginOp.upToDate, htask, Option.all_some] at hcurrent
    exact h.advance htask hcurrent hadvance
  | call op =>
    simp only [LoginSystem.step] at hstep
    split at hstep
    · rename_i hstanding
      obtain ⟨auth, hauth, rfl⟩ := Option.map_eq_some_iff.mp hstep
      exact ⟨h.guarded.touches (AuthOp.standing_touches hstanding hauth), h.tasks⟩
    · cases hstep

theorem LoginSystem.Inv.initial (now : ℤ) : (LoginSystem.initial now).Inv argon2 where
  guarded := ⟨⟨_, rfl, rfl, rfl⟩, fun r hr => absurd hr (Table.not_mem_empty r),
    fun r hr => absurd hr (Table.not_mem_empty r)⟩
  tasks := nofun

theorem activeSessionTx_answer {tokenHash : List UInt8} {now : ℤ} {db db' : AuthDb}
    {row : SessionRow × String} (h : activeSessionTx tokenHash now db = .ok (some row, db')) :
    row.1 ∈ db.sessions ∧ row.1.isLive db tokenHash now = true := by
  unfold activeSessionTx at h
  obtain ⟨_, _, hget, h⟩ := Tx.bind_ok.mp h
  cases hget
  obtain ⟨_, db₁, -, hend⟩ := Tx.bind_ok.mp h
  have hrow := (Prod.mk.inj (Except.ok.inj hend)).1
  obtain ⟨r, hfind, hname⟩ := Option.bind_eq_some_iff.mp hrow
  obtain ⟨account, -, rfl⟩ := Option.map_eq_some_iff.mp hname
  exact ⟨List.mem_of_find?_eq_some hfind, List.find?_some hfind⟩

/-- `active_session` finds a row that is not revoked. -/
theorem activeSession_found {tokenHash : List UInt8} {now : ℤ} {db : AuthDb}
    {found : SessionRecord} (h : (activeSession tokenHash now db).1 = .ok (some found)) :
    ∃ r ∈ db.sessions, r.tokenHash = tokenHash ∧ r.id = found.id ∧ r.revokedAt = none := by
  unfold activeSession at h
  obtain ⟨_, -, h⟩ := Session.lift_bind_ok.mp (Prod.ext h rfl)
  obtain ⟨row, db', hcommit, h⟩ := Session.bind_ok.mp h
  cases row with
  | none => cases h
  | some row =>
    obtain ⟨hmem, hlive⟩ := activeSessionTx_answer (commit_eq_ok.mp hcommit)
    obtain ⟨record, hrecord, h⟩ := Session.lift_bind_ok.mp h
    obtain rfl := Option.some.inj (Except.ok.inj (Prod.mk.inj h).1)
    simp only [SessionRow.isLive, Bool.and_eq_true, beq_iff_eq, Option.isNone_iff_eq_none]
      at hlive
    refine ⟨row.1, hmem, hlive.1.1.1, ?_, hlive.1.2⟩
    unfold SessionRecord.tryFrom at hrecord
    obtain ⟨_, -, hrecord⟩ := except_bind_ok.mp hrecord
    obtain ⟨_, -, hrecord⟩ := except_bind_ok.mp hrecord
    rw [except_pure_ok.mp hrecord]

end Runs

/-- A changed credential locks out the old one: in every run in which a login creates its session
only while the hash that it verified is still the stored one, every session that `active_session`
finds was created by a login whose password verifies against the stored hash. -/
theorem changed_credential_locks_out (argon2 : Argon2) {s : LoginSystem} {start : ℤ}
    (hrun : Run (LoginSystem.step argon2) (fun s op => op.upToDate s = true) (.initial start) s)
    {tokenHash : List UInt8} {found : SessionRecord}
    (hfound : (activeSession tokenHash s.auth.now s.auth.db).1 = .ok (some found)) :
    ∃ c ∈ s.issued, c.Justifies argon2 s.auth.db found.id tokenHash := by
  have hinv : s.Inv argon2 :=
    hrun.invariant (fun _ _ _ h hcurrent hstep => h.step hcurrent hstep) (.initial start)
  obtain ⟨r, hr, rfl, hid, hnone⟩ := activeSession_found hfound
  rw [← hid]
  exact hinv.guarded.current r hr hnone

/-! The owner has a first password and logs in with it; the second password is configured before or
after this login creates its session. -/

def sampleArgon2 : Argon2 := ⟨String, some, fun password hash => "hash of " ++ password == hash⟩

def sampleAuthApp : AuthApp := ⟨minSessionTtl, fun _ => Vector.replicate 32 7⟩

def sampleLogin : LoginRequest := ⟨"owner", "first password"⟩

/-- The calls of a set-up that changes the password. -/
def setupCalls (i : ℕ) (password : String) : List LoginOp :=
  [.initializeOwner "owner" password, .advance i {}, .advance i {},
    .advance i { hashed := .ok ("hash of " ++ password) }, .advance i {}]

/-- The calls of a login, up to its verification and from there on. -/
def loginCalls (i : ℕ) : List LoginOp × List LoginOp :=
  ([.login sampleAuthApp sampleLogin, .advance i {}, .advance i {}, .advance i {}],
    [.advance i { token := "session" }, .advance i { token := "csrf" },
      .advance i { sessionId := 9 }])

/-- The session that `active_session` finds for the sample token. -/
def LoginSystem.sampleFound (s : LoginSystem) : Option SessionRecord :=
  (activeSession sampleToken s.auth.now s.auth.db).1.toOption.join

theorem LoginSystem.sampleFound_eq {s : LoginSystem} {found : SessionRecord}
    (h : s.sampleFound = some found) :
    (activeSession sampleToken s.auth.now s.auth.db).1 = .ok (some found) := by
  unfold LoginSystem.sampleFound at h
  cases hanswer : (activeSession sampleToken s.auth.now s.auth.db).1 with
  | error e =>
    rw [hanswer] at h
    cases h
  | ok answer =>
    rw [hanswer] at h
    exact congrArg _ h

theorem changed_credential_locks_out_sample : ∃ s : LoginSystem, ∃ found c,
    Run (LoginSystem.step sampleArgon2) (fun s op => op.upToDate s = true) (.initial 0) s ∧
    (activeSession sampleToken s.auth.now s.auth.db).1 = .ok (some found) ∧
    c ∈ s.issued ∧ c.Justifies sampleArgon2 s.auth.db found.id sampleToken := by
  have hreplay : (exec (guarded (LoginSystem.step sampleArgon2) fun s op => op.upToDate s)
      (LoginSystem.initial 0) (setupCalls 0 "first password" ++ (loginCalls 1).1 ++
        (loginCalls 1).2)).any (fun s => s.sampleFound.isSome) = true := by
    decide +kernel
  obtain ⟨s, hexec, hsome⟩ := (Option.any_eq_true _ _).mp hreplay
  obtain ⟨found, hfound⟩ := Option.isSome_iff_exists.mp hsome
  have hanswer := LoginSystem.sampleFound_eq hfound
  have hrun : Run (LoginSystem.step sampleArgon2) (fun s op => op.upToDate s = true)
      (.initial 0) s := run_of_guarded (fun _ _ h => h) hexec
  obtain ⟨c, hc, hjustifies⟩ := changed_credential_locks_out sampleArgon2 hrun hanswer
  exact ⟨s, found, c, hrun, hanswer, hc, hjustifies⟩

/-- A login that verified the first password before the change creates its session after it. -/
theorem old_credential_gets_in : ¬∀ (argon2 : Argon2) (s : LoginSystem) (start : ℤ)
    (tokenHash : List UInt8) (found : SessionRecord),
    Run (LoginSystem.step argon2) Always (.initial start) s →
    (activeSession tokenHash s.auth.now s.auth.db).1 = .ok (some found) →
    ∃ c ∈ s.issued, c.Justifies argon2 s.auth.db found.id tokenHash := by
  intro hclaim
  have hreplay : (exec (LoginSystem.step sampleArgon2) (LoginSystem.initial 0)
      (setupCalls 0 "first password" ++ (loginCalls 1).1 ++ setupCalls 2 "other password" ++
        (loginCalls 1).2)).any (fun s => s.sampleFound.isSome &&
          decide (s.auth.db.ownerHash = some "hash of other password") &&
          s.issued.all fun c => c.verified == some ("first password", "hash of first password")) =
      true := by
    decide +kernel
  obtain ⟨s, hexec, htests⟩ := (Option.any_eq_true _ _).mp hreplay
  simp only [Bool.and_eq_true, decide_eq_true_eq, List.all_eq_true, beq_iff_eq] at htests
  obtain ⟨⟨hsome, hhash⟩, hissued⟩ := htests
  obtain ⟨found, hfound⟩ := Option.isSome_iff_exists.mp hsome
  have hrun : Run (LoginSystem.step sampleArgon2) Always (.initial 0) s :=
    run_of_exec (fun _ _ _ => trivial) hexec
  obtain ⟨c, hc, -, -, password, passwordHash, hverified, -, hstored⟩ :=
    hclaim sampleArgon2 s 0 sampleToken found hrun (LoginSystem.sampleFound_eq hfound)
  rw [hissued c hc] at hverified
  cases hverified
  rw [hhash] at hstored
  simp at hstored

end TaskHarbor
