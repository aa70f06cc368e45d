import TaskHarbor.Api.Guard
import TaskHarbor.Auth.Sessions

/-! The tokens of a session over runs. The row under a session token keeps the hash of the CSRF
token that was given out with it until `rotate_session_csrf` is called for this very session, so
`require_auth` asks for the token that was given last. -/
namespace TaskHarbor

open Relational Transaction Runs

/-- The rows under a token hash come from rows under it, and outside one session they keep the hash
of the CSRF token. -/
def AuthDb.KeepsCsrf (tokenHash : List UInt8) (sessionId : Uuid) (db db' : AuthDb) : Prop :=
  ∀ r' ∈ db'.sessions, r'.tokenHash = tokenHash → ∃ r ∈ db.sessions, r.tokenHash = tokenHash ∧
    r'.id = r.id ∧ (r.id = sessionId → r'.csrfTokenHash = r.csrfTokenHash)

section Calls

variable {now : ℤ} {db db' : AuthDb} {tokenHash : List UInt8} {sessionId : Uuid}

theorem AuthDb.KeepsCsrf.refl (db : AuthDb) : db.KeepsCsrf tokenHash sessionId db :=
  fun r hr htoken => ⟨r, hr, htoken, rfl, fun _ => rfl⟩

/-- An UPDATE that writes the CSRF token of other sessions only. -/
theorem updateSessions_keepsCsrf {p : SessionRow → Bool} {f : SessionRow → SessionRow} {hf} {n : ℕ}
    (h : updateSessions p f hf db = .ok (n, db')) (hid : ∀ r, (f r).id = r.id)
    (htoken : ∀ r, (f r).tokenHash = r.tokenHash)
    (hcsrf : ∀ r, p r = true → r.id = sessionId → (f r).csrfTokenHash = r.csrfTokenHash) :
    db.KeepsCsrf tokenHash sessionId db' := by
  intro r' hr' hsame
  obtain ⟨r, hr, rfl⟩ := updateSessions_rows h r' hr'
  cases hp : p r with
  | false =>
    rw [hp] at hsame
    exact ⟨r, hr, hsame, rfl, fun _ => rfl⟩
  | true =>
    rw [hp] at hsame
    exact ⟨r, hr, (htoken r).symm.trans hsame, hid r, hcsrf r hp⟩

theorem AuthDb.Updates.keepsCsrf {p : SessionRow → Bool} {f : SessionRow → SessionRow} {hf}
    (h : db.Updates p f hf db') (hid : ∀ r, (f r).id = r.id)
    (htoken : ∀ r, (f r).tokenHash = r.tokenHash)
    (hcsrf : ∀ r, p r = true → r.id = sessionId → (f r).csrfTokenHash = r.csrfTokenHash) :
    db.KeepsCsrf tokenHash sessionId db' := by
  rcases h with rfl | ⟨n, hupdate⟩
  · exact .refl _
  · exact updateSessions_keepsCsrf hupdate hid htoken hcsrf

theorem activeSession_keepsCsrf {seen : List UInt8} :
    Session.Moves (AuthDb.KeepsCsrf tokenHash sessionId) (activeSession seen now) db :=
  AuthDb.Updates.keepsCsrf activeSession_updates (fun _ => rfl) (fun _ => rfl) fun _ _ _ => rfl

theorem revokeSession_keepsCsrf {revoked : Uuid} :
    Session.Moves (AuthDb.KeepsCsrf tokenHash sessionId) (revokeSession revoked now) db :=
  AuthDb.Updates.keepsCsrf revokeSession_updates (fun _ => rfl) (fun _ => rfl) fun _ _ _ => rfl

/-- A rotation writes the CSRF token of its own session. -/
theorem rotateSessionCsrf_keepsCsrf {rotated : Uuid} {csrfTokenHash : List UInt8}
    (hother : rotated ≠ sessionId) : Session.Moves (AuthDb.KeepsCsrf tokenHash sessionId)
      (rotateSessionCsrf rotated csrfTokenHash now) db := by
  refine AuthDb.Updates.keepsCsrf rotateSessionCsrf_updates (fun _ => rfl) (fun _ => rfl) ?_
  intro r hguard hid
  simp only [Bool.and_eq_true, beq_iff_eq] at hguard
  exact absurd (hguard.1.1.symm.trans hid) hother

theorem configureOwner_keepsCsrf {username passwordHash : String} :
    Session.Moves (AuthDb.KeepsCsrf tokenHash sessionId)
      (configureOwner username passwordHash now) db := by
  unfold Session.Moves
  rcases configureOwner_configures username passwordHash now db with
    hsame | ⟨previous, updated, hconfigures⟩
  · rw [hsame]
    exact .refl db
  by_cases hchanged : previous.username ≠ username ∨ previous.passwordHash ≠ passwordHash
  · obtain ⟨n, hupdate⟩ := hconfigures.changed hchanged
    intro r hr htoken
    exact updateSessions_keepsCsrf hupdate (fun _ => rfl) (fun _ => rfl) (fun _ _ _ => rfl) r hr
      htoken
  · rw [not_or, not_not, not_not] at hchanged
    intro r hr htoken
    rw [hconfigures.same hchanged.1 hchanged.2] at hr
    exact ⟨r, hr, htoken, rfl, fun _ => rfl⟩

theorem purgeExpiredSessions_keepsCsrf :
    Session.Moves (AuthDb.KeepsCsrf tokenHash sessionId) (purgeExpiredSessions now) db := by
  refine Session.moves_commit (.refl db) fun n db' h => ?_
  cases h
  exact fun r hr htoken => ⟨r, (Table.mem_delete.mp hr).1, htoken, rfl, fun _ => rfl⟩

/-- The rows after a creation: the old ones, and the new one with its two hashes. -/
theorem createSession_rows {userId ttl : ℕ} {token csrfTokenHash : List UInt8} {created : Uuid} :
    Session.Moves (fun db db' => ∀ r ∈ db'.sessions, r ∈ db.sessions ∨
      r.id = created ∧ r.tokenHash = token ∧ r.csrfTokenHash = csrfTokenHash)
      (createSession userId token csrfTokenHash ttl created now) db := by
  have hrefl : ∀ r ∈ db.sessions, r ∈ db.sessions ∨
      r.id = created ∧ r.tokenHash = token ∧ r.csrfTokenHash = csrfTokenHash := fun _ => Or.inl
  refine Session.moves_lift_bind hrefl fun _ _ => Session.moves_lift_bind hrefl fun _ _ => ?_
  refine Session.moves_unless hrefl fun _ => ?_
  refine Session.moves_bind_read (Session.moves_commit hrefl ?_) fun row db' => ?_
  · intro row db' h
    unfold createSessionTx at h
    obtain ⟨_, _, hget, h⟩ := Tx.bind_ok.mp h
    cases hget
    cases haccount : activeUser db userId with
    | none =>
      rw [haccount] at h
      cases h
    | some account =>
      rw [haccount] at h
      obtain ⟨_, db₁, hinsert, h⟩ := Tx.bind_ok.mp h
      cases h
      obtain ⟨-, -, -, hrows⟩ := insertSession_ok hinsert
      intro r hr
      rcases (hrows r).mp hr with hold | rfl
      · exact Or.inl hold
      · exact Or.inr ⟨rfl, rfl, rfl⟩
  · rw [Session.liftExcept_run]

/-- The session that `active_session` answers with is the one of the row. -/
theorem activeSession_row {record : SessionRecord}
    (h : (activeSession tokenHash now db).1 = .ok (some record)) :
    ∃ r ∈ db.sessions, r.tokenHash = tokenHash ∧ r.id = record.id ∧
      r.csrfTokenHash = record.csrfTokenHash := by
  obtain ⟨_, -, h⟩ := Session.lift_bind_ok.mp (Prod.ext h rfl : activeSession tokenHash now db =
    (.ok (some record), (activeSession tokenHash now db).2))
  obtain ⟨row, db₁, hcommit, h⟩ := Session.bind_ok.mp h
  cases row with
  | none => cases h
  | some row =>
    obtain ⟨found, db₂, hfound, h⟩ := Session.bind_ok.mp h
    obtain rfl : found = record := by
      cases h
      rfl
    rw [Session.liftExcept_run, Prod.mk.injEq] at hfound
    obtain ⟨_, -, hrecord⟩ := except_bind_ok.mp hfound.1
    obtain ⟨userId, -, hrecord⟩ := except_bind_ok.mp hrecord
    cases hrecord
    have htx := commit_eq_ok.mp hcommit
    unfold activeSessionTx at htx
    simp only [Tx.bind_ok, Tx.get_run, Tx.pure_run, Except.ok.injEq, Prod.mk.injEq] at htx
    obtain ⟨_, _, ⟨rfl, rfl⟩, n, db₃, -, hrow, -⟩ := htx
    obtain ⟨r, hfind, haccount⟩ := Option.bind_eq_some_iff.mp hrow
    obtain ⟨account, -, rfl⟩ := Option.map_eq_some_iff.mp haccount
    have hguard := List.find?_some hfind
    simp only [SessionRow.isLive, Bool.and_eq_true, beq_iff_eq] at hguard
    exact ⟨r, List.mem_of_find?_eq_some hfind, hguard.1.1.1, rfl, rfl⟩

end Calls

/-! ### Runs -/

/-- The session of a token is the given one, and so is its CSRF token, as long as it has a row. -/
structure AuthSystem.Wears (s : AuthSystem) (digest : List UInt8) (sessionId : Uuid)
    (csrfTokenHash : List UInt8) : Prop where
  known : digest ∈ s.created.map Prod.fst
  row : ∀ r ∈ s.db.sessions, r.tokenHash = digest →
    r.id = sessionId ∧ r.csrfTokenHash = csrfTokenHash

/-- Nobody rotates the CSRF token of the session. -/
def AuthOp.Unrotated (sessionId : Uuid) (s : AuthSystem) (op : AuthOp) : Prop :=
  op.Fresh s ∧ ∀ csrfTokenHash, op ≠ .rotateSessionCsrf sessionId csrfTokenHash

section Runs

variable {s t : AuthSystem} {op : AuthOp} {digest csrfTokenHash : List UInt8} {sessionId : Uuid}

theorem AuthSystem.step_apply (h : op.enabled s = true) : s.step op = some (s.apply op) :=
  AuthSystem.step_eq_some.mpr ⟨h, rfl⟩

theorem AuthSystem.step_keepsCsrf (hknown : digest ∈ s.created.map Prod.fst)
    (hop : op.Unrotated sessionId s) (hstep : s.step op = some t) :
    s.db.KeepsCsrf digest sessionId t.db := by
  obtain ⟨-, rfl⟩ := AuthSystem.step_eq_some.mp hstep
  cases op with
  | createSession userId token csrf ttl created =>
    intro r' hr' htoken
    rcases createSession_rows r' hr' with hold | ⟨-, hnew, -⟩
    · exact ⟨r', hold, htoken, rfl, fun _ => rfl⟩
    · exact absurd (htoken.symm.trans hnew ▸ hknown) hop.1
  | activeSession seen => exact activeSession_keepsCsrf
  | rotateSessionCsrf rotated csrf =>
    refine rotateSessionCsrf_keepsCsrf ?_
    rintro rfl
    exact hop.2 csrf rfl
  | revokeSession revoked => exact revokeSession_keepsCsrf
  | configureOwner username passwordHash => exact configureOwner_keepsCsrf
  | purgeExpiredSessions => exact purgeExpiredSessions_keepsCsrf
  | tick now => exact .refl s.db

/-- A session that nobody rotates keeps its CSRF token. -/
theorem AuthSystem.Wears.step (h : s.Wears digest sessionId csrfTokenHash) (hs : s.Inv)
    (hop : op.Unrotated sessionId s) (hstep : s.step op = some t) :
    t.Wears digest sessionId csrfTokenHash := by
  have hgrows := AuthSystem.run_grows hs (.single op hop.1 hstep)
  refine ⟨List.map_subset _ hgrows.created h.known, fun r' hr' htoken => ?_⟩
  obtain ⟨r, hr, hsame, hid, hcsrf⟩ := AuthSystem.step_keepsCsrf h.known hop hstep r' hr' htoken
  obtain ⟨hsession, hworn⟩ := h.row r hr hsame
  exact ⟨hid.trans hsession, (hcsrf hsession).trans hworn⟩

theorem AuthSystem.Wears.run (h : s.Wears digest sessionId csrfTokenHash) (hs : s.Inv)
    (hrun : Run AuthSystem.step (AuthOp.Unrotated sessionId) s t) :
    t.Inv ∧ t.Wears digest sessionId csrfTokenHash :=
  hrun.invariant (P := fun s => s.Inv ∧ s.Wears digest sessionId csrfTokenHash)
    (fun _ _ _ h hop hstep => ⟨h.1.step hop.1 hstep, h.2.step h.1 hop hstep⟩) ⟨hs, h⟩

/-- A row of a known token belongs to the same session for ever. -/
theorem AuthSystem.Inv.session_kept (hs : s.Inv) (hrun : Run AuthSystem.step AuthOp.Fresh s t)
    {r r' : SessionRow} (hr : r ∈ s.db.sessions) (hr' : r' ∈ t.db.sessions)
    (htoken : r'.tokenHash = r.tokenHash) : r'.id = r.id := by
  obtain ⟨record, hmem, hid, -⟩ := hs.recorded r hr
  obtain ⟨record', hmem', hid', -⟩ := (hs.run hrun).recorded r' hr'
  rw [htoken] at hmem'
  have hsame := (hs.run hrun).record_eq hmem' ((AuthSystem.run_grows hs hrun).created hmem)
  rw [← hid, ← hid', hsame]

/-! ### The guard -/

/-- The guard refuses the token of a dead session. -/
theorem AuthSystem.Inv.requireAuth_dead {app : AuthApp} {request : GuardedRequest}
    {rawToken : String} (hs : s.Inv) (hcookie : request.cookies sessionCookie = some rawToken)
    (hdead : ¬s.Alive (tokenHash app rawToken)) :
    (requireAuth app request s.now s.db).1 = .error .unauthorized := by
  have hlength : (tokenHash app rawToken).length = 32 := Vector.length_toList
  exact requireAuth_unauthorized hcookie ((hs.activeSession_none hlength).mpr hdead)

/-- What `require_auth` answers to a request with the session cookie. -/
theorem AuthSystem.Wears.guard {app : AuthApp} {request : GuardedRequest} {rawToken : String}
    (h : s.Wears (tokenHash app rawToken) sessionId csrfTokenHash) (hs : s.Inv)
    (hcookie : request.cookies sessionCookie = some rawToken) :
    (¬s.Alive (tokenHash app rawToken) →
      (requireAuth app request s.now s.db).1 = .error .unauthorized) ∧
    (s.Alive (tokenHash app rawToken) →
      (request.Presents app csrfTokenHash → ∃ session,
        (requireAuth app request s.now s.db).1 = .ok session ∧ session.id = sessionId) ∧
      (¬request.Presents app csrfTokenHash →
        (requireAuth app request s.now s.db).1 = .error .invalidCsrf)) := by
  constructor
  · exact fun hdead => hs.requireAuth_dead hcookie hdead
  · intro halive
    obtain ⟨record, hfound⟩ := hs.activeSession_iff.mpr halive
    obtain ⟨r, hr, htoken, hid, hcsrf⟩ := activeSession_row hfound
    obtain ⟨hsession, hworn⟩ := h.row r hr htoken
    have hspec := @GuardedRequest.checkCsrf_spec app request record
    rw [← hcsrf, hworn] at hspec
    rw [requireAuth_checkCsrf hcookie hfound]
    constructor
    · intro hpresents
      rw [hspec.1 hpresents]
      exact ⟨_, rfl, hid.symm.trans hsession⟩
    · intro hpresents
      rw [hspec.2 hpresents]
      rfl

/-! ### Where the tokens come from -/

/-- After a login the session wears the tokens of the login. -/
theorem AuthSystem.created_wears {userId ttl : ℕ} {record : SessionRecord} (hs : s.Inv)
    (hfresh : digest ∉ s.created.map Prod.fst)
    (hanswer : (createSession userId digest csrfTokenHash ttl sessionId s.now s.db).1 =
      .ok record) :
    (s.apply (.createSession userId digest csrfTokenHash ttl sessionId)).Wears digest
      sessionId csrfTokenHash := by
  refine ⟨?_, fun r hr htoken => ?_⟩
  · simp [AuthSystem.apply, hanswer, createdSession]
  · rcases createSession_rows r hr with hold | ⟨hid, -, hcsrf⟩
    · obtain ⟨record', hmem, -⟩ := hs.recorded r hold
      rw [htoken] at hmem
      exact absurd (List.mem_map_of_mem hmem) hfresh
    · exact ⟨hid, hcsrf⟩

/-- What the guard has found is a row of the token. -/
theorem AuthSystem.guarded_has_row {app : AuthApp} {request : GuardedRequest} {rawToken : String}
    {session : AuthSession} (hs : s.Inv) (hcookie : request.cookies sessionCookie = some rawToken)
    (hguard : (requireAuth app request s.now s.db).1 = .ok session) :
    ∃ r ∈ s.db.sessions, r.tokenHash = tokenHash app rawToken ∧ r.id = session.id ∧
      r.csrfTokenHash = session.csrfTokenHash := by
  have halive : s.Alive (tokenHash app rawToken) := by
    by_contra hdead
    rw [hs.requireAuth_dead hcookie hdead] at hguard
    cases hguard
  obtain ⟨record, hfound⟩ := hs.activeSession_iff.mpr halive
  rw [requireAuth_checkCsrf hcookie hfound] at hguard
  obtain rfl : AuthSession.ofRecord record = session := by
    cases hcheck : request.checkCsrf app record with
    | error e =>
      rw [hcheck] at hguard
      cases hguard
    | ok _ =>
      rw [hcheck] at hguard
      exact Except.ok.inj hguard
  exact activeSession_row hfound

/-- A session that the guard found wears the hash that the guard read. -/
theorem AuthSystem.guarded_wears {app : AuthApp} {request : GuardedRequest} {rawToken : String}
    {session : AuthSession} (hs : s.Inv) (hcookie : request.cookies sessionCookie = some rawToken)
    (hguard : (requireAuth app request s.now s.db).1 = .ok session) :
    s.Wears (tokenHash app rawToken) session.id session.csrfTokenHash := by
  obtain ⟨r, hr, htoken, hid, hcsrf⟩ := AuthSystem.guarded_has_row hs hcookie hguard
  obtain ⟨record, hmem, -⟩ := hs.recorded r hr
  rw [htoken] at hmem
  refine ⟨List.mem_map_of_mem hmem, fun r' hr' htoken' => ?_⟩
  obtain rfl := hs.unique r' hr' r hr (htoken'.trans htoken.symm)
  exact ⟨hid, hcsrf⟩

/-- A rotation that is answered gives the session its new token. -/
theorem AuthSystem.rotated_wears {u : Unit} (hknown : digest ∈ s.created.map Prod.fst)
    (hrow : ∀ r ∈ s.db.sessions, r.tokenHash = digest → r.id = sessionId)
    (hanswer : (rotateSessionCsrf sessionId csrfTokenHash s.now s.db).1 = .ok u) :
    (s.apply (.rotateSessionCsrf sessionId csrfTokenHash)).Wears digest sessionId
      csrfTokenHash := by
  refine ⟨hknown, fun r' hr' htoken => ?_⟩
  obtain ⟨_, -, h⟩ := Session.lift_bind_ok.mp
    (Prod.ext hanswer rfl : rotateSessionCsrf sessionId csrfTokenHash s.now s.db = (.ok u, _))
  obtain ⟨n, db₁, hupdate, hcount⟩ := Tx.bind_ok.mp (commit_eq_ok.mp h)
  obtain ⟨hone, rfl⟩ := Tx.liftExcept_ok.mp hcount
  obtain ⟨r, hr, rfl⟩ := updateSessions_rows hupdate r' hr'
  obtain ⟨-, rfl, -⟩ := updateSessions_ok.mp hupdate
  have hkey : ∀ r : SessionRow, (r.id == sessionId && r.revokedAt.isNone &&
      decide (s.now < r.expiresAt)) = true → r.id = sessionId := by
    intro r hguard
    simp only [Bool.and_eq_true, beq_iff_eq] at hguard
    exact hguard.1.1
  obtain ⟨w, hw, hguard⟩ := (Table.count_eq_one_iff hkey).mp (ensureOneRow_ok.mp hone)
  have hid : r.id = sessionId := by
    refine hrow r hr ?_
    split at htoken <;> exact htoken
  obtain rfl : r = w := Table.key_inj hr (Table.mem_of_get? hw) (hid.trans (hkey w hguard).symm)
  rw [if_pos hguard]
  exact ⟨hid, rfl⟩

/-! ### Requests -/

/-- The state after a handler ran its calls. -/
def AuthSystem.serves {ε α : Type} (s : AuthSystem) (x : Transaction.Session AuthDb ε α) :
    AuthSystem :=
  let db := (x s.db).2
  { s with db, revoked := db.revokedTokens ++ s.revoked }

variable {app : AuthApp} {request : GuardedRequest} {session : AuthSession}
  {sessionToken csrfToken : String}

theorem AuthSystem.serves_requireAuth
    (hcookie : request.cookies sessionCookie = some sessionToken) :
    s.serves (requireAuth app request s.now) =
      s.apply (.activeSession (tokenHash app sessionToken)) := by
  unfold AuthSystem.serves AuthSystem.apply AuthSystem.run
  rw [requireAuth_run hcookie]

/-- Without the right cookie `current_session` rotates. -/
theorem AuthSystem.serves_currentSession
    (hcurrent : session.currentCsrf app request.cookies = none) :
    s.serves (currentSession app session request.cookies csrfToken s.now) =
      s.apply (.rotateSessionCsrf session.id (tokenHash app csrfToken)) := by
  unfold AuthSystem.serves AuthSystem.apply AuthSystem.run
  rw [currentSession_run hcurrent]

/-- A `logout` whose call arrives revokes. -/
theorem AuthSystem.serves_logout {connection : Connection}
    (h : ∀ message, connection ≠ .broken message) :
    s.serves (logout connection session s.now) = s.apply (.revokeSession session.id) := by
  have hrevoke :
      (logout connection session s.now s.db).2 = (revokeSession session.id s.now s.db).2 :=
    Connection.over_run _ h
  unfold AuthSystem.serves
  rw [hrevoke]
  rfl

/-- How a client comes by the two tokens of a session: from a login, or from `current_session`
behind the guard, which answers with the token of the cookie or with a new one. -/
inductive AuthSystem.Gives (app : AuthApp) (sessionToken csrfToken : String) (sessionId : Uuid) :
    AuthSystem → AuthSystem → Prop
  | login {s : AuthSystem} {userId ttl : ℕ} {record : SessionRecord}
      (fresh : tokenHash app sessionToken ∉ s.created.map Prod.fst)
      (answer : (createSession userId (tokenHash app sessionToken)
        (tokenHash app csrfToken) ttl sessionId s.now s.db).1 = .ok record) :
      Gives app sessionToken csrfToken sessionId s
        (s.apply (.createSession userId (tokenHash app sessionToken)
          (tokenHash app csrfToken) ttl sessionId))
  | kept {s : AuthSystem} {request : GuardedRequest} {session : AuthSession}
      (cookie : request.cookies sessionCookie = some sessionToken)
      (guard : (requireAuth app request s.now s.db).1 = .ok session) (id : session.id = sessionId)
      (current : session.currentCsrf app request.cookies = some csrfToken) :
      Gives app sessionToken csrfToken sessionId s (s.serves (requireAuth app request s.now))
  | rotated {s₀ s : AuthSystem} {request : GuardedRequest} {session : AuthSession}
      (cookie : request.cookies sessionCookie = some sessionToken)
      (guard : (requireAuth app request s₀.now s₀.db).1 = .ok session)
      (id : session.id = sessionId)
      (between : Run AuthSystem.step AuthOp.Fresh (s₀.serves (requireAuth app request s₀.now)) s)
      (current : session.currentCsrf app request.cookies = none)
      (answer : (currentSession app session request.cookies csrfToken s.now s.db).1 =
        .ok csrfToken) :
      Gives app sessionToken csrfToken sessionId s₀
        (s.serves (currentSession app session request.cookies csrfToken s.now))

/-- After the guard the rows of the session token belong to its session for ever. -/
theorem AuthSystem.guarded_row {s₀ : AuthSystem} (hs : s₀.Inv)
    (hcookie : request.cookies sessionCookie = some sessionToken)
    (hguard : (requireAuth app request s₀.now s₀.db).1 = .ok session)
    (hrun : Run AuthSystem.step AuthOp.Fresh (s₀.serves (requireAuth app request s₀.now)) s) :
    Run AuthSystem.step AuthOp.Fresh s₀ s ∧
      tokenHash app sessionToken ∈ s.created.map Prod.fst ∧
      ∀ r ∈ s.db.sessions, r.tokenHash = tokenHash app sessionToken →
        r.id = session.id := by
  rw [AuthSystem.serves_requireAuth hcookie] at hrun
  have hfresh : (AuthOp.activeSession (tokenHash app sessionToken)).Fresh s₀ := trivial
  have hbegin : Run AuthSystem.step AuthOp.Fresh s₀ s :=
    (Run.single _ hfresh (AuthSystem.step_apply rfl)).trans hrun
  have hwears := AuthSystem.guarded_wears hs hcookie hguard
  refine ⟨hbegin, List.map_subset _ (AuthSystem.run_grows hs hbegin).created hwears.known,
    fun r hr htoken => ?_⟩
  obtain ⟨r₀, hr₀, htoken₀, hid, -⟩ := AuthSystem.guarded_has_row hs hcookie hguard
  exact (hs.session_kept hbegin hr₀ hr (htoken.trans htoken₀.symm)).trans hid

/-- Whoever is given the tokens of a session, the session wears them. -/
theorem AuthSystem.Gives.wears (h : AuthSystem.Gives app sessionToken csrfToken sessionId s t)
    (hs : s.Inv) : t.Inv ∧ t.Wears (tokenHash app sessionToken) sessionId
      (tokenHash app csrfToken) := by
  cases h with
  | @login userId ttl record fresh answer =>
    have hfresh : (AuthOp.createSession userId (tokenHash app sessionToken)
        (tokenHash app csrfToken) ttl sessionId).Fresh s := fresh
    exact ⟨hs.step hfresh (AuthSystem.step_apply rfl),
      AuthSystem.created_wears hs fresh answer⟩
  | @kept request session cookie guard id current =>
    subst id
    have hwears := AuthSystem.guarded_wears hs cookie guard
    rw [← AuthSession.currentCsrf_ok current] at hwears
    rw [AuthSystem.serves_requireAuth cookie]
    have hop : (AuthOp.activeSession (tokenHash app sessionToken)).Unrotated
        session.id s := ⟨trivial, fun _ h => by cases h⟩
    exact hwears.run hs (.single _ hop (AuthSystem.step_apply rfl))
  | @rotated s₁ request session cookie guard id between current answer =>
    subst id
    obtain ⟨hbegin, hknown, hrow⟩ := AuthSystem.guarded_row hs cookie guard between
    obtain ⟨u, hrotate⟩ := currentSession_rotated current answer
    rw [AuthSystem.serves_currentSession current]
    have hfresh : (AuthOp.rotateSessionCsrf session.id (tokenHash app csrfToken)).Fresh
        s₁ := trivial
    exact ⟨(hs.run hbegin).step hfresh (AuthSystem.step_apply rfl),
      AuthSystem.rotated_wears hknown hrow hrotate⟩

theorem SessionRow.revoked_checks {r : SessionRow} {now : ℤ} (h : holdsAll r.checks = true)
    (hnow : r.createdAt ≤ now) : holdsAll (r.revoked now).checks = true := by
  simp only [holdsAll, SessionRow.checks, SessionRow.revoked, List.all_cons, List.all_nil,
    Bool.and_eq_true, Bool.and_true, Option.all_some] at h ⊢
  refine ⟨h.1, h.2.1, h.2.2.1, h.2.2.2.1, ?_⟩
  cases hrevoked : r.revokedAt with
  | none => exact decide_eq_true hnow
  | some t =>
    rw [hrevoked] at h
    exact h.2.2.2.2

/-- After `revoke_session`, whatever it answers, no row of the session is live. -/
theorem AuthSystem.Inv.revoked_dead (hs : s.Inv) (hrow : ∀ r ∈ s.db.sessions,
    r.tokenHash = digest → r.id = sessionId) :
    ¬(s.apply (.revokeSession sessionId)).Alive digest := by
  have hfresh : (AuthOp.revokeSession sessionId).Fresh s := trivial
  have hnext := hs.step hfresh (AuthSystem.step_apply rfl)
  intro halive
  obtain ⟨r', hr', hguard⟩ := hnext.alive_iff.mp halive
  simp only [SessionRow.isLive, Bool.and_eq_true, beq_iff_eq] at hguard
  obtain ⟨⟨⟨htoken, -⟩, hunrevoked⟩, -⟩ := hguard
  replace hr' : r' ∈ (revokeSession sessionId s.now s.db).2.sessions := hr'
  unfold revokeSession at hr'
  rcases commit_cases (do
      let updated ← updateSessions (fun r => r.id == sessionId) (SessionRow.revoked s.now)
      ensureOneRow updated "revoke session" : AuthTx Unit) s.db with
    ⟨u, db', htx, hc⟩ | ⟨e, htx, hc⟩
  · rw [hc] at hr'
    obtain ⟨n, db₁, hupdate, hcount⟩ := Tx.bind_ok.mp htx
    obtain ⟨-, rfl⟩ := Tx.liftExcept_ok.mp hcount
    obtain ⟨r, hr, rfl⟩ := updateSessions_rows hupdate r' hr'
    have hid : r.id = sessionId := by
      refine hrow r hr ?_
      split at htoken <;> exact htoken
    rw [if_pos (beq_iff_eq.mpr hid)] at hunrevoked
    cases hunrevoked
  · rw [hc] at hr'
    -- The session has a row, so the UPDATE would have found it.
    have hone : s.db.sessions.count (fun r => r.id == sessionId) = 1 :=
      (Table.count_eq_one_iff fun _ hid => beq_iff_eq.mp hid).mpr
        ⟨r', hrow r' hr' htoken ▸ Table.get?_key hr', beq_iff_eq.mpr (hrow r' hr' htoken)⟩
    obtain ⟨db', hupdate⟩ : ∃ db', updateSessions (fun r => r.id == sessionId)
        (SessionRow.revoked s.now) (by intro r; rfl) s.db = .ok (1, db') :=
      ⟨_, updateSessions_ok.mpr ⟨fun r hr _ => SessionRow.revoked_checks (hs.sound r hr).1
        (hs.sound r hr).2.2, hone.symm, rfl⟩⟩
    rw [Tx.bind_ok.mpr ⟨1, db', hupdate, rfl⟩] at htx
    cases htx

end Runs

/-- `require_auth` asks for the tokens that were given last. From a login, or from an answer of
`current_session`, on, whatever requests are made meanwhile except rotations of this session, a
request with the session token passes exactly while the session is alive and, where the method
requires it, with the CSRF token of that answer. -/
theorem guard_asks_for_given_tokens {app : AuthApp} {start : ℤ} {s₀ s t : AuthSystem}
    {sessionToken csrfToken : String} {sessionId : Uuid} {request : GuardedRequest}
    (hrun₀ : Run AuthSystem.step AuthOp.Fresh (.initial start) s₀)
    (hgives : AuthSystem.Gives app sessionToken csrfToken sessionId s₀ s)
    (hrun : Run AuthSystem.step (AuthOp.Unrotated sessionId) s t)
    (hcookie : request.cookies sessionCookie = some sessionToken) :
    (¬t.Alive (tokenHash app sessionToken) →
      (requireAuth app request t.now t.db).1 = .error .unauthorized) ∧
    (t.Alive (tokenHash app sessionToken) →
      (request.Presents app (tokenHash app csrfToken) → ∃ session,
        (requireAuth app request t.now t.db).1 = .ok session ∧ session.id = sessionId) ∧
      (¬request.Presents app (tokenHash app csrfToken) →
        (requireAuth app request t.now t.db).1 = .error .invalidCsrf)) := by
  obtain ⟨hs, hwears⟩ := hgives.wears ((AuthSystem.Inv.initial start).run hrun₀)
  obtain ⟨ht, hworn⟩ := hwears.run hs hrun
  exact hworn.guard ht hcookie

/-- `logout` ends the session for every request with its token once its call arrives, whether or
not the answer comes back and whatever was called between the guard and it. A call that does not
arrive leaves the tables as they are, and the answer is 503. -/
theorem logout_ends_session {app : AuthApp} {start : ℤ} {s₀ s : AuthSystem}
    {sessionToken : String} {session : AuthSession} {request : GuardedRequest}
    {connection : Connection}
    (hrun₀ : Run AuthSystem.step AuthOp.Fresh (.initial start) s₀)
    (hcookie : request.cookies sessionCookie = some sessionToken)
    (hguard : (requireAuth app request s₀.now s₀.db).1 = .ok session)
    (hbetween : Run AuthSystem.step AuthOp.Fresh (s₀.serves (requireAuth app request s₀.now)) s) :
    (∀ message, connection = .broken message → ∃ error : ApiError, error.status = 503 ∧
      logout connection session s.now s.db = (.error error, s.db)) ∧
    ((∀ message, connection ≠ .broken message) → ∀ (t : AuthSystem) (request' : GuardedRequest),
      Run AuthSystem.step AuthOp.Fresh (s.serves (logout connection session s.now)) t →
      request'.cookies sessionCookie = some sessionToken →
      (requireAuth app request' t.now t.db).1 = .error .unauthorized) := by
  have hs₀ := (AuthSystem.Inv.initial start).run hrun₀
  obtain ⟨hbegin, hknown, hrow⟩ := AuthSystem.guarded_row hs₀ hcookie hguard hbetween
  have hs := hs₀.run hbegin
  constructor
  · rintro message rfl
    exact ⟨_, rfl, rfl⟩
  · intro harrives t request' hrun hcookie'
    rw [AuthSystem.serves_logout harrives] at hrun
    have hfresh : (AuthOp.revokeSession session.id).Fresh s := trivial
    have hnext := hs.step hfresh (AuthSystem.step_apply rfl)
    have hdead := hnext.dead hrun hknown (hs.revoked_dead hrow)
    exact (hnext.run hrun).requireAuth_dead hcookie' hdead

/-! A session that is used after its login, and its logout. -/

/-- A digest that keeps the first bytes. -/
def sampleGuardApp : AuthApp := ⟨minSessionTtl, fun bytes => Vector.ofFn fun i => bytes.getD i 0⟩

def samplePost (csrf : String) : GuardedRequest where
  method := .post
  cookies := fun name => if name = sessionCookie then some "session" else none
  headers := fun name => if name = csrfHeader then some (textBytes csrf) else none

def sampleSignedIn : AuthSystem :=
  (AuthSystem.initial 0).apply (.createSession 1 (tokenHash sampleGuardApp "session")
    (tokenHash sampleGuardApp "csrf") minSessionTtl 9)

theorem sampleSignedIn_gives : AuthSystem.Gives sampleGuardApp "session" "csrf" 9 (.initial 0)
    sampleSignedIn := by
  have hanswer : ((createSession 1 (tokenHash sampleGuardApp "session")
      (tokenHash sampleGuardApp "csrf") minSessionTtl 9 0
      (AuthSystem.initial 0).db).1.toOption.any fun _ => true) = true := by
    decide +kernel
  obtain ⟨record, hrecord, -⟩ := except_any_eq_true.mp hanswer
  exact .login List.not_mem_nil hrecord

theorem sampleSignedIn_alive : sampleSignedIn.Alive (tokenHash sampleGuardApp "session") := by
  have hfound : ((activeSession (tokenHash sampleGuardApp "session") sampleSignedIn.now
      sampleSignedIn.db).1.toOption.any Option.isSome) = true := by
    decide +kernel
  obtain ⟨found, hanswer, hsome⟩ := except_any_eq_true.mp hfound
  obtain ⟨record, rfl⟩ := Option.isSome_iff_exists.mp hsome
  have hinv := (sampleSignedIn_gives.wears (.initial 0)).1
  exact hinv.activeSession_iff.mp ⟨record, hanswer⟩

/-- The token of the login passes, and another one does not. -/
theorem guard_asks_for_given_tokens_login :
    (∃ session, (requireAuth sampleGuardApp (samplePost "csrf") sampleSignedIn.now
      sampleSignedIn.db).1 = .ok session ∧ session.id = 9) ∧
    (requireAuth sampleGuardApp (samplePost "other") sampleSignedIn.now sampleSignedIn.db).1 =
      .error .invalidCsrf := by
  constructor
  · refine ((guard_asks_for_given_tokens (.refl _) sampleSignedIn_gives (.refl _) rfl).2
      sampleSignedIn_alive).1 fun _ => ⟨"csrf", by decide +kernel, rfl⟩
  · refine ((guard_asks_for_given_tokens (.refl _) sampleSignedIn_gives (.refl _) rfl).2
      sampleSignedIn_alive).2 fun hpresents => ?_
    obtain ⟨supplied, hheader, hdigest⟩ := hpresents rfl
    have hother : ((samplePost "other").headers csrfHeader).bind headerStr = some "other" := by
      decide +kernel
    obtain rfl := Option.some.inj (hheader.symm.trans hother)
    have hne : tokenHash sampleGuardApp "other" ≠ tokenHash sampleGuardApp "csrf" := by
      decide +kernel
    exact hne hdigest

/-- The logout works although its answer is lost. -/
theorem logout_ends_session_used : ∃ (t : AuthSystem) (session : AuthSession),
    (requireAuth sampleGuardApp (samplePost "csrf") sampleSignedIn.now sampleSignedIn.db).1 =
      .ok session ∧
    t = (sampleSignedIn.serves (requireAuth sampleGuardApp (samplePost "csrf")
      sampleSignedIn.now)).serves (logout (.unanswered "reset") session sampleSignedIn.now) ∧
    (requireAuth sampleGuardApp (samplePost "csrf") t.now t.db).1 = .error .unauthorized := by
  obtain ⟨hinv, hwears⟩ := sampleSignedIn_gives.wears (.initial 0)
  have hanswers := @AuthSystem.Wears.guard _ _ _ _ (samplePost "csrf") _ hwears hinv rfl
  obtain ⟨session, hguard, -⟩ := (hanswers.2 sampleSignedIn_alive).1 fun _ =>
    ⟨"csrf", by decide +kernel, rfl⟩
  have hfresh : (AuthOp.createSession 1 (tokenHash sampleGuardApp "session")
      (tokenHash sampleGuardApp "csrf") minSessionTtl 9).Fresh (.initial 0) := List.not_mem_nil
  have hrun : Run AuthSystem.step AuthOp.Fresh (.initial 0) sampleSignedIn :=
    .single _ hfresh (AuthSystem.step_apply rfl)
  have hends := (@logout_ends_session _ _ _ _ _ _ _ (.unanswered "reset") hrun rfl hguard
    (.refl _)).2
  exact ⟨_, session, hguard, rfl, hends (fun _ h => by cases h) _ _ (.refl _) rfl⟩

end TaskHarbor
