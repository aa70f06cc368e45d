import TaskHarbor.System.Accounting

/-! Idempotency keys in the database: an owner has at most one job under a key, for all time, and a
lookup under that key answers with this job or reports a conflict of fingerprints. -/
namespace TaskHarbor

open Relational Transaction Runs

/-- `r` is the job of `owner` under the key of `i`. -/
def JobRow.Under (r : JobRow) (owner : ℕ) (i : IdempotencyRequest) : Prop :=
  r.ownerUserId = owner ∧ r.idempotencyKey = some i.key

/-- Keys are unique for each owner and were validated together with a fingerprint. -/
structure Db.Keyed (db : Db) : Prop where
  unique : ∀ r ∈ db.jobs, ∀ r' ∈ db.jobs, ∀ owner i, r.Under owner i → r'.Under owner i →
    r.id = r'.id
  valid : ∀ r ∈ db.jobs, ∀ key, r.idempotencyKey = some key → ∃ fingerprint,
    r.requestFingerprint = some fingerprint ∧ storableText key = true ∧
      IdempotencyRequest.validate ⟨key, fingerprint⟩ = .ok ()

section Keyed

variable {uploads : NewImageJob → Prop} {now : ℤ} {db db' : Db}

theorem NewImageJob.validate_idempotency {request : NewImageJob} (h : request.validate = .ok ())
    {i : IdempotencyRequest} (hi : request.idempotency = some i) : i.validate = .ok () := by
  unfold NewImageJob.validate at h
  obtain ⟨-, h⟩ := except_unless_ok.mp h
  obtain ⟨-, h⟩ := except_unless_ok.mp h
  simp only [hi] at h
  exact h

/-- A new job with a key is one of the step's uploads. -/
theorem Origin.keyed {r : JobRow} {inputs : List ArtifactRow} (h : Origin uploads db now r inputs)
    {key : String} (hkey : r.idempotencyKey = some key) :
    ∃ request i, uploads request ∧ request.idempotency = some i ∧ i.validate = .ok () ∧
      storableText i.key = true ∧ r.ownerUserId = request.ownerUserId ∧ i.key = key ∧
      r.requestFingerprint = some i.fingerprint := by
  cases h with
  | demo name row none =>
    rw [row] at hkey
    cases hkey
  | upload request uploads valid storable row indexes =>
    have hmap : request.idempotency.map IdempotencyRequest.key = some key := by
      rw [row] at hkey
      exact hkey
    obtain ⟨i, hi, hikey⟩ := Option.map_eq_some_iff.mp hmap
    refine ⟨request, i, uploads, hi, NewImageJob.validate_idempotency valid hi, storable i hi, ?_,
      hikey, ?_⟩
    · rw [row]
      rfl
    · rw [row]
      show request.idempotency.map IdempotencyRequest.fingerprint = _
      rw [hi]
      rfl
  | retry source stored ended row copied =>
    rw [row] at hkey
    cases hkey
  | occurrence candidate scheduledFor stored free row copied =>
    rw [row] at hkey
    cases hkey

/-- The columns of a job that its key is about. -/
def JobRow.claims (r : JobRow) : ℕ × ℕ × Option String × Option (List UInt8) :=
  (r.id, r.ownerUserId, r.idempotencyKey, r.requestFingerprint)

/-- A job of the new state had its key before, or it is new and its key was free. -/
theorem keyed_before (hturns : db.Turns now db') (hgrows : db.Grows uploads now db') {r : JobRow}
    (hr : r ∈ db'.jobs) :
    (∃ r₀ ∈ db.jobs, r₀.claims = r.claims) ∨
      r.id = db.jobs.next ∧ db.keyFree r ∧
        Origin uploads db now r (db'.artifactsOf r.id .input) := by
  have hget : db'.jobs.get? r.id = some r := Table.get?_key hr
  cases hold : db.jobs.get? r.id with
  | none => exact Or.inr (hgrows.jobs r.id r hold hget)
  | some r₀ =>
    left
    obtain ⟨r', hr', htemplate⟩ := (hturns r.id).keeps.job r₀ hold
    obtain rfl : r = r' := Option.some.inj (hget.symm.trans hr')
    have hclaims : r.claims = r₀.claims := (congrArg JobRow.claims htemplate :)
    exact ⟨r₀, Table.mem_of_get? hold, hclaims.symm⟩

/-- Every job keeps its key. -/
theorem keyed_after (hturns : db.Turns now db') {r : JobRow} (hr : r ∈ db.jobs) :
    ∃ r' ∈ db'.jobs, r'.claims = r.claims := by
  obtain ⟨r', hr', htemplate⟩ := (hturns r.id).keeps.job r (Table.get?_key hr)
  exact ⟨r', Table.mem_of_get? hr', (congrArg JobRow.claims htemplate :)⟩

theorem JobRow.Under.of_claims {r r' : JobRow} (h : r'.claims = r.claims) {owner : ℕ}
    {i : IdempotencyRequest} (hunder : r.Under owner i) : r'.Under owner i := by
  simp only [JobRow.claims, Prod.mk.injEq] at h
  exact ⟨h.2.1.trans hunder.1, h.2.2.1.trans hunder.2⟩

theorem JobRow.claims_id {r r' : JobRow} (h : r'.claims = r.claims) : r'.id = r.id :=
  congrArg Prod.fst h

theorem Db.keyFree.not_under {r r₀ : JobRow} (h : db.keyFree r) (hr₀ : r₀ ∈ db.jobs) {owner : ℕ}
    {i : IdempotencyRequest} (hunder : r.Under owner i) : ¬r₀.Under owner i := by
  rintro ⟨howner, hkey⟩
  rcases h with hnone | hfree
  · rw [hunder.2] at hnone
    cases hnone
  · rcases hfree r₀ hr₀ with hne | hne
    · exact hne (howner.trans hunder.1.symm)
    · exact hne (hkey.trans hunder.2.symm)

theorem Db.Keyed.step (hturns : db.Turns now db') (hgrows : db.Grows uploads now db')
    (h : db.Keyed) : db'.Keyed := by
  constructor
  · intro r hr r' hr' owner i hunder hunder'
    rcases keyed_before hturns hgrows hr with ⟨r₀, hr₀, hsame⟩ | ⟨hid, hfree, -⟩
    · rcases keyed_before hturns hgrows hr' with ⟨r₁, hr₁, hsame'⟩ | ⟨-, hfree', -⟩
      · rw [← JobRow.claims_id hsame, ← JobRow.claims_id hsame']
        exact h.unique r₀ hr₀ r₁ hr₁ owner i (hunder.of_claims hsame) (hunder'.of_claims hsame')
      · exact absurd (hunder.of_claims hsame) (hfree'.not_under hr₀ hunder')
    · rcases keyed_before hturns hgrows hr' with ⟨r₁, hr₁, hsame'⟩ | ⟨hid', -⟩
      · exact absurd (hunder'.of_claims hsame') (hfree.not_under hr₁ hunder)
      · rw [hid, hid']
  · intro r hr key hkey
    rcases keyed_before hturns hgrows hr with ⟨r₀, hr₀, hsame⟩ | ⟨-, -, horigin⟩
    · simp only [JobRow.claims, Prod.mk.injEq] at hsame
      obtain ⟨fingerprint, hfingerprint, hvalid⟩ := h.valid r₀ hr₀ key (hsame.2.2.1.trans hkey)
      exact ⟨fingerprint, hsame.2.2.2.symm.trans hfingerprint, hvalid⟩
    · obtain ⟨request, i, -, -, hvalid, hstorable, -, rfl, hfingerprint⟩ := horigin.keyed hkey
      exact ⟨i.fingerprint, hfingerprint, hstorable, hvalid⟩

end Keyed

/-! ### Lookups -/

section Lookup

variable {db : Db} {r : JobRow} {owner : ℕ} {i : IdempotencyRequest}

theorem idempotentRow_some (h : idempotentRow db owner i.key = some r) :
    r ∈ db.jobs ∧ r.Under owner i := by
  have hfound := List.find?_some h
  simp only [Bool.and_eq_true, beq_iff_eq] at hfound
  exact ⟨List.mem_of_find?_eq_some h, hfound⟩

theorem idempotentRow_none (h : idempotentRow db owner i.key = none) :
    ∀ r ∈ db.jobs, ¬r.Under owner i := by
  intro r hr hunder
  have hnot := List.find?_eq_none.mp h r hr
  simp [hunder.1, hunder.2] at hnot

/-- The lookup finds the one job under the key. -/
theorem idempotentRow_eq (hkeyed : db.Keyed) (hr : r ∈ db.jobs) (hunder : r.Under owner i) :
    idempotentRow db owner i.key = some r := by
  cases hfound : idempotentRow db owner i.key with
  | none => exact absurd hunder (idempotentRow_none hfound r hr)
  | some r' =>
    obtain ⟨hr', hunder'⟩ := idempotentRow_some hfound
    rw [Table.key_inj hr' hr (hkeyed.unique r' hr' r hr owner i hunder' hunder)]

/-- What a caller with fingerprint `i.fingerprint` is answered under the key of `r`. -/
def JobRow.replays (r : JobRow) (i : IdempotencyRequest) : Prop :=
  r.requestFingerprint = some i.fingerprint

theorem replay_ok (h : r.replays i) : replay r i = .ok r.id := if_pos h

theorem replay_conflict (h : ¬r.replays i) : replay r i = .error .idempotencyConflict := if_neg h

/-- The job of an owner reads back as that job. -/
theorem readBack_ok (hinv : db.Inv) (hr : r ∈ db.jobs) {caller : Option ℕ}
    (howner : ownedBy caller r = true) (operation : String) :
    ∃ record, readBack r.id caller operation db = .ok record ∧ record.Shows r := by
  have hget : db.jobs.get? r.id = some r := Table.get?_key hr
  have hsound := (hinv.readable r.id).job r hget
  obtain ⟨record, hrecord⟩ := readJob_ok hinv hget
  have hdecode : decodeJobId r.id = .ok ⟨r.id, hsound.id.1, hsound.id.2⟩ := decodeJobId_ok.mpr rfl
  refine ⟨record, ?_, (readJob_shows hrecord).1⟩
  have hread : getWithOwner ⟨r.id, hsound.id.1, hsound.id.2⟩ caller db = .ok (some record) := by
    unfold getWithOwner
    simp only [hget, Option.filter_some, howner, if_true, hrecord]
    rfl
  unfold readBack
  simp only [hdecode, except_ok_bind, hread]
  rfl

/-- Later lookups answer with the job, or with a conflict. -/
theorem findIdempotentImageJob_replay (hinv : db.Inv) (hkeyed : db.Keyed) (hr : r ∈ db.jobs)
    (hunder : r.Under owner i) (hvalid : i.validate = .ok ()) :
    (r.replays i → ∃ record, findIdempotentImageJob owner i db = .ok (some record) ∧
      record.Shows r) ∧
    (¬r.replays i → findIdempotentImageJob owner i db = .error .idempotencyConflict) := by
  have hrow := idempotentRow_eq hkeyed hr hunder
  have howned : ownedBy (some owner) r = true := by simp [ownedBy, hunder.1]
  unfold findIdempotentImageJob
  simp only [hvalid, hrow]
  constructor
  · intro hsame
    obtain ⟨record, hrecord, hshows⟩ :=
      readBack_ok hinv hr howned "read idempotent image job"
    refine ⟨record, ?_, hshows⟩
    rw [replay_ok hsame]
    show (readBack r.id (some owner) "read idempotent image job" db >>= fun record =>
      pure (some record)) = _
    rw [hrecord]
    rfl
  · intro hother
    rw [replay_conflict hother]
    rfl

/-- The lookup under the lock finds the job, or reports a conflict. -/
theorem existingImageJob_replay {request : NewImageJob} (hkeyed : db.Keyed) (hr : r ∈ db.jobs)
    (hi : request.idempotency = some i) (hunder : r.Under request.ownerUserId i) :
    (r.replays i → existingImageJob request db = .ok (some r.id)) ∧
    (¬r.replays i → existingImageJob request db = .error .idempotencyConflict) := by
  have hrow := idempotentRow_eq hkeyed hr hunder
  obtain ⟨fingerprint, -, hstorable, -⟩ := hkeyed.valid r hr i.key hunder.2
  have htext : textParam i.key = .ok i.key := textParam_ok.mpr ⟨hstorable, rfl⟩
  unfold existingImageJob
  simp only [hi, htext, except_ok_bind, hrow]
  constructor
  · intro hsame
    rw [replay_ok hsame]
    rfl
  · intro hother
    rw [replay_conflict hother]
    rfl

theorem existingImageJob_none {request : NewImageJob} (hi : request.idempotency = some i)
    (hstorable : storableText i.key = true)
    (hnone : ∀ r ∈ db.jobs, ¬r.Under request.ownerUserId i) :
    existingImageJob request db = .ok none := by
  have hrow : idempotentRow db request.ownerUserId i.key = none := by
    cases hfound : idempotentRow db request.ownerUserId i.key with
    | none => rfl
    | some r =>
      obtain ⟨hr, hunder⟩ := idempotentRow_some hfound
      exact absurd hunder (hnone r hr)
  have htext : textParam i.key = .ok i.key := textParam_ok.mpr ⟨hstorable, rfl⟩
  unfold existingImageJob
  simp only [hi, htext, except_ok_bind, hrow]
  rfl

/-- The text that PostgreSQL cannot hold fails as a parameter. -/
theorem existingImageJob_unstorable {request : NewImageJob} (hi : request.idempotency = some i)
    (hstorable : storableText i.key = false) : existingImageJob request db =
      .error (.database "invalid byte sequence for encoding UTF8: 0x00") := by
  have htext : textParam i.key =
      .error (.database "invalid byte sequence for encoding UTF8: 0x00") := by
    unfold textParam
    rw [if_neg (by simp [hstorable])]
  unfold existingImageJob
  simp only [hi, htext]
  rfl

/-- What the lookup under the lock answers. -/
theorem existingImageJob_cases {request : NewImageJob} (hkeyed : db.Keyed)
    (hi : request.idempotency = some i) :
    (storableText i.key = false ∧ ∃ message,
      existingImageJob request db = .error (.database message)) ∨
    (storableText i.key = true ∧ (∀ r ∈ db.jobs, ¬r.Under request.ownerUserId i) ∧
      existingImageJob request db = .ok none) ∨
    ∃ r ∈ db.jobs, r.Under request.ownerUserId i ∧
      (r.replays i ∧ existingImageJob request db = .ok (some r.id) ∨
        ¬r.replays i ∧ existingImageJob request db = .error .idempotencyConflict) := by
  by_cases hstorable : storableText i.key = true
  · right
    cases hfound : idempotentRow db request.ownerUserId i.key with
    | none =>
      have hnone := idempotentRow_none hfound
      exact Or.inl ⟨hstorable, hnone, existingImageJob_none hi hstorable hnone⟩
    | some r =>
      obtain ⟨hr, hunder⟩ := idempotentRow_some hfound
      obtain ⟨hsame, hother⟩ := existingImageJob_replay hkeyed hr hi hunder
      refine Or.inr ⟨r, hr, hunder, ?_⟩
      by_cases hreplays : r.replays i
      · exact Or.inl ⟨hreplays, hsame hreplays⟩
      · exact Or.inr ⟨hreplays, hother hreplays⟩
  · left
    rw [Bool.not_eq_true] at hstorable
    exact ⟨hstorable, _, existingImageJob_unstorable hi hstorable⟩

theorem JobRow.replays_of_claims {r' : JobRow} (h : r'.claims = r.claims) (hr : r.replays i) :
    r'.replays i := by
  simp only [JobRow.claims, Prod.mk.injEq] at h
  exact h.2.2.2.trans hr

/-- A step without an upload under the same owner and key does not change what a lookup answers. -/
theorem existingImageJob_stable {uploads : NewImageJob → Prop} {now : ℤ} {db' : Db}
    {request : NewImageJob} (hkeyed : db.Keyed) (hturns : db.Turns now db')
    (hgrows : db.Grows uploads now db') (hi : request.idempotency = some i)
    (hother : ∀ request' i', uploads request' → request'.idempotency = some i' →
      request'.ownerUserId = request.ownerUserId → i'.key ≠ i.key) :
    existingImageJob request db' = existingImageJob request db := by
  have hkeyed' := hkeyed.step hturns hgrows
  rcases existingImageJob_cases hkeyed hi with
    ⟨hstorable, message, hlook⟩ | ⟨hstorable, hnone, hlook⟩ | ⟨r, hr, hunder, hlook⟩
  · rw [existingImageJob_unstorable hi hstorable, existingImageJob_unstorable hi hstorable]
  · rw [hlook]
    refine existingImageJob_none hi hstorable fun r' hr' hunder => ?_
    rcases keyed_before hturns hgrows hr' with ⟨r, hr, hsame⟩ | ⟨-, -, horigin⟩
    · exact hnone r hr (hunder.of_claims hsame)
    · obtain ⟨request', i', hupload, hi', -, -, howner, hkey, -⟩ := horigin.keyed hunder.2
      exact hother request' i' hupload hi' (howner.symm.trans hunder.1) hkey
  · obtain ⟨r', hr', hsame⟩ := keyed_after hturns hr
    obtain ⟨hreplay, hconflict⟩ :=
      existingImageJob_replay hkeyed' hr' hi (hunder.of_claims hsame)
    rcases hlook with ⟨hreplays, hlook⟩ | ⟨hreplays, hlook⟩
    · rw [hlook, hreplay (JobRow.replays_of_claims hsame hreplays), JobRow.claims_id hsame]
    · rw [hlook]
      exact hconflict fun h => hreplays (JobRow.replays_of_claims hsame.symm h)

end Lookup

end TaskHarbor
