import TaskHarbor.Worker.Calls

/-! How a task ends. Every program of `process_claimed` leaves a concluded claim, gives up on a lost
one, or fails with an error of the database; a `StateConflict` is always a cancel request. -/
namespace TaskHarbor

open Interleaving Relational Transaction Runs

/-- What the answer to a guarded call on a running job tells. -/
def Settles (claimed : ClaimedJob) (post : World → Prop) {α : Type} :
    Except RepositoryError α → World → Prop
  | .ok _, w => post w
  | .error (.stateConflict _), w => (∃ n, Holding claimed n w) ∧ Asked claimed w
  | .error .claimLost, w => Concluded claimed w ∧ ∃ n, Holding claimed n w
  | .error (.database _), _ => True
  | .error _, _ => False

section Settles

variable {claimed : ClaimedJob} {w w' : World} {n : ℕ} {α : Type} {r : Except RepositoryError α}

theorem stable_someHolding : Stable claimed fun w => ∃ n, Holding claimed n w := by
  rintro w w' hother ⟨n, h⟩
  exact ⟨n, stable_holding n w w' hother h⟩

theorem stable_settles {post : World → Prop} (hpost : Stable claimed post)
    (r : Except RepositoryError α) : Stable claimed (Settles claimed post r) := by
  cases r with
  | ok a => exact hpost
  | error e =>
    cases e with
    | stateConflict operation => exact stable_someHolding.and stable_asked
    | claimLost => exact stable_concluded.and stable_someHolding
    | _ => exact stable_const _

theorem Concluded.of_lost (hheld : claimed.HeldIn w.system)
    (hlost : claimed.Lost w.system.db w.system.now) : Concluded claimed w := ⟨hheld, Or.inl hlost⟩

theorem Replied.settles {done : Db → Prop} {post : World → Prop} (hheld : Holding claimed n w)
    (h : Replied claimed w .running done r w')
    (hpost : claimed.HeldIn w'.system → done w'.system.db → post w') :
    Settles claimed post r w' := by
  cases h with
  | failed message => trivial
  | lost w' held claim db => exact ⟨.of_lost held claim, n, hheld.of_db held db⟩
  | conflict w' a row operation held working state db =>
    exact ⟨⟨n, hheld.of_db held db⟩, working.asked state held db⟩
  | committed w' v held made => exact hpost held made

/-- A call that closes the attempt concludes the claim. -/
theorem Replied.concludes {state : AttemptStatus} (hstate : state ≠ .running)
    (hheld : Holding claimed n w) (h : Replied claimed w .running (claimed.ClosedAs state) r w') :
    Settles claimed (Concluded claimed) r w' :=
  h.settles hheld fun held hclosed => .of_lost held (hclosed.lost hstate _)

/-- The request of a cancel is not withdrawn. -/
theorem ClaimedJob.Working.not_asked {a : AttemptRow} {row : JobRow}
    (h : claimed.Working w.system a row) (hstate : row.state ≠ .cancelRequested) :
    ¬Asked claimed w := by
  rintro ⟨-, r, hr, hcancelling⟩
  obtain rfl : row = r := Option.some.inj (h.live.job.symm.trans hr)
  rw [h.active.resolve_right hstate] at hcancelling
  cases hcancelling

end Settles

section Programs

variable {images : ImageService} {codec : JpegCodec} {faulty : Bool} {claimed : ClaimedJob}
  {w : World} {n : ℕ}

/-! ### Calls that change nothing -/

theorem elapsed_achieves {R : World → Prop} (hR : Stable claimed R) (stopwatch : Stopwatch)
    (hw : R w) : Achieves images codec faulty claimed (fun (d : ℕ) w => Measured d ∧ R w)
      (observe (.elapsed stopwatch)) w := by
  refine achieves_observe (q := .elapsed stopwatch) hR (fun _ => (stable_const _).and hR)
    (fun _ _ => trivial) ?_ hw
  rintro w r w' hw ⟨rfl, hmeasured⟩
  exact ⟨hmeasured, hw⟩

theorem quiet_achieves {R : World → Prop} (hR : Stable claimed R) {q : TaskRequest}
    (hsafe : ∀ w, Safe claimed q w)
    (hquiet : ∀ w r w', Handles images codec faulty w q r w' → w' = w) (hw : R w) :
    Achieves images codec faulty claimed (fun _ w => R w) (observe q) w := by
  refine achieves_observe hR (fun _ => hR) (fun w _ => hsafe w) ?_ hw
  intro w r w' hw hr
  rw [hquiet w r w' hr]
  exact hw

/-- Only the storage changes while the outputs of an attempt without success are removed. -/
theorem cleanupAttemptOutputs_performs {R : World → Prop} (hR : Stable claimed R)
    (hholding : ∀ w, R w → ∃ n, Holding claimed n w)
    (hstorage : ∀ w st, R w → R { w with storage := st }) (hw : R w) :
    Performs images codec faulty claimed (fun _ w => R w) (cleanupAttemptOutputs claimed) w := by
  refine performs_bind ((performs_send (q := .removeTree _) hR (fun _ => hR)
    (fun w hw => ?_) ?_ hw).consequence fun _ w hw => performs_done hR hw)
  · obtain ⟨n, hn⟩ := hholding w hw
    exact ⟨rfl, hn.unpublished⟩
  · rintro w r w' hw ⟨st, -, rfl⟩
    exact hstorage w st hw

/-! ### Cancels -/

/-- `finish_if_cancel_requested`: after a `true` the claim is over, after a `false` nothing changed
and nobody had asked. -/
theorem finishIfCancelRequested_achieves (asked : Prop) {R : World → Prop} (hR : Stable claimed R)
    (hholding : ∀ w, R w → ∃ n, Holding claimed n w) (hw : R w) (hasked : asked → Asked claimed w) :
    Achieves images codec faulty claimed
      (fun b w => if b = true then Concluded claimed w else ¬asked ∧ R w)
      (finishIfCancelRequested claimed) w := by
  have hpre : Stable claimed fun w => R w ∧ (asked → Asked claimed w) := by
    intro w w' hother h
    exact ⟨hR w w' hother h.1, fun ha => stable_asked w w' hother (h.2 ha)⟩
  have hmid : ∀ b : Bool, Stable claimed fun w =>
      if b = true then (∃ n, Holding claimed n w) ∧ Asked claimed w else ¬asked ∧ R w := by
    intro b
    cases b
    · simpa using (stable_const _).and hR
    · simpa using stable_someHolding.and stable_asked
  refine achieves_bind ((achieves_demand (performs_send (q := .cancellationRequested claimed)
    hpre (stable_taskEnds hmid) (fun _ _ => rfl) ?_ ⟨hw, hasked⟩)).consequence ?_)
  · rintro w r w' ⟨hw, hasked⟩ ⟨rfl, hr⟩
    obtain ⟨n, hn⟩ := hholding _ hw
    rcases hr with rfl | ⟨message, rfl⟩
    · rcases cancellationRequested_answers hn.held with ⟨hlost, hr⟩ | ⟨a, row, hworking, hr⟩
      · rw [hr]
        exact ⟨.of_lost hn.held hlost, n, hn⟩
      · rw [hr]
        by_cases hstate : row.state = .cancelRequested
        · have hnot : row.state ≠ .running := by
            rw [hstate]
            decide
          simpa [TaskEnds, hstate] using
            And.intro (Exists.intro n hn) (hworking.asked hnot hn.held rfl)
        · simpa [TaskEnds, hstate] using
            And.intro (fun ha => hworking.not_asked hstate (hasked ha)) hw
    · trivial
  · intro b w hw
    cases b with
    | false =>
      exact achieves_pure (by simpa using (stable_const _).and hR) (by simpa using hw)
    | true =>
      have hcancel : Stable claimed fun w => (∃ n, Holding claimed n w) ∧ Asked claimed w :=
        stable_someHolding.and stable_asked
      have hheld : (∃ n, Holding claimed n w) ∧ Asked claimed w := by simpa using hw
      refine achieves_bind ((achieves_lift (fun _ => hcancel)
        (cleanupAttemptOutputs_performs hcancel (fun w h => h.1) ?_ hheld)).consequence
          fun _ w hw => ?_)
      · rintro w st ⟨⟨n, hn⟩, ha⟩
        exact ⟨⟨n, hn.held, hn.standing⟩, ha⟩
      refine achieves_bind
        ((elapsed_achieves hcancel .started hw).consequence fun duration w hw => ?_)
      refine achieves_bind ((achieves_demand (performs_send (q := .finishCancelled claimed duration)
        ((stable_const _).and hcancel) (stable_taskEnds fun _ => stable_concluded)
        (fun _ _ => rfl) ?_ hw)).consequence
          fun _ w hw => achieves_pure (by simpa using stable_concluded) (by simpa using hw))
      rintro w r w' ⟨hmeasured, ⟨n, hn⟩, ha⟩ hr
      have hreplied := (finishCancelled_guarded hn.held hmeasured).replied hn.held rfl hr
      cases hreplied with
      | failed message => trivial
      | lost w' held claim db => exact ⟨.of_lost held claim, n, hn.of_db held db⟩
      | conflict w' a row operation held working state db =>
        exact absurd ha (working.not_asked state)
      | committed w' v held made => exact .of_lost held (made.lost (by decide) _)

/-- A refused guarded call is a cancel request, a lost claim or an error of the database. -/
theorem overtaken_achieves {α : Type} {R : World → Prop} (hR : Stable claimed R)
    {answer : Except RepositoryError α} (hw : Settles claimed R answer w) :
    Achieves images codec faulty claimed
      (fun b w => if b = true then Concluded claimed w else R w) (overtaken claimed answer) w := by
  cases answer with
  | ok a => exact achieves_pure (by simpa using hR) (by simpa [Settles] using hw)
  | error e =>
    cases e with
    | stateConflict operation =>
      obtain ⟨hholding, hasked⟩ := hw
      refine achieves_bind ((finishIfCancelRequested_achieves True stable_someHolding
        (fun _ h => h) hholding fun _ => hasked).consequence fun b w hw => ?_)
      cases b with
      | false => simp at hw
      | true => exact achieves_pure (by simpa using stable_concluded) (by simpa using hw)
    | claimLost => exact achieves_throw hw
    | database message => exact achieves_throw trivial
    | _ => exact hw.elim

/-- `record_image_failure` concludes the claim. -/
theorem recordImageFailure_achieves {kind : FailureKind} {message : String}
    (hw : ∃ n, Holding claimed n w) :
    Achieves images codec faulty claimed (fun _ w => Concluded claimed w)
      (recordImageFailure claimed kind message) w := by
  have hR : Stable claimed fun w => ∃ n, Holding claimed n w := stable_someHolding
  refine achieves_bind ((achieves_lift (fun _ => hR) (cleanupAttemptOutputs_performs hR
    (fun _ h => h) ?_ hw)).consequence fun _ w hw => ?_)
  · rintro w st ⟨n, hn⟩
    exact ⟨n, hn.held, hn.standing⟩
  refine achieves_bind ((elapsed_achieves hR .started hw).consequence fun duration w hw => ?_)
  refine achieves_bind ((achieves_observe (q := .recordFailure claimed duration kind message)
    ((stable_const _).and hR) (stable_settles stable_concluded) (fun _ _ => rfl) ?_ hw).consequence
      fun failure w hw => ?_)
  · rintro w r w' ⟨hmeasured, n, hn⟩ hr
    have hreplied := (recordFailure_guarded hn.held hmeasured).replied hn.held rfl hr
    exact hreplied.concludes (by decide) hn
  · refine achieves_bind ((overtaken_achieves stable_concluded hw).consequence fun b w hw => ?_)
    exact achieves_pure stable_concluded (by cases b <;> simpa using hw)

end Programs

end TaskHarbor
