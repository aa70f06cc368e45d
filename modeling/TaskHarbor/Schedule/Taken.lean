import TaskHarbor.Schedule.Drain

/-! A materialization fails over a taken slot only if the cursor has fallen behind the recorded
slots: no other statement of the transaction reports that constraint. -/
namespace TaskHarbor

open Relational Transaction Grid

/-- The error of an occurrence whose slot is already recorded. -/
def slotTaken : RepositoryError := .database "schedule_occurrences_slot_unique"

theorem enforce_avoids {checks : List Check}
    (h : ∀ c ∈ checks, c.1 ≠ "schedule_occurrences_slot_unique") :
    enforce checks ≠ .error slotTaken := by
  intro he
  obtain ⟨c, hc, -, hname⟩ := enforce_error he
  exact h c hc (RepositoryError.database.inj hname).symm

theorem identityLeft_avoids (n : ℕ) : identityLeft n ≠ .error slotTaken := by
  unfold identityLeft slotTaken
  split
  · exact fun h => by cases h
  · intro h
    injection h with h
    injection h with h
    exact absurd h (by decide)

theorem guard_avoids {α : Type} {c : Prop} [Decidable c] {e : RepositoryError}
    {x : Except RepositoryError α} (he : e ≠ slotTaken) (hx : x ≠ .error slotTaken) :
    (if c then .error e else x) ≠ .error slotTaken := by
  split
  · intro h
    exact he (Except.error.inj h)
  · exact hx

theorem latestDueSlot_avoids (n : ℤ) (i : ℕ) (asOf : ℤ) :
    latestDueSlot n i asOf ≠ .error slotTaken := by
  unfold latestDueSlot
  refine guard_avoids (by decide) (guard_avoids (by decide) (guard_avoids (by decide) ?_))
  split
  · exact fun h => by cases h
  · split
    · exact fun h => by cases h
    · exact fun h => by cases h

variable {db : Db} {now : ℤ}

theorem insertJob_avoids (mk : ℕ → JobRow) (hk) : Tx.Avoids slotTaken (insertJob mk hk) db := by
  refine except_bind_ne_error (identityLeft_avoids _) fun _ _ => ?_
  refine except_bind_ne_error (enforce_avoids ?_) fun _ _ => ?_
  · simp [JobRow.checks]
  · refine except_bind_ne_error (enforce_avoids (by simp)) fun _ _ => ?_
    exact fun h => by cases h

theorem insertArtifact_avoids (mk : ℕ → ArtifactRow) (hk) :
    Tx.Avoids slotTaken (insertArtifact mk hk) db := by
  refine except_bind_ne_error (identityLeft_avoids _) fun _ _ => ?_
  refine except_bind_ne_error (enforce_avoids ?_) fun _ _ => ?_
  · simp [ArtifactRow.checks]
  · refine except_bind_ne_error (enforce_avoids (by simp)) fun _ _ => ?_
    exact fun h => by cases h

theorem copyScheduleInputs_avoids (jobId : ℕ) (sources : List ScheduleInputRow) :
    Tx.Avoids slotTaken (copyScheduleInputs jobId now sources) db := by
  induction sources generalizing db with
  | nil => exact Tx.avoids_pure () db
  | cons source rest ih =>
    exact Tx.avoids_bind (insertArtifact_avoids _ _) fun _ _ _ => ih

theorem materializeJob_avoids (candidate : ScheduleRow) (scheduledFor : ℤ) (count : ℕ) :
    Tx.Avoids slotTaken (materializeJob candidate scheduledFor count now) db := by
  refine Tx.avoids_bind (fun h => by cases h) fun db' _ _ => ?_
  split
  · exact Tx.avoids_pure none _
  · refine Tx.avoids_bind (insertJob_avoids _ _) fun id _ _ => ?_
    refine Tx.avoids_bind (copyScheduleInputs_avoids id _) fun _ _ _ => ?_
    split
    · exact fun h => by cases h
    · refine Tx.avoids_bind (Tx.avoids_lift ?_ _) fun jobId _ _ => Tx.avoids_pure _ _
      unfold decodeJobId
      split
      · exact fun h => by cases h
      · exact fun h => by cases h

/-- The occurrence of a free slot is not refused as taken. -/
theorem insertOccurrence_avoids {mk : ℕ → ScheduleOccurrenceRow} {hk}
    (hfree : ∀ o ∈ db.scheduleOccurrences,
      o.scheduleId ≠ (mk db.scheduleOccurrences.next).scheduleId ∨
        o.scheduledFor ≠ (mk db.scheduleOccurrences.next).scheduledFor) :
    Tx.Avoids slotTaken (insertOccurrence mk hk) db := by
  refine except_bind_ne_error (identityLeft_avoids _) fun _ _ => ?_
  refine except_bind_ne_error (enforce_avoids ?_) fun _ _ => ?_
  · simp [ScheduleOccurrenceRow.checks]
  · refine except_bind_ne_error ?_ fun _ _ => fun h => by cases h
    intro h
    obtain ⟨c, hc, hfalse, -⟩ := enforce_error h
    obtain rfl := List.mem_singleton.mp hc
    obtain ⟨o, ho, hsame⟩ := List.all_eq_false.mp hfalse
    have hne := hfree o ho
    simp only [Bool.not_eq_true', Bool.not_eq_false, Bool.and_eq_true, beq_iff_eq] at hsame
    rcases hne with hne | hne
    · exact hne hsame.1
    · exact hne hsame.2

/-- A schedule whose cursor is ahead of its recorded slots is not refused over a taken slot. -/
theorem materializeCandidate_avoids {candidate : ScheduleRow} {asOf : ℤ}
    (hpos : 0 < candidate.intervalSeconds)
    (hahead : ∀ o ∈ db.occurrencesOf candidate.id, o.scheduledFor < candidate.nextRunAt) :
    Tx.Avoids slotTaken (materializeCandidate candidate asOf now) db := by
  unfold materializeCandidate
  refine Tx.avoids_bind (Tx.avoids_lift (latestDueSlot_avoids _ _ _) _) ?_
  rintro ⟨scheduledFor, next, coalesced⟩ db₁ hlift
  obtain ⟨hslot, rfl⟩ := lift_ok.mp hlift
  obtain ⟨-, -, -, hfirst, -⟩ := (latestDueSlot_ok hpos).mp hslot
  have hstart : candidate.nextRunAt ≤ scheduledFor := by
    have hmono := (slot_le_slot (a := candidate.nextRunAt)
      (interval_pos hpos)).mpr (Nat.zero_le coalesced)
    rwa [slot_zero, ← hfirst] at hmono
  refine Tx.avoids_bind (fun h => by cases h) fun db₂ db₃ hget => ?_
  cases hget
  dsimp only
  split
  · exact fun h => by cases h
  · refine Tx.avoids_bind (materializeJob_avoids _ _ _) fun job db₄ hmade => ?_
    obtain ⟨-, -, hoccurrences⟩ := materializeJob_frame hmade
    refine Tx.avoids_bind (Tx.avoids_lift ?_ _) fun _ db₅ hencode => ?_
    · unfold encodeU64
      split
      · exact fun h => by cases h
      · exact fun h => by cases h
    · obtain ⟨-, rfl⟩ := lift_ok.mp hencode
      refine Tx.avoids_bind (insertOccurrence_avoids ?_) fun _ _ _ => ?_
      · intro o ho
        rw [hoccurrences] at ho
        by_cases hid : o.scheduleId = candidate.id
        · have hlt := hahead o (mem_occurrencesOf.mpr ⟨ho, hid⟩)
          exact Or.inr (hlt.trans_le hstart).ne
        · exact Or.inl hid
      · refine Tx.avoids_bind (fun h => by cases h) fun n _ _ => ?_
        refine Tx.avoids_bind (Tx.avoids_lift ?_ _) fun _ _ _ => Tx.avoids_pure _ _
        unfold ensureOneRow
        split
        · exact fun h => by cases h
        · exact fun h => by cases h

/-- Where every cursor is ahead of the recorded slots, no call fails over a taken slot. -/
theorem materializeNextScheduleAt_avoids (hsound : ∀ s ∈ db.schedules, s.Sound)
    (hahead : ∀ s ∈ db.schedules, ∀ o ∈ db.occurrencesOf s.id, o.scheduledFor < s.nextRunAt)
    (asOf : ℤ) (locked : List ℕ) :
    (materializeNextScheduleAt asOf locked now db).1 ≠ .error slotTaken := by
  have htx : Tx.Avoids slotTaken (materializeNextScheduleTx asOf locked now) db := by
    refine Tx.avoids_bind (fun h => by cases h) fun db₁ db₂ hget => ?_
    cases hget
    split
    · exact Tx.avoids_pure _ _
    · rename_i candidate hc
      have hmem := (scheduleCandidate_spec hc).1
      refine Tx.avoids_bind ?_ fun _ _ _ => Tx.avoids_pure _ _
      exact materializeCandidate_avoids (hsound candidate hmem).interval_pos (hahead candidate hmem)
  unfold materializeNextScheduleAt
  rw [Session.bind_run]
  rcases commit_cases (materializeNextScheduleTx asOf locked now) db with
    ⟨result, db', -, hc⟩ | ⟨e, he, hc⟩
  · rw [hc]
    rcases result with _ | ⟨candidate, tick⟩
    · exact fun h => by cases h
    · simp only [Session.bind_run, Session.liftExcept_run]
      unfold decodeScheduleId
      cases ScheduleId.new candidate.id with
      | none => exact fun h => by cases h
      | some id => exact fun h => by cases h
  · rw [hc]
    intro h
    cases h
    exact htx he

end TaskHarbor
