import TaskHarbor.Library.Grid
import TaskHarbor.Lifecycle.Holders

/-! The slot arithmetic of schedules is arithmetic on the grid of a schedule's anchor and interval:
counting whole seconds first and whole intervals after loses nothing. -/
namespace TaskHarbor

open Grid

/-- The interval of a schedule as a duration. -/
abbrev interval (intervalSeconds : ℕ) : ℤ := seconds intervalSeconds

theorem interval_pos {n : ℕ} (h : 0 < n) : 0 < interval n :=
  seconds_pos (by exact_mod_cast h)

theorem seconds_mul (m n : ℤ) : seconds (m * n) = m * seconds n := by
  unfold seconds
  ring

/-- Whole seconds, then whole intervals: the whole intervals. -/
theorem coalesced_eq {n asOf : ℤ} {i : ℕ} (h : n ≤ asOf) :
    (wholeSeconds (asOf - n)).tdiv i = (asOf - n) / interval i := by
  have hnonneg : 0 ≤ asOf - n := by omega
  have hsecs : wholeSeconds (asOf - n) = (asOf - n) / nanosPerSecond :=
    Int.tdiv_eq_ediv_of_nonneg hnonneg
  rw [hsecs, Int.tdiv_eq_ediv_of_nonneg (Int.ediv_nonneg hnonneg (by decide)), interval, seconds,
    mul_comm, Int.ediv_ediv_of_nonneg (by decide)]

/-- The slot to run is the last one not after the clock, with every earlier due slot absorbed. -/
theorem latestDueSlot_ok {n asOf scheduledFor next : ℤ} {i coalesced : ℕ} (hi : 0 < i) :
    latestDueSlot n i asOf = .ok (scheduledFor, next, coalesced) ↔
      n ≤ asOf ∧ coalesced = steps n (interval i) asOf ∧ coalesced * i ≤ i64Max ∧
        scheduledFor = slot n (interval i) coalesced ∧
        next = slot n (interval i) (coalesced + 1) ∧
        (minTimestamp ≤ scheduledFor ∧ scheduledFor ≤ maxTimestamp) ∧
        minTimestamp ≤ next ∧ next ≤ maxTimestamp := by
  unfold latestDueSlot
  by_cases hdue : asOf < n
  · rw [if_pos hdue]
    constructor
    · intro h
      cases h
    · rintro ⟨hle, -⟩
      omega
  · have hle : n ≤ asOf := not_lt.mp hdue
    have hnonneg : 0 ≤ (asOf - n) / interval i :=
      Int.ediv_nonneg (by omega) (interval_pos hi).le
    rw [if_neg hdue]
    have hsteps : ((asOf - n) / interval i).toNat = steps n (interval i) asOf := rfl
    simp only [coalesced_eq hle, if_neg (not_lt.mpr hnonneg), hsteps]
    generalize steps n (interval i) asOf = c
    have hslot : n + seconds ((c * i : ℕ) : ℤ) = slot n (interval i) c := by
      rw [Nat.cast_mul, seconds_mul]
      rfl
    by_cases hoff : i64Max < c * i
    · rw [if_pos hoff]
      constructor
      · intro h
        cases h
      · rintro ⟨-, rfl, hsmall, -⟩
        omega
    · rw [if_neg hoff]
      constructor
      · intro h
        split at h
        · cases h
        · rename_i first hfirst
          split at h
          · cases h
          · rename_i second hsecond
            cases h
            obtain ⟨rfl, hrange⟩ := checkedAdd_eq_some.mp hfirst
            obtain ⟨rfl, hrange'⟩ := checkedAdd_eq_some.mp hsecond
            rw [hslot] at hrange hrange' ⊢
            rw [slot_succ]
            exact ⟨hle, rfl, not_lt.mp hoff, rfl, rfl, hrange, hrange'⟩
      · rintro ⟨-, rfl, -, rfl, rfl, hrange, hrange'⟩
        rw [slot_succ] at hrange' ⊢
        have hfirst : checkedAdd n (seconds ((coalesced * i : ℕ) : ℤ)) =
            some (slot n (interval i) coalesced) := by
          rw [checkedAdd_eq_some, hslot]
          exact ⟨rfl, hrange⟩
        have hsecond : checkedAdd (slot n (interval i) coalesced) (seconds i) =
            some (slot n (interval i) coalesced + interval i) :=
          checkedAdd_eq_some.mpr ⟨rfl, hrange'⟩
        simp only [hfirst, hsecond]
        rfl

/-- The cursor after an edit is the first slot of the new grid later than the clock. -/
theorem nextSlotAfter_ok {anchor asOf next : ℤ} {i : ℕ} (hi : 0 < i)
    (h : nextSlotAfter anchor i asOf = .ok next) :
    (∃ k, next = slot anchor (interval i) k) ∧ asOf < next ∧
      ∀ k, asOf < slot anchor (interval i) k → next ≤ slot anchor (interval i) k := by
  unfold nextSlotAfter at h
  by_cases hbefore : asOf < anchor
  · rw [if_pos hbefore] at h
    cases h
    refine ⟨⟨0, by simp⟩, hbefore, fun k _ => ?_⟩
    have := (slot_le_slot (a := anchor) (interval_pos hi)).mpr (Nat.zero_le k)
    rwa [slot_zero] at this
  · rw [if_neg hbefore, if_neg (by omega)] at h
    have hle : anchor ≤ asOf := not_lt.mp hbefore
    have hsteps : (asOf - anchor).tdiv (interval i) = steps anchor (interval i) asOf := by
      rw [Int.tdiv_eq_ediv_of_nonneg (by omega), coe_steps (interval_pos hi) hle]
    dsimp only at h
    split at h
    · cases h
    · split at h
      · cases h
      · rename_i t ht
        cases h
        obtain ⟨rfl, -⟩ := checkedAdd_eq_some.mp ht
        have hslot : anchor + seconds (((asOf - anchor).tdiv (interval i) + 1) * i) =
            slot anchor (interval i) (steps anchor (interval i) asOf + 1) := by
          rw [seconds_mul, hsteps]
          unfold slot
          push_cast
          rfl
        rw [hslot]
        exact ⟨⟨_, rfl⟩, lt_slot_steps_succ (interval_pos hi) hle,
          fun k hk => slot_steps_succ_le (interval_pos hi) hle hk⟩

end TaskHarbor
