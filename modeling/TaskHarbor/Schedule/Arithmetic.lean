import Mathlib.Data.Set.Card
import Mathlib.Order.Bounds.Basic
import TaskHarbor.Schedule.Slots

/-! The slot arithmetic on the machine: times with a UTC offset, whose calendar date has to stay in
the range of the library, and integers of 64 and 128 bits. The results are exact on the grid of the
cursor, no step panics or wraps, and the two functions name the same next slot. -/
namespace TaskHarbor

open Grid Transaction

/-- The offsets of `UtcOffset` stay below 26 hours. -/
def maxOffsetSeconds : ℤ := 93599

/-- An `OffsetDateTime` has its instant and an offset; the range is that of its local date. -/
@[ext] structure OffsetDateTime where
  instant : ℤ
  offset : ℤ
  offset_bounded : -maxOffsetSeconds ≤ offset ∧ offset ≤ maxOffsetSeconds
  representable : minTimestamp ≤ instant + seconds offset ∧
    instant + seconds offset ≤ maxTimestamp
  deriving DecidableEq

/-- A computation ends with an error of the repository or with a panic, which stands for a wrapped
result too. -/
inductive Stop
  | error (e : RepositoryError)
  | panic
  deriving DecidableEq

namespace Machine

def signed (bits : ℕ) (x : ℤ) : Option ℤ :=
  if -2 ^ (bits - 1) ≤ x ∧ x < 2 ^ (bits - 1) then some x else none

def unsigned (bits : ℕ) (x : ℤ) : Option ℕ :=
  if 0 ≤ x ∧ x < 2 ^ bits then some x.toNat else none

/-- Signed division: there is no result for a zero divisor and for `MIN / -1`. -/
def divide (bits : ℕ) (x y : ℤ) : Option ℤ := if y = 0 then none else signed bits (x.tdiv y)

def orPanic {α : Type} (x : Option α) : Except Stop α := x.elim (.error .panic) .ok

def orInvalid {α : Type} (message : String) (x : Option α) : Except Stop α :=
  x.elim (.error (.error (.invalidData message))) .ok

@[simp] theorem orPanic_some {α : Type} (x : α) : orPanic (some x) = .ok x := rfl

@[simp] theorem orInvalid_some {α : Type} (message : String) (x : α) :
    orInvalid message (some x) = .ok x := rfl

/-- A `Duration` keeps its whole seconds in 64 bits. -/
def duration (d : ℤ) : Except Stop ℤ := (orPanic (signed 64 (wholeSeconds d))).map fun _ => d

end Machine

namespace OffsetDateTime

/-- The instant `x` has a date in range at the offset of `t`. -/
def Holds (t : OffsetDateTime) (x : ℤ) : Prop :=
  minTimestamp ≤ x + seconds t.offset ∧ x + seconds t.offset ≤ maxTimestamp

instance (t : OffsetDateTime) (x : ℤ) : Decidable (t.Holds x) := by
  unfold Holds
  infer_instance

/-- `OffsetDateTime::checked_add` keeps the offset. -/
def checkedAdd (t : OffsetDateTime) (d : ℤ) : Option OffsetDateTime :=
  if h : t.Holds (t.instant + d) then some ⟨t.instant + d, t.offset, t.offset_bounded, h⟩ else none

end OffsetDateTime

namespace Machine

/-- `latest_due_slot`, on the machine. -/
def latestDueSlot (nextRunAt : OffsetDateTime) (intervalSeconds : ℕ) (asOf : OffsetDateTime) :
    Except Stop (OffsetDateTime × OffsetDateTime × ℕ) := do
  if asOf.instant < nextRunAt.instant then
    throw (.error (.invalidData "schedule is not due at the supplied clock time"))
  let elapsed := wholeSeconds (← duration (asOf.instant - nextRunAt.instant))
  let quotient ← orPanic (divide 64 elapsed intervalSeconds)
  let coalesced ← orInvalid "schedule clock moved before its cursor" (unsigned 64 quotient)
  let offset ← orInvalid "schedule offset is too large"
    ((unsigned 64 (coalesced * intervalSeconds)).bind fun value => signed 64 value)
  let scheduledFor ← orInvalid "scheduled time overflowed" (nextRunAt.checkedAdd (seconds offset))
  let next ← orInvalid "next schedule time overflowed"
    (scheduledFor.checkedAdd (seconds intervalSeconds))
  return (scheduledFor, next, coalesced)

/-- `next_slot_after`, on the machine. -/
def nextSlotAfter (anchorAt : OffsetDateTime) (intervalSeconds : ℕ) (asOf : OffsetDateTime) :
    Except Stop OffsetDateTime := do
  if asOf.instant < anchorAt.instant then return anchorAt
  let elapsed ← orPanic (signed 128 (← duration (asOf.instant - anchorAt.instant)))
  let intervalNanos ← orPanic (signed 128 (intervalSeconds * nanosPerSecond))
  let steps ← orInvalid "schedule interval overflowed"
    ((divide 128 elapsed intervalNanos).bind fun value => signed 128 (value + 1))
  let offset ← orInvalid "schedule cursor is too large"
    ((signed 128 (steps * intervalSeconds)).bind fun value => signed 64 value)
  orInvalid "schedule cursor overflowed" (anchorAt.checkedAdd (seconds offset))

end Machine

/-! ### The intermediate values fit -/

namespace Machine

theorem signed_of_mem {bits : ℕ} {x : ℤ} (h : -2 ^ (bits - 1) ≤ x ∧ x < 2 ^ (bits - 1)) :
    signed bits x = some x := if_pos h

theorem unsigned_of_mem {bits : ℕ} {x : ℤ} (h : 0 ≤ x ∧ x < 2 ^ bits) :
    unsigned bits x = some x.toNat := if_pos h

/-- The quotient of a natural number by a positive one is no larger than the dividend. -/
theorem divide_of_mem {bits : ℕ} {x y : ℤ} (hy : 0 < y) (hx : 0 ≤ x) (hbits : x < 2 ^ (bits - 1)) :
    divide bits x y = some (x / y) := by
  have hle : x / y ≤ x := Int.ediv_le_self y hx
  have hnonneg : 0 ≤ x / y := Int.ediv_nonneg hx hy.le
  have hpow : (0 : ℤ) ≤ 2 ^ (bits - 1) := pow_nonneg (by decide) _
  rw [divide, if_neg hy.ne', Int.tdiv_eq_ediv_of_nonneg hx]
  apply signed_of_mem
  omega

end Machine

section Range

variable {n t : OffsetDateTime}

/-- Two times are less than 2^40 seconds apart. -/
theorem OffsetDateTime.sub_lt (n t : OffsetDateTime) :
    t.instant - n.instant < seconds (2 ^ 40) := by
  have hn := n.representable.1
  have ht := t.representable.2
  have hn' := n.offset_bounded.2
  have ht' := t.offset_bounded.1
  unfold minTimestamp at hn
  unfold maxTimestamp at ht
  unfold maxOffsetSeconds at hn' ht'
  unfold seconds nanosPerSecond at *
  omega

theorem duration_of_le (h : n.instant ≤ t.instant) :
    Machine.duration (t.instant - n.instant) = .ok (t.instant - n.instant) := by
  have hlt := n.sub_lt t
  have hsecs : wholeSeconds (t.instant - n.instant) = (t.instant - n.instant) / nanosPerSecond :=
    Int.tdiv_eq_ediv_of_nonneg (by omega)
  have hfits : Machine.signed 64 (wholeSeconds (t.instant - n.instant)) =
      some (wholeSeconds (t.instant - n.instant)) := by
    apply Machine.signed_of_mem
    rw [hsecs]
    unfold seconds nanosPerSecond at *
    omega
  rw [Machine.duration, hfits]
  rfl

variable {i : ℕ}

/-- The whole seconds between two times, and the whole intervals in them. -/
theorem elapsed_bounds (hi : 0 < i) (h : n.instant ≤ t.instant) :
    0 ≤ wholeSeconds (t.instant - n.instant) ∧ wholeSeconds (t.instant - n.instant) < 2 ^ 40 ∧
      wholeSeconds (t.instant - n.instant) / i = steps n.instant (interval i) t.instant := by
  have hlt := n.sub_lt t
  have hsecs : wholeSeconds (t.instant - n.instant) = (t.instant - n.instant) / nanosPerSecond :=
    Int.tdiv_eq_ediv_of_nonneg (by omega)
  have hnonneg : 0 ≤ wholeSeconds (t.instant - n.instant) := by
    rw [hsecs]
    exact Int.ediv_nonneg (by omega) (by decide)
  refine ⟨hnonneg, ?_, ?_⟩
  · rw [hsecs]
    unfold seconds nanosPerSecond at *
    omega
  · rw [coe_steps (interval_pos hi) h, ← coalesced_eq h, Int.tdiv_eq_ediv_of_nonneg hnonneg]

/-- A product that fits passes both conversions. -/
theorem offset_of_lt {c : ℕ} (h : (c : ℤ) * i < 2 ^ 40) :
    ((Machine.unsigned 64 ((c : ℤ) * i)).bind fun value => Machine.signed 64 value) =
      some ((c * i : ℕ) : ℤ) := by
  have hmem : (0 : ℤ) ≤ (c : ℤ) * i := mul_nonneg (by omega) (by omega)
  have hnat : (((c : ℤ) * i).toNat : ℤ) = ((c * i : ℕ) : ℤ) := by
    rw [Int.toNat_of_nonneg hmem]
    push_cast
    rfl
  rw [Machine.unsigned_of_mem ⟨hmem, by omega⟩, Option.bind_some, hnat]
  apply Machine.signed_of_mem
  push_cast
  omega

/-- For due cursors only the two additions can fail. -/
theorem latestDueSlot_due (hi : 0 < i) (h : n.instant ≤ t.instant) :
    Machine.latestDueSlot n i t =
      (Machine.orInvalid "scheduled time overflowed" (n.checkedAdd
        (seconds ((steps n.instant (interval i) t.instant * i : ℕ) : ℤ)))).bind fun scheduledFor =>
      (Machine.orInvalid "next schedule time overflowed"
        (scheduledFor.checkedAdd (interval i))).bind fun next =>
      .ok (scheduledFor, next, steps n.instant (interval i) t.instant) := by
  have hpos : (0 : ℤ) < i := by exact_mod_cast hi
  obtain ⟨hnonneg, hsmall, hquotient⟩ := elapsed_bounds hi h
  have hdivide : Machine.divide 64 (wholeSeconds (t.instant - n.instant)) i =
      some (steps n.instant (interval i) t.instant : ℤ) := by
    rw [Machine.divide_of_mem hpos hnonneg (hsmall.trans (by omega)), hquotient]
  have hprod : (steps n.instant (interval i) t.instant : ℤ) * i < 2 ^ 40 := by
    rw [← hquotient]
    exact (Int.ediv_mul_le _ hpos.ne').trans_lt hsmall
  have hcount : (steps n.instant (interval i) t.instant : ℤ) < 2 ^ 40 := by
    rw [← hquotient]
    exact (Int.ediv_le_self _ hnonneg).trans_lt hsmall
  generalize steps n.instant (interval i) t.instant = c at *
  have hcoalesced : Machine.unsigned 64 (c : ℤ) = some c :=
    Machine.unsigned_of_mem ⟨by omega, by omega⟩
  unfold Machine.latestDueSlot
  rw [if_neg (not_lt.mpr h), duration_of_le h, except_ok_bind]
  dsimp only
  rw [hdivide, Machine.orPanic_some, except_ok_bind, hcoalesced, Machine.orInvalid_some,
    except_ok_bind, offset_of_lt hprod, Machine.orInvalid_some, except_ok_bind]
  rfl

/-- The nanoseconds between two times and those of an interval divide as the grid does. -/
theorem nextSlotAfter_due (hi : 0 < i) (hmax : i < 2 ^ 32) (h : n.instant ≤ t.instant) :
    Machine.nextSlotAfter n i t =
      Machine.orInvalid "schedule cursor overflowed" (n.checkedAdd
        (seconds (((steps n.instant (interval i) t.instant : ℤ) + 1) * i))) := by
  have hpos : (0 : ℤ) < i := by exact_mod_cast hi
  have hlt : t.instant - n.instant < 2 ^ 100 := (n.sub_lt t).trans (by decide)
  have hinterval : Machine.signed 128 (i * nanosPerSecond) = some (interval i) := by
    apply Machine.signed_of_mem
    unfold nanosPerSecond
    omega
  have helapsed : Machine.signed 128 (t.instant - n.instant) = some (t.instant - n.instant) :=
    Machine.signed_of_mem ⟨by omega, by omega⟩
  obtain ⟨hnonneg, hsmall, hquotient⟩ := elapsed_bounds hi h
  have hdivide : Machine.divide 128 (t.instant - n.instant) (interval i) =
      some (steps n.instant (interval i) t.instant : ℤ) := by
    rw [Machine.divide_of_mem (interval_pos hi) (by omega) (hlt.trans (by omega)),
      coe_steps (interval_pos hi) h]
  have hprod : (steps n.instant (interval i) t.instant : ℤ) * i < 2 ^ 40 := by
    rw [← hquotient]
    exact (Int.ediv_mul_le _ hpos.ne').trans_lt hsmall
  have hcount : (steps n.instant (interval i) t.instant : ℤ) < 2 ^ 40 := by
    rw [← hquotient]
    exact (Int.ediv_le_self _ hnonneg).trans_lt hsmall
  generalize steps n.instant (interval i) t.instant = c at *
  have hsteps : Machine.signed 128 ((c : ℤ) + 1) = some ((c : ℤ) + 1) :=
    Machine.signed_of_mem ⟨by omega, by omega⟩
  have hoffset : ((Machine.signed 128 (((c : ℤ) + 1) * i)).bind fun value =>
      Machine.signed 64 value) = some (((c : ℤ) + 1) * i) := by
    have hmem : (0 : ℤ) ≤ ((c : ℤ) + 1) * i := mul_nonneg (by omega) (by omega)
    have hsum : ((c : ℤ) + 1) * i = c * i + i := by ring
    rw [Machine.signed_of_mem ⟨by omega, by omega⟩, Option.bind_some]
    exact Machine.signed_of_mem ⟨by omega, by omega⟩
  unfold Machine.nextSlotAfter
  rw [if_neg (not_lt.mpr h), duration_of_le h, except_ok_bind, helapsed, Machine.orPanic_some,
    except_ok_bind, hinterval, Machine.orPanic_some, except_ok_bind, hdivide, Option.bind_some,
    hsteps, Machine.orInvalid_some, except_ok_bind, hoffset, Machine.orInvalid_some, except_ok_bind]

/-! ### Exactness -/

theorem OffsetDateTime.checkedAdd_eq_some {d : ℤ} {u : OffsetDateTime} :
    n.checkedAdd d = some u ↔ u.instant = n.instant + d ∧ u.offset = n.offset := by
  unfold OffsetDateTime.checkedAdd
  constructor
  · intro h
    split at h
    · cases h
      exact ⟨rfl, rfl⟩
    · cases h
  · rintro ⟨hinstant, hoffset⟩
    have hholds : n.Holds (n.instant + d) := by
      unfold OffsetDateTime.Holds
      rw [← hinstant, ← hoffset]
      exact u.representable
    rw [dif_pos hholds, Option.some_inj]
    exact OffsetDateTime.ext hinstant.symm hoffset.symm

theorem OffsetDateTime.checkedAdd_eq_none {d : ℤ} :
    n.checkedAdd d = none ↔ ¬n.Holds (n.instant + d) := by
  unfold OffsetDateTime.checkedAdd
  split <;> simp_all

theorem Machine.orInvalid_ok {α : Type} {message : String} {x : Option α} {a : α} :
    Machine.orInvalid message x = .ok a ↔ x = some a := by
  cases x with
  | none => simp [Machine.orInvalid]
  | some b => simp

theorem Machine.latestDueSlot_early (h : t.instant < n.instant) :
    Machine.latestDueSlot n i t =
      .error (.error (.invalidData "schedule is not due at the supplied clock time")) := by
  unfold Machine.latestDueSlot
  rw [if_pos h]
  rfl

theorem Machine.nextSlotAfter_early (h : t.instant < n.instant) :
    Machine.nextSlotAfter n i t = .ok n := by
  unfold Machine.nextSlotAfter
  rw [if_pos h]
  rfl

/-- The slots of the cursor that are due. -/
def due (n : OffsetDateTime) (i : ℕ) (t : OffsetDateTime) : Set ℤ :=
  {x | OnGrid n.instant (interval i) x ∧ x ≤ t.instant}

/-- The slots of the anchor after a time. -/
def later (a : OffsetDateTime) (i : ℕ) (t : OffsetDateTime) : Set ℤ :=
  {x | OnGrid a.instant (interval i) x ∧ t.instant < x}

theorem isGreatest_due (hi : 0 < i) (h : n.instant ≤ t.instant) :
    IsGreatest (due n i t)
      (slot n.instant (interval i) (steps n.instant (interval i) t.instant)) := by
  refine ⟨⟨⟨_, rfl⟩, slot_steps_le (interval_pos hi) h⟩, ?_⟩
  rintro x ⟨⟨k, rfl⟩, hk⟩
  have hlt := hk.trans_lt (lt_slot_steps_succ (interval_pos hi) h)
  have := (slot_lt_slot (interval_pos hi)).mp hlt
  exact (slot_le_slot (interval_pos hi)).mpr (by omega)

theorem isLeast_later_early (hi : 0 < i) (h : t.instant < n.instant) :
    IsLeast (later n i t) n.instant := by
  refine ⟨⟨⟨0, by simp⟩, h⟩, ?_⟩
  rintro x ⟨⟨k, rfl⟩, -⟩
  have := (slot_le_slot (a := n.instant) (interval_pos hi)).mpr (Nat.zero_le k)
  rwa [slot_zero] at this

theorem isLeast_later (hi : 0 < i) (h : n.instant ≤ t.instant) :
    IsLeast (later n i t)
      (slot n.instant (interval i) (steps n.instant (interval i) t.instant + 1)) := by
  refine ⟨⟨⟨_, rfl⟩, lt_slot_steps_succ (interval_pos hi) h⟩, ?_⟩
  rintro x ⟨⟨k, rfl⟩, hk⟩
  exact slot_steps_succ_le (interval_pos hi) h hk

theorem no_due_early (hi : 0 < i) (h : t.instant < n.instant) {x : ℤ} : x ∉ due n i t := by
  rintro ⟨hgrid, hle⟩
  have := (isLeast_later_early hi h).2 ⟨hgrid, ?_⟩
  · omega
  · obtain ⟨k, rfl⟩ := hgrid
    have := (slot_le_slot (a := n.instant) (interval_pos hi)).mpr (Nat.zero_le k)
    rw [slot_zero] at this
    omega

/-- The slots before the one with number `k` are `k` many. -/
theorem ncard_before (hi : 0 < i) (a : ℤ) (k : ℕ) :
    {x | OnGrid a (interval i) x ∧ x < slot a (interval i) k}.ncard = k := by
  have hset : {x | OnGrid a (interval i) x ∧ x < slot a (interval i) k} =
      (slots a (interval i) k).toFinset := by
    ext x
    simp [mem_slots_iff_lt (interval_pos hi)]
  rw [hset, Set.ncard_coe_finset, List.toFinset_card_of_nodup (slots_nodup (interval_pos hi) k)]
  simp [slots]

/-- An exact answer of `latest_due_slot`: the greatest due slot, the one after it, and the number of
older due slots. -/
structure LatestDue (n : OffsetDateTime) (i : ℕ) (t scheduledFor next : OffsetDateTime) (k : ℕ) :
    Prop where
  greatest : IsGreatest (due n i t) scheduledFor.instant
  older : {x | OnGrid n.instant (interval i) x ∧ x < scheduledFor.instant}.ncard = k
  scheduled : scheduledFor.instant = n.instant + k * interval i
  following : next.instant = n.instant + (k + 1) * interval i
  offsets : scheduledFor.offset = n.offset ∧ next.offset = n.offset

/-- An exact answer of `next_slot_after`. -/
structure NextAfter (a : OffsetDateTime) (i : ℕ) (t next : OffsetDateTime) : Prop where
  least : IsLeast (later a i t) next.instant
  offset : next.offset = a.offset

variable {s u : OffsetDateTime} {k : ℕ}

theorem latestDue_iff (hi : 0 < i) (h : n.instant ≤ t.instant) :
    LatestDue n i t s u k ↔ k = steps n.instant (interval i) t.instant ∧
      s.instant = slot n.instant (interval i) k ∧ s.offset = n.offset ∧
      u.instant = slot n.instant (interval i) (k + 1) ∧ u.offset = n.offset := by
  have hgreatest := isGreatest_due hi h
  constructor
  · intro hdue
    have hfirst : s.instant = slot n.instant (interval i) k := hdue.scheduled
    have hsteps := hdue.greatest.unique hgreatest
    rw [hfirst] at hsteps
    have hsecond : u.instant = slot n.instant (interval i) (k + 1) := by
      rw [hdue.following, slot]
      push_cast
      rfl
    exact ⟨slot_injective (interval_pos hi) hsteps, hfirst, hdue.offsets.1, hsecond,
      hdue.offsets.2⟩
  · rintro ⟨rfl, hs, hs', hu, hu'⟩
    refine ⟨?_, ?_, hs, ?_, hs', hu'⟩
    · rw [hs]
      exact hgreatest
    · rw [hs]
      exact ncard_before hi _ _
    · rw [hu, slot]
      push_cast
      rfl

theorem latestDueSlot_machine (hi : 0 < i) :
    Machine.latestDueSlot n i t = .ok (s, u, k) ↔ LatestDue n i t s u k := by
  rcases lt_or_ge t.instant n.instant with h | h
  · rw [Machine.latestDueSlot_early h]
    constructor
    · intro hok
      cases hok
    · intro hdue
      exact absurd hdue.greatest.1 (no_due_early hi h)
  · have hslot (c : ℕ) : n.instant + seconds ((c * i : ℕ) : ℤ) = slot n.instant (interval i) c := by
      rw [Nat.cast_mul, seconds_mul]
      rfl
    rw [latestDueSlot_due hi h, latestDue_iff hi h]
    constructor
    · intro hok
      obtain ⟨first, hfirst, hok⟩ := except_bind_ok.mp hok
      obtain ⟨second, hsecond, hok⟩ := except_bind_ok.mp hok
      cases hok
      obtain ⟨hs, hs'⟩ := OffsetDateTime.checkedAdd_eq_some.mp (Machine.orInvalid_ok.mp hfirst)
      obtain ⟨hu, hu'⟩ := OffsetDateTime.checkedAdd_eq_some.mp (Machine.orInvalid_ok.mp hsecond)
      rw [hslot] at hs
      rw [hs, ← slot_succ] at hu
      exact ⟨rfl, hs, hs', hu, hu'.trans hs'⟩
    · rintro ⟨rfl, hs, hs', hu, hu'⟩
      have hfirst : n.checkedAdd (seconds ((steps n.instant (interval i) t.instant * i : ℕ) : ℤ)) =
          some s := OffsetDateTime.checkedAdd_eq_some.mpr ⟨by rw [hslot, hs], hs'⟩
      have hsecond : s.checkedAdd (interval i) = some u := by
        refine OffsetDateTime.checkedAdd_eq_some.mpr ⟨?_, hu'.trans hs'.symm⟩
        rw [hu, hs, slot_succ]
      rw [hfirst, Machine.orInvalid_some]
      show (Machine.orInvalid _ (s.checkedAdd (interval i))).bind _ = _
      rw [hsecond]
      rfl

theorem nextSlotAfter_machine (hi : 0 < i) (hmax : i < 2 ^ 32) :
    Machine.nextSlotAfter n i t = .ok u ↔ NextAfter n i t u := by
  rcases lt_or_ge t.instant n.instant with h | h
  · have hleast := isLeast_later_early hi h
    rw [Machine.nextSlotAfter_early h]
    constructor
    · intro hok
      cases hok
      exact ⟨hleast, rfl⟩
    · intro hnext
      rw [OffsetDateTime.ext (hleast.unique hnext.least) hnext.offset.symm]
  · have hleast := isLeast_later hi h
    have hslot : n.instant + seconds (((steps n.instant (interval i) t.instant : ℤ) + 1) * i) =
        slot n.instant (interval i) (steps n.instant (interval i) t.instant + 1) := by
      rw [seconds_mul, slot]
      push_cast
      rfl
    rw [nextSlotAfter_due hi hmax h, Machine.orInvalid_ok, OffsetDateTime.checkedAdd_eq_some, hslot]
    constructor
    · rintro ⟨hu, hu'⟩
      exact ⟨hu ▸ hleast, hu'⟩
    · intro hnext
      exact ⟨hnext.least.unique hleast, hnext.offset⟩

theorem Machine.orInvalid_ne_panic {α : Type} (message : String) (x : Option α) :
    Machine.orInvalid message x ≠ .error .panic := by
  cases x <;> simp [Machine.orInvalid]

theorem latestDueSlot_ne_panic (hi : 0 < i) : Machine.latestDueSlot n i t ≠ .error .panic := by
  rcases lt_or_ge t.instant n.instant with h | h
  · rw [Machine.latestDueSlot_early h]
    simp
  · rw [latestDueSlot_due hi h]
    refine except_bind_ne_error (Machine.orInvalid_ne_panic _ _) fun first _ => ?_
    refine except_bind_ne_error (Machine.orInvalid_ne_panic _ _) fun second _ => ?_
    simp

theorem nextSlotAfter_ne_panic (hi : 0 < i) (hmax : i < 2 ^ 32) :
    Machine.nextSlotAfter n i t ≠ .error .panic := by
  rcases lt_or_ge t.instant n.instant with h | h
  · rw [Machine.nextSlotAfter_early h]
    simp
  · rw [nextSlotAfter_due hi hmax h]
    exact Machine.orInvalid_ne_panic _ _

/-- A computation that does not panic and has no result ends with an error. -/
theorem error_iff_no_result {α : Type} {x : Except Stop α} (h : x ≠ .error .panic) :
    (∃ e, x = .error (.error e)) ↔ ¬∃ a, x = .ok a := by
  rcases x with (e | _) | a
  · simp
  · exact absurd rfl h
  · simp

theorem exists_holding {x : ℤ} : n.Holds x ↔ ∃ u : OffsetDateTime, u.instant = x ∧
    u.offset = n.offset := by
  constructor
  · intro h
    exact ⟨⟨x, n.offset, n.offset_bounded, h⟩, rfl, rfl⟩
  · rintro ⟨u, rfl, hoffset⟩
    unfold OffsetDateTime.Holds
    rw [← hoffset]
    exact u.representable

theorem latestDueSlot_error (hi : 0 < i) :
    (∃ e, Machine.latestDueSlot n i t = .error (.error e)) ↔ t.instant < n.instant ∨
      ∃ x, IsGreatest (due n i t) x ∧ ¬(n.Holds x ∧ n.Holds (x + interval i)) := by
  rw [error_iff_no_result (latestDueSlot_ne_panic hi)]
  rcases lt_or_ge t.instant n.instant with h | h
  · rw [Machine.latestDueSlot_early h]
    simp [h]
  · have hgreatest := isGreatest_due hi h
    constructor
    · intro hnone
      refine Or.inr ⟨_, hgreatest, fun hholds => hnone ?_⟩
      rw [← slot_succ] at hholds
      obtain ⟨s, hs, hs'⟩ := exists_holding.mp hholds.1
      obtain ⟨u, hu, hu'⟩ := exists_holding.mp hholds.2
      exact ⟨(s, u, _), (latestDueSlot_machine hi).mpr
        ((latestDue_iff hi h).mpr ⟨rfl, hs, hs', hu, hu'⟩)⟩
    · rintro (hearly | ⟨x, hx, hout⟩) ⟨⟨s, u, k⟩, hok⟩
      · omega
      · obtain ⟨rfl, hs, hs', hu, hu'⟩ :=
          (latestDue_iff hi h).mp ((latestDueSlot_machine hi).mp hok)
        rw [hx.unique hgreatest, ← slot_succ] at hout
        exact hout ⟨exists_holding.mpr ⟨s, hs, hs'⟩, exists_holding.mpr ⟨u, hu, hu'⟩⟩

theorem nextSlotAfter_error (hi : 0 < i) (hmax : i < 2 ^ 32) :
    (∃ e, Machine.nextSlotAfter n i t = .error (.error e)) ↔
      ∃ x, IsLeast (later n i t) x ∧ ¬n.Holds x := by
  have hleast : ∃ x, IsLeast (later n i t) x := by
    rcases lt_or_ge t.instant n.instant with h | h
    · exact ⟨_, isLeast_later_early hi h⟩
    · exact ⟨_, isLeast_later hi h⟩
  obtain ⟨x, hx⟩ := hleast
  rw [error_iff_no_result (nextSlotAfter_ne_panic hi hmax)]
  constructor
  · intro hnone
    refine ⟨x, hx, fun hholds => hnone ?_⟩
    obtain ⟨u, rfl, hu'⟩ := exists_holding.mp hholds
    exact ⟨u, (nextSlotAfter_machine hi hmax).mpr ⟨hx, hu'⟩⟩
  · rintro ⟨y, hy, hout⟩ ⟨u, hok⟩
    have hnext := (nextSlotAfter_machine hi hmax).mp hok
    exact hout (exists_holding.mpr ⟨u, hnext.least.unique hy, hnext.offset⟩)

/-- From a due cursor, the two functions give the same next slot, or both none. -/
theorem latestDueSlot_next (hi : 0 < i) (hmax : i < 2 ^ 32) (h : n.instant ≤ t.instant) :
    (∃ s k, Machine.latestDueSlot n i t = .ok (s, u, k)) ↔ Machine.nextSlotAfter n i t = .ok u := by
  rw [nextSlotAfter_machine hi hmax]
  have hleast := isLeast_later hi h
  constructor
  · rintro ⟨s, k, hok⟩
    obtain ⟨rfl, -, -, hu, hu'⟩ := (latestDue_iff hi h).mp ((latestDueSlot_machine hi).mp hok)
    exact ⟨hu ▸ hleast, hu'⟩
  · intro hnext
    have hu := hnext.least.unique hleast
    have hfirst := slot_steps_le (interval_pos hi) h
    have hstart :
        n.instant ≤ slot n.instant (interval i) (steps n.instant (interval i) t.instant) :=
      (isGreatest_due hi h).2 ⟨⟨0, by simp⟩, h⟩
    -- The due slot lies between the cursor and the next slot, whose dates are in range.
    have hholds :
        n.Holds (slot n.instant (interval i) (steps n.instant (interval i) t.instant)) := by
      have hn := n.representable.1
      have hmaximal := u.representable.2
      have hpos := interval_pos hi
      rw [hu, slot_succ, hnext.offset] at hmaximal
      exact ⟨by omega, by omega⟩
    obtain ⟨s, hs, hs'⟩ := exists_holding.mp hholds
    exact ⟨s, _, (latestDueSlot_machine hi).mpr
      ((latestDue_iff hi h).mpr ⟨rfl, hs, hs', hu, hnext.offset⟩)⟩

/-! ### Times in UTC -/

theorem OffsetDateTime.checkedAdd_utc (hn : n.offset = 0) (d : ℤ) :
    (n.checkedAdd d).map OffsetDateTime.instant = TaskHarbor.checkedAdd n.instant d := by
  have hholds : n.Holds (n.instant + d) ↔
      minTimestamp ≤ n.instant + d ∧ n.instant + d ≤ maxTimestamp := by
    unfold OffsetDateTime.Holds
    rw [hn, seconds, zero_mul, add_zero]
  unfold OffsetDateTime.checkedAdd TaskHarbor.checkedAdd
  by_cases h : n.Holds (n.instant + d)
  · rw [dif_pos h, if_pos (hholds.mp h)]
    rfl
  · rw [dif_neg h, if_neg (mt hholds.mpr h)]
    rfl

/-- In UTC the machine computes the slots of the model. -/
theorem latestDueSlot_utc (hn : n.offset = 0) (hi : 0 < i) {x y : ℤ} :
    latestDueSlot n.instant i t.instant = .ok (x, y, k) ↔
      ∃ s u, Machine.latestDueSlot n i t = .ok (s, u, k) ∧ s.instant = x ∧ u.instant = y := by
  have hutc (z : ℤ) : n.Holds z ↔ minTimestamp ≤ z ∧ z ≤ maxTimestamp := by
    unfold OffsetDateTime.Holds
    rw [hn, seconds, zero_mul, add_zero]
  rw [latestDueSlot_ok hi]
  rcases lt_or_ge t.instant n.instant with h | h
  · rw [Machine.latestDueSlot_early h]
    constructor
    · rintro ⟨hle, -⟩
      omega
    · rintro ⟨s, u, hok, -⟩
      cases hok
  · constructor
    · rintro ⟨-, rfl, -, rfl, rfl, hfirst, hsecond⟩
      obtain ⟨s, hs, hs'⟩ := exists_holding.mp ((hutc _).mpr hfirst)
      obtain ⟨u, hu, hu'⟩ := exists_holding.mp ((hutc _).mpr hsecond)
      exact ⟨s, u, (latestDueSlot_machine hi).mpr
        ((latestDue_iff hi h).mpr ⟨rfl, hs, hs', hu, hu'⟩), hs, hu⟩
    · rintro ⟨s, u, hok, rfl, rfl⟩
      obtain ⟨rfl, hs, hs', hu, hu'⟩ := (latestDue_iff hi h).mp ((latestDueSlot_machine hi).mp hok)
      obtain ⟨hnonneg, hsmall, hquotient⟩ := elapsed_bounds hi h
      have hprod : (steps n.instant (interval i) t.instant : ℤ) * i < 2 ^ 40 := by
        rw [← hquotient]
        exact (Int.ediv_mul_le _ (by omega)).trans_lt hsmall
      refine ⟨h, rfl, ?_, hs, hu, (hutc _).mp (exists_holding.mpr ⟨s, rfl, hs'⟩),
        (hutc _).mp (exists_holding.mpr ⟨u, rfl, hu'⟩)⟩
      have hfits : ((steps n.instant (interval i) t.instant * i : ℕ) : ℤ) < 2 ^ 40 := by
        push_cast
        exact hprod
      unfold i64Max
      omega

theorem nextSlotAfter_utc (hn : n.offset = 0) (hi : 0 < i) (hmax : i < 2 ^ 32) {x : ℤ} :
    nextSlotAfter n.instant i t.instant = .ok x ↔
      ∃ u, Machine.nextSlotAfter n i t = .ok u ∧ u.instant = x := by
  rcases lt_or_ge t.instant n.instant with h | h
  · rw [Machine.nextSlotAfter_early h, nextSlotAfter, if_pos h]
    exact ⟨fun hok => ⟨n, rfl, Except.ok.inj hok⟩, fun ⟨u, hok, hx⟩ => by cases hok; rw [hx]; rfl⟩
  · have hsteps : (t.instant - n.instant).tdiv (seconds i) =
        (steps n.instant (interval i) t.instant : ℤ) := by
      rw [Int.tdiv_eq_ediv_of_nonneg (by omega), coe_steps (interval_pos hi) h]
    obtain ⟨hnonneg, hsmall, hquotient⟩ := elapsed_bounds hi h
    have hprod : (steps n.instant (interval i) t.instant : ℤ) * i < 2 ^ 40 := by
      rw [← hquotient]
      exact (Int.ediv_mul_le _ (by omega)).trans_lt hsmall
    have hfits : ¬(i64Max : ℤ) < ((steps n.instant (interval i) t.instant : ℤ) + 1) * i := by
      have hsum : ((steps n.instant (interval i) t.instant : ℤ) + 1) * i =
          steps n.instant (interval i) t.instant * i + i := by ring
      unfold i64Max
      push_cast
      omega
    rw [nextSlotAfter_due hi hmax h, nextSlotAfter, if_neg (not_lt.mpr h), if_neg (by omega)]
    dsimp only
    rw [hsteps, if_neg hfits, ← OffsetDateTime.checkedAdd_utc hn]
    cases n.checkedAdd (seconds (((steps n.instant (interval i) t.instant : ℤ) + 1) * i)) with
    | none =>
      constructor
      · intro hok
        cases hok
      · rintro ⟨u, hok, -⟩
        cases hok
    | some v =>
      constructor
      · intro hok
        cases hok
        exact ⟨v, rfl, rfl⟩
      · rintro ⟨u, hok, rfl⟩
        cases hok
        rfl

end Range

/-- The slot arithmetic is exact, agrees on the next slot, fails only for cursors that are not due
and for dates out of range, and never panics. -/
theorem slot_arithmetic_exact (n t : OffsetDateTime) (i : ℕ) (hi : 60 ≤ i ∧ i ≤ 31536000) :
    (∀ s u k, Machine.latestDueSlot n i t = .ok (s, u, k) ↔ LatestDue n i t s u k) ∧
    (∀ u, Machine.nextSlotAfter n i t = .ok u ↔ NextAfter n i t u) ∧
    ((∃ e, Machine.latestDueSlot n i t = .error (.error e)) ↔ t.instant < n.instant ∨
      ∃ x, IsGreatest (due n i t) x ∧ ¬(n.Holds x ∧ n.Holds (x + interval i))) ∧
    ((∃ e, Machine.nextSlotAfter n i t = .error (.error e)) ↔
      ∃ x, IsLeast (later n i t) x ∧ ¬n.Holds x) ∧
    Machine.latestDueSlot n i t ≠ .error .panic ∧ Machine.nextSlotAfter n i t ≠ .error .panic ∧
    (n.instant ≤ t.instant → ∀ u, (∃ s k, Machine.latestDueSlot n i t = .ok (s, u, k)) ↔
      Machine.nextSlotAfter n i t = .ok u) := by
  have hpos : 0 < i := by omega
  have hmax : i < 2 ^ 32 := by omega
  exact ⟨fun _ _ _ => latestDueSlot_machine hpos, fun _ => nextSlotAfter_machine hpos hmax,
    latestDueSlot_error hpos, nextSlotAfter_error hpos hmax, latestDueSlot_ne_panic hpos,
    nextSlotAfter_ne_panic hpos hmax, fun h _ => latestDueSlot_next hpos hmax h⟩

/-! A cursor in UTC, and a clock at another offset, between the third slot and the fourth. -/

def sampleCursor : OffsetDateTime := ⟨seconds 1800000000, 0, by decide, by decide⟩

def sampleClock : OffsetDateTime :=
  ⟨seconds 1800000190 + 500000000, 7200, by decide, by decide⟩

def sampleDue : OffsetDateTime := ⟨seconds 1800000180, 0, by decide, by decide⟩

def sampleNext : OffsetDateTime := ⟨seconds 1800000240, 0, by decide, by decide⟩

theorem slot_arithmetic_exact_sample :
    LatestDue sampleCursor 60 sampleClock sampleDue sampleNext 3 :=
  ((slot_arithmetic_exact sampleCursor sampleClock 60 (by decide)).1 sampleDue sampleNext 3).mp
    (by decide +kernel)

end TaskHarbor
