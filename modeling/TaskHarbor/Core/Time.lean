import Mathlib.Algebra.Order.Ring.Int
import Mathlib.Algebra.Ring.Divisibility.Basic
import Mathlib.Tactic.Common

/-! Instants and durations. An `OffsetDateTime` is its UTC instant, an integer number of
nanoseconds since the Unix epoch; a `time::Duration` is a signed number of nanoseconds. PostgreSQL
keeps microseconds. -/
namespace TaskHarbor

def nanosPerSecond : ℤ := 1000000000

def nanosPerMillisecond : ℤ := 1000000

def nanosPerMicrosecond : ℤ := 1000

/-- `Duration::seconds(n)`, also the SQL value `n * INTERVAL '1 second'`. -/
def seconds (n : ℤ) : ℤ := n * nanosPerSecond

/-- `Duration::whole_seconds` truncates towards zero, as its siblings below. -/
def wholeSeconds (d : ℤ) : ℤ := d.tdiv nanosPerSecond

def wholeMilliseconds (d : ℤ) : ℤ := d.tdiv nanosPerMillisecond

/-- The first instant of the year -9999 and the last of the year 9999. -/
def minTimestamp : ℤ := seconds (-377705116800)

def maxTimestamp : ℤ := seconds 253402300800 - 1

/-- `OffsetDateTime::checked_add`. -/
def checkedAdd (t d : ℤ) : Option ℤ :=
  if minTimestamp ≤ t + d ∧ t + d ≤ maxTimestamp then some (t + d) else none

/-- 2000-01-01T00:00:00Z, the origin of the PostgreSQL wire format. -/
def postgresEpoch : ℤ := seconds 946684800

/-- Binding a timestamp parameter drops the digits below a microsecond, towards the origin. -/
def bindTimestamp (t : ℤ) : ℤ :=
  postgresEpoch + (t - postgresEpoch).tdiv nanosPerMicrosecond * nanosPerMicrosecond

/-- The instants that PostgreSQL can represent exactly. -/
def WholeMicros (t : ℤ) : Prop := nanosPerMicrosecond ∣ t

instance (t : ℤ) : Decidable (WholeMicros t) := by
  unfold WholeMicros
  infer_instance

theorem seconds_pos {n : ℤ} (h : 0 < n) : 0 < seconds n :=
  Int.mul_pos h (by decide)

theorem wholeMicros_seconds (n : ℤ) : WholeMicros (seconds n) :=
  Dvd.dvd.mul_left (by decide) n

theorem WholeMicros.add {s t : ℤ} (hs : WholeMicros s) (ht : WholeMicros t) :
    WholeMicros (s + t) := dvd_add hs ht

theorem bindTimestamp_of_wholeMicros {t : ℤ} (h : WholeMicros t) : bindTimestamp t = t := by
  have hd : nanosPerMicrosecond ∣ t - postgresEpoch :=
    dvd_sub h (wholeMicros_seconds 946684800)
  rw [bindTimestamp, Int.tdiv_mul_cancel hd]
  omega

theorem wholeMicros_bindTimestamp (t : ℤ) : WholeMicros (bindTimestamp t) :=
  (wholeMicros_seconds 946684800).add (Dvd.intro_left _ rfl)

theorem bindTimestamp_mono {s t : ℤ} (h : s ≤ t) : bindTimestamp s ≤ bindTimestamp t := by
  have hd : (s - postgresEpoch).tdiv nanosPerMicrosecond ≤
      (t - postgresEpoch).tdiv nanosPerMicrosecond :=
    Int.tdiv_le_tdiv (by decide) (by omega)
  unfold bindTimestamp
  have := Int.mul_le_mul_of_nonneg_right hd (show 0 ≤ nanosPerMicrosecond by decide)
  omega

theorem checkedAdd_eq_some {t d u : ℤ} :
    checkedAdd t d = some u ↔ u = t + d ∧ minTimestamp ≤ t + d ∧ t + d ≤ maxTimestamp := by
  unfold checkedAdd
  split
  · rename_i h
    constructor
    · intro he
      exact ⟨(Option.some.inj he).symm, h⟩
    · rintro ⟨rfl, _⟩
      rfl
  · rename_i h
    constructor
    · intro he
      cases he
    · rintro ⟨_, hr⟩
      exact absurd hr h

end TaskHarbor
