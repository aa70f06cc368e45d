import Mathlib.Algebra.Order.Round
import Mathlib.Data.Rat.Floor
import Mathlib.Tactic.Linarith
import TaskHarbor.Storage.Images

/-! `resized_dimensions`: the height that keeps the aspect ratio, rounded to the nearest pixel, in
64-bit arithmetic that cannot overflow. -/
namespace TaskHarbor

/-- A `u64` operation; beyond the type it panics. -/
def asU64 (n : ℕ) : Option ℕ := if n ≤ u64Max then some n else none

/-- `u32::try_from(n).unwrap_or(u32::MAX)`. -/
def asU32OrMax (n : ℕ) : ℕ := if n ≤ u32Max then n else u32Max

/-- `scaled_height` before it is narrowed. -/
def scaledHeight (width height maxWidth : ℕ) : Option ℕ := do
  let product ← asU64 (height * maxWidth)
  let sum ← asU64 (product + width / 2)
  return sum / width

/-- `resized_dimensions`. -/
def resizedDimensions (width height maxWidth : ℕ) : Option (ℕ × ℕ) :=
  if width ≤ maxWidth then some (width, height)
  else do
    let scaled ← scaledHeight width height maxWidth
    return (maxWidth, max (asU32OrMax scaled) 1)

section Resize

variable {width height maxWidth : ℕ}

theorem scaledHeight_eq (hw : width ≤ u32Max) (hh : height ≤ u32Max) (hm : maxWidth ≤ u32Max) :
    scaledHeight width height maxWidth = some ((height * maxWidth + width / 2) / width) := by
  have hproduct : height * maxWidth ≤ u32Max * u32Max := Nat.mul_le_mul hh hm
  have hroom : u32Max * u32Max + u32Max ≤ u64Max := by decide
  have hfirst : asU64 (height * maxWidth) = some (height * maxWidth) := if_pos (by omega)
  have hsecond : asU64 (height * maxWidth + width / 2) = some (height * maxWidth + width / 2) :=
    if_pos (by omega)
  unfold scaledHeight
  rw [hfirst]
  simp only [Option.bind_eq_bind, Option.bind_some, hsecond]
  rfl

/-- Half of the width, truncated, rounds the quotient to the nearest integer. -/
theorem div_add_half_eq_round (n : ℕ) (hw : 0 < width) :
    (((n + width / 2) / width : ℕ) : ℤ) = round ((n : ℚ) / width) := by
  have hpos : (0 : ℚ) < width := by exact_mod_cast hw
  have hdivision := Nat.div_add_mod (n + width / 2) width
  have hrest := Nat.mod_lt (n + width / 2) hw
  generalize hq : (n + width / 2) / width = q at hdivision ⊢
  generalize (n + width / 2) % width = r at hdivision hrest
  symm
  rw [round_eq_iff, Set.mem_Ico]
  have hlow : 2 * (width * q) ≤ 2 * n + width := by omega
  have hhigh : 2 * n < 2 * (width * q) + width := by omega
  have hlow' : (2 : ℚ) * (width * q) ≤ 2 * n + width := by exact_mod_cast hlow
  have hhigh' : (2 : ℚ) * n < 2 * (width * q) + width := by exact_mod_cast hhigh
  push_cast
  constructor
  · rw [le_div_iff₀ hpos]
    linarith
  · rw [div_lt_iff₀ hpos]
    linarith

/-- Narrowing never makes an image higher. -/
theorem scaled_le (height : ℕ) (h : maxWidth < width) :
    (height * maxWidth + width / 2) / width ≤ height := by
  have hw : 0 < width := by omega
  rcases Nat.eq_zero_or_pos height with rfl | hh
  · rw [Nat.zero_mul, Nat.zero_add, Nat.div_eq_of_lt (Nat.div_lt_self hw (by decide))]
  · have hmul : height * (maxWidth + 1) ≤ height * width := Nat.mul_le_mul_left height h
    rw [Nat.mul_add, Nat.mul_one] at hmul
    have hlt : height * maxWidth + width / 2 < (height + 1) * width := by
      rw [Nat.add_mul, Nat.one_mul]
      omega
    exact Nat.lt_succ_iff.mp ((Nat.div_lt_iff_lt_mul hw).mpr hlt)

theorem resizedDimensions_narrow (h : width ≤ maxWidth) :
    resizedDimensions width height maxWidth = some (width, height) := if_pos h

theorem resizedDimensions_wide (hwide : maxWidth < width) (hw : width ≤ u32Max)
    (hh : height ≤ u32Max) : resizedDimensions width height maxWidth =
      some (maxWidth, max ((height * maxWidth + width / 2) / width) 1) := by
  have hle := scaled_le height hwide
  have hkept : asU32OrMax ((height * maxWidth + width / 2) / width) =
      (height * maxWidth + width / 2) / width := if_pos (by omega)
  rw [resizedDimensions, if_neg (by omega), scaledHeight_eq hw hh (by omega)]
  simp only [Option.bind_eq_bind, Option.bind_some, hkept]
  rfl

end Resize

/-- `resized_dimensions` stays within the input, keeps the ratio to the nearest pixel, is done after
one application and never yields more pixels than the validated input may have. -/
theorem resized_dimensions_nearest {width height maxWidth : ℕ}
    (hw : 1 ≤ width ∧ width ≤ u32Max) (hh : 1 ≤ height ∧ height ≤ u32Max)
    (hm : 1 ≤ maxWidth ∧ maxWidth ≤ u32Max) :
    ∃ w h, resizedDimensions width height maxWidth = some (w, h) ∧
      (1 ≤ w ∧ w ≤ min width maxWidth) ∧ (1 ≤ h ∧ h ≤ height) ∧
      (width ≤ maxWidth → w = width ∧ h = height) ∧
      (maxWidth < width → w = maxWidth ∧
        (h : ℤ) = max (round ((height * maxWidth : ℚ) / width)) 1 ∧
        ∃ scaled, scaledHeight width height maxWidth = some scaled ∧ scaled ≤ u32Max) ∧
      resizedDimensions w h maxWidth = some (w, h) ∧
      (validateDimensions width height = .ok () → w * h ≤ maxImagePixels) := by
  have hpixels : ∀ {w h : ℕ}, w ≤ width → h ≤ height →
      validateDimensions width height = .ok () → w * h ≤ maxImagePixels := by
    intro w h hwle hhle hvalid
    have hmul := Nat.mul_le_mul hwle hhle
    unfold validateDimensions at hvalid
    split at hvalid
    · cases hvalid
    · omega
  rcases Nat.lt_or_ge maxWidth width with hwide | hnarrow
  · have hle := scaled_le height hwide
    have hround := div_add_half_eq_round (height * maxWidth) hw.1
    push_cast at hround
    refine ⟨_, _, resizedDimensions_wide hwide hw.2 hh.2, ⟨hm.1, by omega⟩,
      ⟨by omega, by omega⟩, fun h => by omega, fun _ => ⟨rfl, ?_, _,
        scaledHeight_eq hw.2 hh.2 hm.2, by omega⟩, resizedDimensions_narrow le_rfl,
      hpixels (by omega) (by omega)⟩
    rw [← hround]
    push_cast
    rfl
  · exact ⟨width, height, resizedDimensions_narrow hnarrow, ⟨hw.1, by omega⟩, ⟨hh.1, le_rfl⟩,
      fun _ => ⟨rfl, rfl⟩, fun h => by omega, resizedDimensions_narrow hnarrow,
      hpixels le_rfl le_rfl⟩

theorem resized_dimensions_nearest_sample :
    ∃ w h, resizedDimensions 12000 1 1280 = some (w, h) ∧ w = 1280 ∧ 1 ≤ h ∧ h ≤ 1 := by
  obtain ⟨w, h, hrun, -, hh, -, hwide, -⟩ :=
    @resized_dimensions_nearest 12000 1 1280 (by decide) (by decide) (by decide)
  exact ⟨w, h, hrun, (hwide (by decide)).1, hh.1, hh.2⟩

end TaskHarbor
