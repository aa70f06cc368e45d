import Mathlib.Data.List.Basic
import Mathlib.Tactic.Common
import Mathlib.Tactic.Ring

/-! Codes whose words can be told apart in a text: a word of fixed length, a word behind its length,
and the concatenation of any number of them. -/
namespace Framing

variable {α β : Type}

/-- No word of the code starts in two ways. -/
def SelfDelimiting (P : β → Prop) (encode : β → List α) : Prop :=
  ∀ x y s t, P x → P y → encode x ++ s = encode y ++ t → x = y ∧ s = t

section Codes

variable {P : β → Prop} {encode : β → List α}

/-- A sequence of words is read back word by word. -/
theorem SelfDelimiting.flatMap_inj (h : SelfDelimiting P encode) (hne : ∀ x, encode x ≠ [])
    {xs ys : List β} (hxs : ∀ x ∈ xs, P x) (hys : ∀ y ∈ ys, P y)
    (heq : xs.flatMap encode = ys.flatMap encode) : xs = ys := by
  induction xs generalizing ys with
  | nil =>
    cases ys with
    | nil => rfl
    | cons y ys =>
      simp only [List.flatMap_nil, List.flatMap_cons] at heq
      exact absurd (List.append_eq_nil_iff.mp heq.symm).1 (hne y)
  | cons x xs ih =>
    cases ys with
    | nil =>
      simp only [List.flatMap_nil, List.flatMap_cons] at heq
      exact absurd (List.append_eq_nil_iff.mp heq).1 (hne x)
    | cons y ys =>
      obtain ⟨hx, hxs'⟩ := List.forall_mem_cons.mp hxs
      obtain ⟨hy, hys'⟩ := List.forall_mem_cons.mp hys
      simp only [List.flatMap_cons] at heq
      obtain ⟨rfl, htail⟩ := h x y _ _ hx hy heq
      rw [ih hxs' hys' htail]

theorem selfDelimiting_fixed {n : ℕ} (hlength : ∀ x, (encode x).length = n)
    (hinj : ∀ x y, P x → P y → encode x = encode y → x = y) : SelfDelimiting P encode := by
  intro x y s t hx hy heq
  obtain ⟨hword, hrest⟩ := List.append_inj heq ((hlength x).trans (hlength y).symm)
  exact ⟨hinj x y hx hy hword, hrest⟩

/-- A word behind a header of fixed length that determines the word's length. -/
theorem selfDelimiting_framed {header : List α → List α} {P : List α → Prop} {n : ℕ}
    (hlength : ∀ w, (header w).length = n)
    (hinj : ∀ v w, P v → P w → header v = header w → v.length = w.length) :
    SelfDelimiting P fun w => header w ++ w := by
  intro v w s t hv hw heq
  simp only [List.append_assoc] at heq
  obtain ⟨hheader, hrest⟩ := List.append_inj heq ((hlength v).trans (hlength w).symm)
  exact List.append_inj hrest (hinj v w hv hw hheader)

end Codes

/-- Numbers of `m` digits are equal when their digits are. -/
theorem eq_of_digits {b m n k : ℕ} (hn : n < b ^ m) (hk : k < b ^ m)
    (h : ∀ i < m, n / b ^ i % b = k / b ^ i % b) : n = k := by
  induction m generalizing n k with
  | zero =>
    rw [pow_zero] at hn hk
    omega
  | succ m ih =>
    have hlow := h 0 (Nat.succ_pos m)
    have hhigh : n / b = k / b := by
      rw [pow_succ] at hn hk
      apply ih (Nat.div_lt_of_lt_mul (by rwa [mul_comm])) (Nat.div_lt_of_lt_mul (by rwa [mul_comm]))
      intro i hi
      have hdigit := h (i + 1) (Nat.succ_lt_succ hi)
      rwa [pow_succ', ← Nat.div_div_eq_div_mul, ← Nat.div_div_eq_div_mul] at hdigit
    rw [pow_zero, Nat.div_one, Nat.div_one] at hlow
    rw [← Nat.div_add_mod n b, ← Nat.div_add_mod k b, hhigh, hlow]

end Framing
