import Mathlib.Algebra.BigOperators.Group.List.Basic
import Mathlib.Algebra.Order.Ring.Int
import Mathlib.Data.List.Nodup
import Mathlib.Tactic.Common
import Mathlib.Tactic.Ring

/-! An anchored grid `a, a + d, a + 2 * d, ...` of integers, and logs that account for a stretch of
it: each entry stands for one slot and for the slots that it absorbed just before. -/
namespace Grid

variable {a b d t x : ℤ}

def slot (a d : ℤ) (k : ℕ) : ℤ := a + k * d

def OnGrid (a d x : ℤ) : Prop := ∃ k : ℕ, x = slot a d k

@[simp] theorem slot_zero (a d : ℤ) : slot a d 0 = a := by simp [slot]

theorem slot_slot (a d : ℤ) (m n : ℕ) : slot (slot a d m) d n = slot a d (m + n) := by
  unfold slot
  push_cast
  ring

theorem slot_succ (a d : ℤ) (k : ℕ) : slot a d (k + 1) = slot a d k + d := by
  unfold slot
  push_cast
  ring

theorem slot_lt_slot (hd : 0 < d) {m n : ℕ} : slot a d m < slot a d n ↔ m < n := by
  have hmono : StrictMono (slot a d) := by
    apply strictMono_nat_of_lt_succ
    intro k
    rw [slot_succ]
    omega
  exact hmono.lt_iff_lt

theorem slot_le_slot (hd : 0 < d) {m n : ℕ} : slot a d m ≤ slot a d n ↔ m ≤ n := by
  rw [← not_lt, slot_lt_slot hd, not_lt]

theorem slot_injective (hd : 0 < d) : Function.Injective (slot a d) := by
  intro m n h
  apply le_antisymm
  · exact (slot_le_slot hd).mp h.le
  · exact (slot_le_slot hd).mp h.ge

theorem OnGrid.slot (h : OnGrid a d x) (n : ℕ) : OnGrid a d (slot x d n) := by
  obtain ⟨k, rfl⟩ := h
  exact ⟨k + n, slot_slot a d k n⟩

/-! ### The slot at a time -/

/-- The whole steps from `a` to `t`. -/
def steps (a d t : ℤ) : ℕ := ((t - a) / d).toNat

theorem coe_steps (hd : 0 < d) (h : a ≤ t) : (steps a d t : ℤ) = (t - a) / d :=
  Int.toNat_of_nonneg (Int.ediv_nonneg (by omega) hd.le)

theorem slot_steps_le (hd : 0 < d) (h : a ≤ t) : slot a d (steps a d t) ≤ t := by
  have := Int.ediv_mul_le (t - a) hd.ne'
  rw [slot, coe_steps hd h]
  omega

theorem lt_slot_steps_succ (hd : 0 < d) (h : a ≤ t) : t < slot a d (steps a d t + 1) := by
  have := Int.lt_ediv_add_one_mul_self (t - a) hd
  rw [slot]
  push_cast
  rw [coe_steps hd h]
  omega

/-- The slot after `t` is the first one later than `t`. -/
theorem slot_steps_succ_le (hd : 0 < d) (h : a ≤ t) {k : ℕ} (hk : t < slot a d k) :
    slot a d (steps a d t + 1) ≤ slot a d k := by
  have hlt : slot a d (steps a d t) < slot a d k := (slot_steps_le hd h).trans_lt hk
  exact (slot_le_slot hd).mpr ((slot_lt_slot hd).mp hlt)

/-! ### Stretches of slots -/

/-- The first `m` slots from `a`. -/
def slots (a d : ℤ) (m : ℕ) : List ℤ := (List.range m).map (slot a d)

theorem mem_slots {m : ℕ} : x ∈ slots a d m ↔ ∃ k < m, x = slot a d k := by
  simp [slots, eq_comm]

/-- The slots before the one with number `m`. -/
theorem mem_slots_iff_lt (hd : 0 < d) {m : ℕ} :
    x ∈ slots a d m ↔ OnGrid a d x ∧ x < slot a d m := by
  rw [mem_slots]
  constructor
  · rintro ⟨k, hk, rfl⟩
    exact ⟨⟨k, rfl⟩, (slot_lt_slot hd).mpr hk⟩
  · rintro ⟨⟨k, rfl⟩, hlt⟩
    exact ⟨k, (slot_lt_slot hd).mp hlt, rfl⟩

theorem slots_nodup (hd : 0 < d) (m : ℕ) : (slots a d m).Nodup :=
  List.nodup_range.map (slot_injective hd)

theorem slots_append (a d : ℤ) (m n : ℕ) :
    slots a d m ++ slots (slot a d m) d n = slots a d (m + n) := by
  unfold slots
  rw [List.range_add, List.map_append, List.map_map]
  congr 1
  apply List.map_congr_left
  intro k _
  exact slot_slot a d m k

/-! ### Logs -/

/-- What the entry of slot `e.1` with `e.2` absorbed slots stands for. -/
def covered (d : ℤ) (e : ℤ × ℕ) : List ℤ := slots (e.1 - e.2 * d) d (e.2 + 1)

theorem self_mem_covered (d : ℤ) (e : ℤ × ℕ) : e.1 ∈ covered d e := by
  refine mem_slots.mpr ⟨e.2, Nat.lt_succ_self _, ?_⟩
  unfold slot
  ring

def total (log : List (ℤ × ℕ)) : ℕ := (log.map fun e => 1 + e.2).sum

/-- The entries, one after the other, take the cursor from `a` to `b`. -/
inductive Tiles (d a : ℤ) : List (ℤ × ℕ) → ℤ → Prop
  | nil : Tiles d a [] a
  | snoc {log : List (ℤ × ℕ)} {b : ℤ} (c : ℕ) (h : Tiles d a log b) :
      Tiles d a (log ++ [(slot b d c, c)]) (slot b d (c + 1))

theorem total_snoc (log : List (ℤ × ℕ)) (e : ℤ × ℕ) :
    total (log ++ [e]) = total log + (1 + e.2) := by
  simp [total]

theorem Tiles.cursor {log : List (ℤ × ℕ)} (h : Tiles d a log b) : b = slot a d (total log) := by
  induction h with
  | nil => simp [total]
  | snoc c h ih =>
    rw [ih, slot_slot, total_snoc]
    congr 1
    omega

/-- The covered slots of the entries, in order, are the slots from `a` up to `b`, each once. -/
theorem Tiles.covered {log : List (ℤ × ℕ)} (h : Tiles d a log b) :
    log.flatMap (covered d) = slots a d (total log) := by
  induction h with
  | nil => rfl
  | snoc c h ih =>
    have hstart : ∀ b : ℤ, slot b d c - c * d = b := by
      intro b
      unfold slot
      ring
    have hb := h.cursor
    rw [List.flatMap_append, ih, List.flatMap_singleton, Grid.covered, hstart, total_snoc, hb,
      slots_append]
    congr 1
    omega

/-- The slots accounted for fill the time between the two cursors. -/
theorem Tiles.length {log : List (ℤ × ℕ)} (h : Tiles d a log b) : (total log : ℤ) * d = b - a := by
  have hb := h.cursor
  unfold slot at hb
  omega

theorem Tiles.le {log : List (ℤ × ℕ)} (hd : 0 < d) (h : Tiles d a log b) : a ≤ b := by
  have hmono := (slot_le_slot (a := a) hd).mpr (Nat.zero_le (total log))
  rw [← h.cursor, slot_zero] at hmono
  exact hmono

end Grid
