import Mathlib.Data.List.Basic
import Mathlib.Data.List.Nodup
import Mathlib.Data.List.Sort
import Mathlib.Order.Lattice
import Mathlib.Tactic.Common

/-! Keyed tables: rows with pairwise distinct keys and an identity counter above all of them.
The statements of a relational store (insert, guarded update, guarded delete, ordered selection)
act on them, and every lemma speaks about rows, never about positions in the list. -/
namespace Relational

class Keyed (ρ : Type*) where
  key : ρ → ℕ

open Keyed

structure Table (ρ : Type*) [Keyed ρ] where
  rows : List ρ
  next : ℕ
  fresh : ∀ r ∈ rows, key r < next
  nodup : (rows.map key).Nodup
  positive : 0 < next

namespace Table

variable {ρ κ : Type*} [Keyed ρ]

@[ext] theorem ext {s t : Table ρ} (hr : s.rows = t.rows) (hn : s.next = t.next) : s = t := by
  cases s
  cases t
  cases hr
  cases hn
  rfl

def empty : Table ρ := ⟨[], 1, by simp, by simp, by simp⟩

instance : Membership ρ (Table ρ) := ⟨fun t r => r ∈ t.rows⟩

theorem mem_def {t : Table ρ} {r : ρ} : r ∈ t ↔ r ∈ t.rows := Iff.rfl

@[simp] theorem not_mem_empty (r : ρ) : r ∉ (empty : Table ρ) := List.not_mem_nil

theorem key_inj {t : Table ρ} {r s : ρ} (hr : r ∈ t) (hs : s ∈ t) (h : key r = key s) : r = s :=
  List.inj_on_of_nodup_map t.nodup hr hs h

def get? (t : Table ρ) (i : ℕ) : Option ρ := t.rows.find? fun r => key r == i

theorem get?_eq_some {t : Table ρ} {i : ℕ} {r : ρ} : t.get? i = some r ↔ r ∈ t ∧ key r = i := by
  constructor
  · intro h
    exact ⟨List.mem_of_find?_eq_some h, by simpa using List.find?_some h⟩
  · rintro ⟨hr, rfl⟩
    cases hs : t.get? (key r) with
    | none =>
      have := List.find?_eq_none.mp hs r hr
      simp at this
    | some s =>
      have hk : key s = key r := by simpa using List.find?_some hs
      rw [key_inj (List.mem_of_find?_eq_some hs) hr hk]

theorem get?_eq_none {t : Table ρ} {i : ℕ} : t.get? i = none ↔ ∀ r ∈ t, key r ≠ i := by
  simp [get?, List.find?_eq_none, mem_def]

theorem get?_key {t : Table ρ} {r : ρ} (h : r ∈ t) : t.get? (key r) = some r :=
  get?_eq_some.mpr ⟨h, rfl⟩

theorem mem_of_get? {t : Table ρ} {i : ℕ} {r : ρ} (h : t.get? i = some r) : r ∈ t :=
  (get?_eq_some.mp h).1

theorem key_of_get? {t : Table ρ} {i : ℕ} {r : ρ} (h : t.get? i = some r) : key r = i :=
  (get?_eq_some.mp h).2

theorem get?_next (t : Table ρ) : t.get? t.next = none :=
  get?_eq_none.mpr fun _ hr => (t.fresh _ hr).ne

@[simp] theorem get?_empty (i : ℕ) : (empty : Table ρ).get? i = none := rfl

/-! ### Rows affected -/

/-- The number of rows a guarded statement touches. -/
def count (t : Table ρ) (p : ρ → Bool) : ℕ := t.rows.countP p

theorem count_eq_zero {t : Table ρ} {p : ρ → Bool} : t.count p = 0 ↔ ∀ r ∈ t, p r = false := by
  simp [count, List.countP_eq_zero, mem_def]

/-- Rows that all come from counted rows under the same keys are not more. -/
theorem count_le_of_keys {t t' : Table ρ} {p : ρ → Bool}
    (h : ∀ r' ∈ t', p r' = true → ∃ r ∈ t, key r = key r' ∧ p r = true) :
    t'.count p ≤ t.count p := by
  have hnodup : ((t'.rows.filter p).map key).Nodup :=
    t'.nodup.sublist (List.filter_sublist.map key)
  have hsubset : (t'.rows.filter p).map key ⊆ (t.rows.filter p).map key := by
    intro k hk
    obtain ⟨r', hr', rfl⟩ := List.mem_map.mp hk
    obtain ⟨hmem, hp⟩ := List.mem_filter.mp hr'
    obtain ⟨r, hr, hkey, hpr⟩ := h r' hmem hp
    exact List.mem_map.mpr ⟨r, List.mem_filter.mpr ⟨hr, hpr⟩, hkey⟩
  have hle := (List.subperm_of_subset hnodup hsubset).length_le
  rwa [List.length_map, List.length_map, ← List.countP_eq_length_filter,
    ← List.countP_eq_length_filter] at hle

/-- A guard that pins the key touches at most the row under it. -/
theorem count_eq_one_iff {t : Table ρ} {p : ρ → Bool} {i : ℕ}
    (hp : ∀ r, p r = true → key r = i) :
    t.count p = 1 ↔ ∃ r, t.get? i = some r ∧ p r = true := by
  have hle : t.count p ≤ 1 := by
    rw [count, List.countP_eq_length_filter]
    have hnd : ((t.rows.filter p).map key).Nodup :=
      t.nodup.sublist (List.filter_sublist.map key)
    have heq : ∀ k ∈ (t.rows.filter p).map key, k = i := by
      intro k hk
      obtain ⟨r, hr, rfl⟩ := List.mem_map.mp hk
      exact hp r (List.mem_filter.mp hr).2
    have := List.nodup_iff_count_le_one.mp hnd i
    rw [List.eq_replicate_of_mem heq, List.count_replicate_self] at this
    simpa using this
  constructor
  · intro h
    have hpos : 0 < t.rows.countP p := by
      change 0 < t.count p
      omega
    obtain ⟨r, hr, hpr⟩ := List.countP_pos_iff.mp hpos
    exact ⟨r, get?_eq_some.mpr ⟨hr, hp r hpr⟩, hpr⟩
  · rintro ⟨r, hr, hpr⟩
    have hpos : 0 < t.count p := List.countP_pos_iff.mpr ⟨r, mem_of_get? hr, hpr⟩
    omega

/-! ### Update -/

def update (t : Table ρ) (p : ρ → Bool) (f : ρ → ρ)
    (hf : ∀ r, key (f r) = key r := by intro r; rfl) : Table ρ where
  rows := t.rows.map fun r => if p r then f r else r
  next := t.next
  fresh := by
    intro s hs
    obtain ⟨r, hr, rfl⟩ := List.mem_map.mp hs
    split
    · rw [hf]
      exact t.fresh r hr
    · exact t.fresh r hr
  nodup := by
    have h : (t.rows.map fun r => if p r then f r else r).map key = t.rows.map key := by
      rw [List.map_map]
      apply List.map_congr_left
      intro r _
      simp only [Function.comp_apply]
      split <;> simp [hf]
    exact h ▸ t.nodup
  positive := t.positive

@[simp] theorem update_next (t : Table ρ) (p : ρ → Bool) (f : ρ → ρ) (hf) :
    (t.update p f hf).next = t.next := rfl

theorem mem_update {t : Table ρ} {p : ρ → Bool} {f : ρ → ρ} {hf} {s : ρ} :
    s ∈ t.update p f hf ↔ ∃ r ∈ t, s = if p r then f r else r := by
  simp only [mem_def, update, List.mem_map]
  constructor
  · rintro ⟨r, hr, rfl⟩
    exact ⟨r, hr, rfl⟩
  · rintro ⟨r, hr, rfl⟩
    exact ⟨r, hr, rfl⟩

theorem get?_update (t : Table ρ) (p : ρ → Bool) (f : ρ → ρ) (hf) (i : ℕ) :
    (t.update p f hf).get? i = (t.get? i).map fun r => if p r then f r else r := by
  cases h : t.get? i with
  | none =>
    rw [get?_eq_none] at h
    rw [Option.map_none, get?_eq_none]
    intro s hs
    obtain ⟨r, hr, rfl⟩ := mem_update.mp hs
    split
    · rw [hf]
      exact h r hr
    · exact h r hr
  | some r =>
    obtain ⟨hr, rfl⟩ := get?_eq_some.mp h
    rw [Option.map_some, get?_eq_some]
    refine ⟨mem_update.mpr ⟨r, hr, rfl⟩, ?_⟩
    split <;> simp [hf]

/-- An update whose guard no row meets is no change. -/
theorem update_eq_self {t : Table ρ} {p : ρ → Bool} {f : ρ → ρ} {hf}
    (h : ∀ r ∈ t, p r = true → f r = r) : t.update p f hf = t := by
  refine Table.ext ?_ rfl
  change t.rows.map _ = t.rows
  conv_rhs => rw [← List.map_id t.rows]
  apply List.map_congr_left
  intro r hr
  by_cases hp : p r = true
  · simp [hp, h r hr hp]
  · simp [hp]

/-- A selection by a column the update keeps is updated row by row. -/
theorem filter_update (t : Table ρ) (p q : ρ → Bool) (f : ρ → ρ) (hf)
    (hq : ∀ r, p r = true → q (f r) = q r) :
    (t.update p f hf).rows.filter q =
      (t.rows.filter q).map fun r => if p r then f r else r := by
  change (t.rows.map _).filter q = _
  rw [List.filter_map]
  congr 1
  apply List.filter_congr
  intro r _
  simp only [Function.comp_apply]
  split
  · rename_i hp
    exact hq r hp
  · rfl

/-! ### Rows of another type -/

/-- The rows carried over to another type under their keys. -/
def convert {σ : Type*} [Keyed σ] (t : Table ρ) (f : ρ → σ)
    (hf : ∀ r, key (f r) = key r := by intro r; rfl) : Table σ where
  rows := t.rows.map f
  next := t.next
  fresh := by
    intro s hs
    obtain ⟨r, hr, rfl⟩ := List.mem_map.mp hs
    rw [hf]
    exact t.fresh r hr
  nodup := by
    have h : (t.rows.map f).map key = t.rows.map key := by
      rw [List.map_map]
      exact List.map_congr_left fun r _ => hf r
    exact h ▸ t.nodup
  positive := t.positive

/-! ### Replacing one row -/

/-- Replace the row that has the key of `r`. -/
def put (t : Table ρ) (r : ρ) : Table ρ where
  rows := t.rows.map fun s => if key s = key r then r else s
  next := t.next
  fresh := by
    intro s hs
    obtain ⟨u, hu, rfl⟩ := List.mem_map.mp hs
    split
    · rename_i hk
      exact hk ▸ t.fresh u hu
    · exact t.fresh u hu
  nodup := by
    have h : (t.rows.map fun s => if key s = key r then r else s).map key = t.rows.map key := by
      rw [List.map_map]
      apply List.map_congr_left
      intro s _
      simp only [Function.comp_apply]
      split
      · rename_i hk
        exact hk.symm
      · rfl
    exact h ▸ t.nodup
  positive := t.positive

@[simp] theorem put_next (t : Table ρ) (r : ρ) : (t.put r).next = t.next := rfl

theorem put_rows (t : Table ρ) (r : ρ) :
    (t.put r).rows = t.rows.map fun s => if key s = key r then r else s := rfl

theorem put_mem {t : Table ρ} {r : ρ} (h : r ∈ t) : t.put r = t := by
  refine Table.ext ?_ rfl
  rw [put_rows]
  conv_rhs => rw [← List.map_id t.rows]
  apply List.map_congr_left
  intro s hs
  by_cases hk : key s = key r
  · rw [if_pos hk, key_inj hs h hk]
    rfl
  · rw [if_neg hk]
    rfl

/-- An update under a guard that pins the key replaces the row under that key. -/
theorem update_eq_put {t : Table ρ} {p : ρ → Bool} {f : ρ → ρ} {hf} {i : ℕ} {r : ρ}
    (hpin : ∀ s, p s = true → key s = i) (hr : t.get? i = some r) (hp : p r = true) :
    t.update p f hf = t.put (f r) := by
  obtain ⟨hmem, hkey⟩ := get?_eq_some.mp hr
  refine Table.ext ?_ rfl
  apply List.map_congr_left
  intro s hs
  have hfr : key (f r) = i := (hf r).trans hkey
  by_cases hsi : key s = i
  · have hsr : s = r := key_inj hs hmem (hsi.trans hkey.symm)
    subst hsr
    rw [if_pos hp, if_pos (hsi.trans hfr.symm)]
  · have hps : ¬p s = true := fun h => hsi (hpin s h)
    rw [if_neg hps, if_neg (fun h => hsi (h.trans hfr))]

/-- Under a pinned key an update touches no row or the row under that key. -/
theorem update_cases {t : Table ρ} {p : ρ → Bool} (f : ρ → ρ) (hf) {i : ℕ}
    (hpin : ∀ r, p r = true → key r = i) :
    (t.count p = 0 ∧ t.update p f hf = t ∧ ∀ r, t.get? i = some r → p r = false) ∨
      t.count p = 1 ∧ ∃ r, t.get? i = some r ∧ p r = true ∧ t.update p f hf = t.put (f r) := by
  by_cases hex : ∃ r, t.get? i = some r ∧ p r = true
  · obtain ⟨r, hr, hp⟩ := hex
    exact Or.inr ⟨(count_eq_one_iff hpin).mpr ⟨r, hr, hp⟩, r, hr, hp, update_eq_put hpin hr hp⟩
  · have hnone : ∀ r ∈ t, p r = false := by
      intro r hr
      by_contra hp
      have hp' : p r = true := by simpa using hp
      exact hex ⟨r, get?_eq_some.mpr ⟨hr, hpin r hp'⟩, hp'⟩
    refine Or.inl ⟨count_eq_zero.mpr hnone, update_eq_self ?_, fun r hr => hnone r (mem_of_get? hr)⟩
    intro r hr hp
    rw [hnone r hr] at hp
    cases hp

theorem get?_put (t : Table ρ) (r : ρ) (i : ℕ) :
    (t.put r).get? i = (t.get? i).map fun s => if key s = key r then r else s := by
  cases h : t.get? i with
  | none =>
    rw [get?_eq_none] at h
    rw [Option.map_none, get?_eq_none]
    intro s hs
    obtain ⟨u, hu, rfl⟩ := List.mem_map.mp hs
    split
    · rename_i hk
      exact hk ▸ h u hu
    · exact h u hu
  | some u =>
    obtain ⟨hu, rfl⟩ := get?_eq_some.mp h
    rw [Option.map_some, get?_eq_some]
    refine ⟨List.mem_map.mpr ⟨u, hu, rfl⟩, ?_⟩
    split
    · rename_i hk
      exact hk.symm
    · rfl

theorem get?_put_self {t : Table ρ} {r s : ρ} {i : ℕ} (h : t.get? i = some s) (hk : key r = i) :
    (t.put r).get? i = some r := by
  rw [get?_put, h, Option.map_some, if_pos ((key_of_get? h).trans hk.symm)]

theorem get?_put_of_ne {t : Table ρ} {r : ρ} {i : ℕ} (hk : key r ≠ i) :
    (t.put r).get? i = t.get? i := by
  rw [get?_put]
  cases h : t.get? i with
  | none => rfl
  | some s =>
    have hne : key s ≠ key r := by
      rw [key_of_get? h]
      exact fun he => hk he.symm
    rw [Option.map_some, if_neg hne]

/-- A selection that the replaced row and its replacement agree on is replaced row by row. -/
theorem filter_put {t : Table ρ} {q : ρ → Bool} {r s : ρ} (hs : t.get? (key r) = some s)
    (hq : q r = q s) :
    (t.put r).rows.filter q = (t.rows.filter q).map fun u => if key u = key r then r else u := by
  obtain ⟨hmem, hkey⟩ := get?_eq_some.mp hs
  rw [put_rows, List.filter_map]
  congr 1
  apply List.filter_congr
  intro u hu
  simp only [Function.comp_apply]
  split
  · rename_i hk
    have hus : u = s := key_inj hu hmem (hk.trans hkey.symm)
    rw [hq, hus]
  · rfl

/-- The replacement stands where the old row stood. -/
theorem exists_filter_put {t : Table ρ} {q : ρ → Bool} {r s : ρ} (hs : t.get? (key r) = some s)
    (hqs : q s = true) (hqr : q r = true) :
    ∃ l₁ l₂, t.rows.filter q = l₁ ++ s :: l₂ ∧ (t.put r).rows.filter q = l₁ ++ r :: l₂ := by
  obtain ⟨hmem, hkey⟩ := get?_eq_some.mp hs
  obtain ⟨l₁, l₂, hsplit⟩ := List.append_of_mem (List.mem_filter.mpr ⟨hmem, hqs⟩)
  have hnd : ((l₁ ++ s :: l₂).map key).Nodup := by
    rw [← hsplit]
    exact t.nodup.sublist (List.filter_sublist.map key)
  have hkeep : ∀ u ∈ l₁ ++ l₂, (if key u = key r then r else u) = u := by
    intro u hu
    have hne : key u ≠ key s := by
      intro he
      rw [List.map_append, List.map_cons, List.nodup_middle, ← List.map_append] at hnd
      exact (List.nodup_cons.mp hnd).1 (he ▸ List.mem_map_of_mem hu)
    exact if_neg (fun h => hne (h.trans hkey.symm))
  refine ⟨l₁, l₂, hsplit, ?_⟩
  rw [filter_put hs (hqr.trans hqs.symm), hsplit, List.map_append, List.map_cons, if_pos hkey]
  rw [List.map_congr_left fun u hu => hkeep u (List.mem_append_left _ hu),
    List.map_congr_left fun u hu => hkeep u (List.mem_append_right _ hu)]
  simp

theorem exists_put {t : Table ρ} {r s : ρ} (hs : t.get? (key r) = some s) :
    ∃ l₁ l₂, t.rows = l₁ ++ s :: l₂ ∧ (t.put r).rows = l₁ ++ r :: l₂ := by
  obtain ⟨l₁, l₂, hold, hnew⟩ := exists_filter_put (q := fun _ => true) hs rfl rfl
  rw [List.filter_true] at hold hnew
  exact ⟨l₁, l₂, hold, hnew⟩

theorem mem_put {t : Table ρ} {r s : ρ} (h : s ∈ t.put r) : s ∈ t ∨ s = r := by
  obtain ⟨u, hu, rfl⟩ := List.mem_map.mp h
  split
  · exact Or.inr rfl
  · exact Or.inl hu

theorem filter_put_of_not {t : Table ρ} {q : ρ → Bool} {r s : ρ} (hs : t.get? (key r) = some s)
    (hqs : q s = false) (hqr : q r = false) : (t.put r).rows.filter q = t.rows.filter q := by
  obtain ⟨hmem, hkey⟩ := get?_eq_some.mp hs
  rw [filter_put hs (hqr.trans hqs.symm)]
  conv_rhs => rw [← List.map_id (t.rows.filter q)]
  apply List.map_congr_left
  intro u hu
  obtain ⟨hut, hqu⟩ := List.mem_filter.mp hu
  have hne : key u ≠ key r := by
    intro he
    rw [key_inj hut hmem (he.trans hkey.symm), hqs] at hqu
    cases hqu
  rw [if_neg hne]
  rfl

/-! ### The keys of a table -/

/-- Both tables hold rows under the same keys. -/
def SameKeys (t t' : Table ρ) : Prop := ∀ i, (t'.get? i).isSome = (t.get? i).isSome

theorem SameKeys.refl (t : Table ρ) : t.SameKeys t := fun _ => rfl

theorem SameKeys.trans {t u v : Table ρ} (h : t.SameKeys u) (h' : u.SameKeys v) : t.SameKeys v :=
  fun i => (h' i).trans (h i)

theorem sameKeys_update (t : Table ρ) (p : ρ → Bool) (f : ρ → ρ) (hf) :
    t.SameKeys (t.update p f hf) := by
  intro i
  rw [get?_update, Option.isSome_map]

/-- No row is new. -/
theorem SameKeys.not_new {t t' : Table ρ} (h : t.SameKeys t') {i : ℕ} {r : ρ}
    (hnone : t.get? i = none) (hsome : t'.get? i = some r) : False := by
  have hi := h i
  rw [hnone, hsome] at hi
  cases hi

/-! ### Insert -/

/-- Insert the row built from the next identity value. -/
def insertNew (t : Table ρ) (mk : ℕ → ρ) (hk : ∀ n, key (mk n) = n := by intro n; rfl) :
    Table ρ where
  rows := t.rows ++ [mk t.next]
  next := t.next + 1
  fresh := by
    intro r hr
    rcases List.mem_append.mp hr with hr | hr
    · exact (t.fresh r hr).trans (Nat.lt_succ_self _)
    · rw [List.mem_singleton.mp hr, hk]
      exact Nat.lt_succ_self _
  nodup := by
    simp only [List.map_append, List.map_cons, List.map_nil, hk]
    refine List.Nodup.append t.nodup (List.nodup_singleton _) ?_
    intro k hk' hn
    obtain ⟨r, hr, rfl⟩ := List.mem_map.mp hk'
    have := t.fresh r hr
    rw [List.mem_singleton.mp hn] at this
    exact lt_irrefl _ this
  positive := Nat.succ_pos _

@[simp] theorem insertNew_next (t : Table ρ) (mk : ℕ → ρ) (hk) :
    (t.insertNew mk hk).next = t.next + 1 := rfl

theorem mem_insertNew {t : Table ρ} {mk : ℕ → ρ} {hk} {r : ρ} :
    r ∈ t.insertNew mk hk ↔ r ∈ t ∨ r = mk t.next := by
  simp [mem_def, insertNew]

theorem count_insertNew (t : Table ρ) (mk : ℕ → ρ) (hk) (p : ρ → Bool) :
    (t.insertNew mk hk).count p = t.count p + if p (mk t.next) then 1 else 0 := by
  simp [count, insertNew, List.countP_append, List.countP_singleton]

theorem filter_insertNew (t : Table ρ) (mk : ℕ → ρ) (hk) (q : ρ → Bool) :
    (t.insertNew mk hk).rows.filter q =
      t.rows.filter q ++ if q (mk t.next) then [mk t.next] else [] := by
  simp [insertNew, List.filter_append, List.filter_cons]

theorem get?_insertNew (t : Table ρ) (mk : ℕ → ρ) (hk) (i : ℕ) :
    (t.insertNew mk hk).get? i = if i = t.next then some (mk t.next) else t.get? i := by
  by_cases hi : i = t.next
  · subst hi
    rw [if_pos rfl, get?_eq_some]
    exact ⟨mem_insertNew.mpr (Or.inr rfl), hk _⟩
  · rw [if_neg hi]
    cases h : t.get? i with
    | none =>
      rw [get?_eq_none] at h ⊢
      intro r hr
      rcases mem_insertNew.mp hr with hr | rfl
      · exact h r hr
      · rw [hk]
        exact fun he => hi he.symm
    | some r =>
      obtain ⟨hr, hkey⟩ := get?_eq_some.mp h
      exact get?_eq_some.mpr ⟨mem_insertNew.mpr (Or.inl hr), hkey⟩

/-- Insert a row that brings its own key; a taken key is refused. -/
def insertKeyed (t : Table ρ) (r : ρ) : Option (Table ρ) :=
  if h : ∀ s ∈ t.rows, key s ≠ key r then
    some
      { rows := t.rows ++ [r]
        next := max t.next (key r + 1)
        fresh := by
          intro s hs
          rcases List.mem_append.mp hs with hs | hs
          · exact (t.fresh s hs).trans_le (le_max_left _ _)
          · rw [List.mem_singleton.mp hs]
            exact (Nat.lt_succ_self _).trans_le (le_max_right _ _)
        nodup := by
          rw [List.map_append]
          refine List.Nodup.append t.nodup (List.nodup_singleton _) ?_
          intro k hk hn
          obtain ⟨s, hs, rfl⟩ := List.mem_map.mp hk
          exact h s hs (List.mem_singleton.mp hn)
        positive := t.positive.trans_le (le_max_left _ _) }
  else none

/-- `insertKeyed` refuses a key that is there. -/
theorem insertKeyed_new {t t' : Table ρ} {r : ρ} (h : t.insertKeyed r = some t') :
    t.get? (key r) = none := by
  unfold insertKeyed at h
  split at h
  · rename_i hfree
    exact get?_eq_none.mpr hfree
  · cases h

theorem mem_insertKeyed {t t' : Table ρ} {r s : ρ} (h : t.insertKeyed r = some t') :
    s ∈ t' ↔ s ∈ t ∨ s = r := by
  unfold insertKeyed at h
  split at h
  · cases h
    simp [mem_def]
  · cases h

/-! ### Delete -/

def delete (t : Table ρ) (p : ρ → Bool) : Table ρ where
  rows := t.rows.filter fun r => !p r
  next := t.next
  fresh := fun r hr => t.fresh r (List.mem_filter.mp hr).1
  nodup := t.nodup.sublist (List.filter_sublist.map key)
  positive := t.positive

theorem mem_delete {t : Table ρ} {p : ρ → Bool} {r : ρ} :
    r ∈ t.delete p ↔ r ∈ t ∧ p r = false := by
  simp [mem_def, delete]

theorem filter_delete (t : Table ρ) (p q : ρ → Bool) :
    (t.delete p).rows.filter q = (t.rows.filter q).filter fun r => !p r := by
  simp only [delete, List.filter_filter, Bool.and_comm]

/-! ### Restriction -/

/-- The rows that meet `p`, under the same identity counter. -/
def restrict (t : Table ρ) (p : ρ → Bool) : Table ρ := t.delete fun r => !p r

@[simp] theorem restrict_rows (t : Table ρ) (p : ρ → Bool) :
    (t.restrict p).rows = t.rows.filter p := by
  simp [restrict, delete]

@[simp] theorem restrict_next (t : Table ρ) (p : ρ → Bool) : (t.restrict p).next = t.next := rfl

theorem mem_restrict {t : Table ρ} {p : ρ → Bool} {r : ρ} :
    r ∈ t.restrict p ↔ r ∈ t ∧ p r = true := by
  simp [mem_def]

theorem get?_restrict (t : Table ρ) (p : ρ → Bool) (i : ℕ) :
    (t.restrict p).get? i = (t.get? i).filter p := by
  cases h : t.get? i with
  | none =>
    rw [get?_eq_none] at h
    rw [Option.filter_none, get?_eq_none]
    intro r hr
    exact h r (mem_restrict.mp hr).1
  | some r =>
    obtain ⟨hr, rfl⟩ := get?_eq_some.mp h
    by_cases hp : p r = true
    · rw [Option.filter_some, if_pos hp, get?_eq_some]
      exact ⟨mem_restrict.mpr ⟨hr, hp⟩, rfl⟩
    · rw [Option.filter_some, if_neg hp, get?_eq_none]
      intro s hs hk
      obtain ⟨hmem, hps⟩ := mem_restrict.mp hs
      rw [key_inj hmem hr hk] at hps
      exact hp hps

theorem restrict_congr {t : Table ρ} {p q : ρ → Bool} (h : ∀ r ∈ t, p r = q r) :
    t.restrict p = t.restrict q := by
  refine ext ?_ rfl
  rw [restrict_rows, restrict_rows]
  exact List.filter_congr h

/-- A statement whose guard is met by rows of the restriction only does not see the others. -/
theorem filter_restrict {t : Table ρ} {p q : ρ → Bool} (h : ∀ r ∈ t, q r = true → p r = true) :
    (t.restrict p).rows.filter q = t.rows.filter q := by
  rw [restrict_rows, List.filter_filter]
  refine List.filter_congr fun r hr => ?_
  cases hq : q r with
  | false => rfl
  | true => rw [Bool.true_and, h r hr hq]

theorem count_restrict {t : Table ρ} {p q : ρ → Bool} (h : ∀ r ∈ t, q r = true → p r = true) :
    (t.restrict p).count q = t.count q := by
  rw [count, count, List.countP_eq_length_filter, List.countP_eq_length_filter, filter_restrict h]

theorem find?_restrict {t : Table ρ} {p q : ρ → Bool} (h : ∀ r ∈ t, q r = true → p r = true) :
    (t.restrict p).rows.find? q = t.rows.find? q := by
  rw [← List.head?_filter, ← List.head?_filter, filter_restrict h]

theorem all_restrict {t : Table ρ} {p q : ρ → Bool} (h : ∀ r ∈ t, q r = false → p r = true) :
    (t.restrict p).rows.all q = t.rows.all q := by
  rw [restrict_rows, Bool.eq_iff_iff, List.all_eq_true, List.all_eq_true]
  constructor
  · intro hall r hr
    by_contra hq
    rw [Bool.not_eq_true] at hq
    exact Bool.false_ne_true (hq.symm.trans (hall r (List.mem_filter.mpr ⟨hr, h r hr hq⟩)))
  · intro hall r hr
    exact hall r (List.mem_filter.mp hr).1

theorem restrict_update {t : Table ρ} {p q : ρ → Bool} {f : ρ → ρ} {hf}
    (h : ∀ r, q r = true → p (f r) = p r) :
    (t.update q f hf).restrict p = (t.restrict p).update q f hf := by
  refine ext ?_ rfl
  rw [restrict_rows, filter_update t q p f hf h]
  simp only [update, restrict_rows]

theorem restrict_update_of_not {t : Table ρ} {p q : ρ → Bool} {f : ρ → ρ} {hf}
    (hkeep : ∀ r, q r = true → p (f r) = p r) (hnot : ∀ r ∈ t, q r = true → p r = false) :
    (t.update q f hf).restrict p = t.restrict p := by
  rw [restrict_update hkeep]
  refine update_eq_self fun r hr hq => ?_
  obtain ⟨hmem, hp⟩ := mem_restrict.mp hr
  cases (hnot r hmem hq).symm.trans hp

theorem restrict_insertNew {t : Table ρ} {p : ρ → Bool} {mk : ℕ → ρ} {hk}
    (h : p (mk t.next) = true) :
    (t.insertNew mk hk).restrict p = (t.restrict p).insertNew mk hk := by
  refine ext ?_ rfl
  rw [restrict_rows, filter_insertNew, if_pos h]
  simp only [insertNew, restrict_rows, restrict_next]

theorem restrict_insertNew_of_not {t : Table ρ} {p : ρ → Bool} {mk : ℕ → ρ} {hk}
    (h : p (mk t.next) = false) :
    ((t.insertNew mk hk).restrict p).rows = (t.restrict p).rows := by
  rw [restrict_rows, restrict_rows, filter_insertNew, h, if_neg Bool.false_ne_true, List.append_nil]

/-! ### Ordered selection -/

section Least

variable [LinearOrder κ]

/-- The first row with the least value of `f`: `ORDER BY f LIMIT 1`. -/
def leastBy (f : ρ → κ) : List ρ → Option ρ
  | [] => none
  | r :: rs =>
      match leastBy f rs with
      | none => some r
      | some s => if f r ≤ f s then some r else some s

omit [Keyed ρ] in
theorem leastBy_eq_none {f : ρ → κ} {l : List ρ} : leastBy f l = none ↔ l = [] := by
  cases l with
  | nil => simp [leastBy]
  | cons r rs =>
    simp only [leastBy]
    cases leastBy f rs with
    | none => simp
    | some s => by_cases h : f r ≤ f s <;> simp [h]

omit [Keyed ρ] in
theorem leastBy_spec {f : ρ → κ} {l : List ρ} {r : ρ} (h : leastBy f l = some r) :
    r ∈ l ∧ ∀ s ∈ l, f r ≤ f s := by
  induction l generalizing r with
  | nil => simp [leastBy] at h
  | cons a rs ih =>
    simp only [leastBy] at h
    cases hl : leastBy f rs with
    | none =>
      rw [hl] at h
      cases h
      have hnil := leastBy_eq_none.mp hl
      subst hnil
      simp
    | some b =>
      rw [hl] at h
      obtain ⟨hb, hmin⟩ := ih hl
      simp only at h
      split at h
      · rename_i hle
        cases h
        refine ⟨List.mem_cons_self, ?_⟩
        intro s hs
        rcases List.mem_cons.mp hs with rfl | hs
        · exact le_rfl
        · exact hle.trans (hmin s hs)
      · rename_i hlt
        cases h
        refine ⟨List.mem_cons_of_mem _ hb, ?_⟩
        intro s hs
        rcases List.mem_cons.mp hs with rfl | hs
        · exact (not_le.mp hlt).le
        · exact hmin s hs

/-- The rows in the order of `f`: `ORDER BY f`. -/
def sortBy (f : ρ → κ) (l : List ρ) : List ρ := l.insertionSort fun r s => f r ≤ f s

omit [Keyed ρ] in
theorem sortBy_perm (f : ρ → κ) (l : List ρ) : (sortBy f l).Perm l :=
  List.perm_insertionSort _ l

omit [Keyed ρ] in
theorem sortBy_pairwise (f : ρ → κ) (l : List ρ) :
    (sortBy f l).Pairwise fun r s => f r ≤ f s := by
  have : Std.Total fun r s : ρ => f r ≤ f s := ⟨fun r s => le_total (f r) (f s)⟩
  have : IsTrans ρ fun r s : ρ => f r ≤ f s := ⟨fun _ _ _ h h' => h.trans h'⟩
  exact List.pairwise_insertionSort _ l

omit [Keyed ρ] in
/-- The first row of the order is the one that `leastBy` selects, and the others follow. -/
theorem sortBy_of_leastBy {f : ρ → κ} {l l' : List ρ} {r : ρ}
    (hinj : ∀ s ∈ l, ∀ u ∈ l, f s = f u → s = u) (h : leastBy f l = some r)
    (hperm : (r :: l').Perm l) : sortBy f l = r :: sortBy f l' := by
  have hsame : (sortBy f l).Perm (r :: sortBy f l') :=
    (sortBy_perm f l).trans (hperm.symm.trans ((sortBy_perm f l').symm.cons r))
  refine List.Perm.eq_of_pairwise ?_ (sortBy_pairwise f l) ?_ hsame
  · intro s u hs hu hle hle'
    have hs : s ∈ l := (sortBy_perm f l).subset hs
    have hu : u ∈ l := (sortBy_perm f l).subset (hsame.symm.subset hu)
    exact hinj s hs u hu (le_antisymm hle hle')
  · refine List.Pairwise.cons (fun s hs => ?_) (sortBy_pairwise f l')
    have hmem : s ∈ l := hperm.subset (List.mem_cons_of_mem _ ((sortBy_perm f l').subset hs))
    exact (leastBy_spec h).2 s hmem

end Least

end Table

end Relational
