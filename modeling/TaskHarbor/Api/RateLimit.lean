import Mathlib.Algebra.Order.Ring.Int
import Mathlib.Data.List.Dedup
import Mathlib.Data.List.Perm.Lattice
import Mathlib.Tactic.Common
import TaskHarbor.Library.Runs

/-! `rate_limit.rs`: the sliding window of attempts for each key. The code keeps queues and prunes
those of all keys at every check; what it decides is a statement about the checks accepted so
far. -/
namespace TaskHarbor

open Runs

def maxTrackedKeys : ℕ := 1024

structure RateLimiter where
  limit : ℕ
  window : ℕ

/-- The queues of the hash map in some order. An instant is a number of nanoseconds. -/
structure RateState where
  queues : List (String × List ℕ)
  distinct : (queues.map Prod.fst).Nodup

namespace RateState

def empty : RateState := ⟨[], List.nodup_nil⟩

def get? (st : RateState) (key : String) : Option (List ℕ) := st.queues.lookup key

def keys (st : RateState) : List String := st.queues.map Prod.fst

/-- The queues without their expired attempts, and then without the empty ones. -/
def retain (st : RateState) (window now : ℕ) : RateState where
  queues :=
    (st.queues.map fun e => (e.1, e.2.dropWhile fun attempt => window ≤ now - attempt)).filter
    fun e => !e.2.isEmpty
  distinct := by
    refine List.Nodup.sublist ((List.filter_sublist).map Prod.fst) ?_
    rw [List.map_map]
    exact st.distinct

/-- The map with another queue for a key. -/
def insert (st : RateState) (key : String) (attempts : List ℕ) : RateState where
  queues := (key, attempts) :: st.queues.filter fun e => e.1 != key
  distinct := by
    rw [List.map_cons, List.nodup_cons]
    constructor
    · simp
    · exact List.Nodup.sublist ((List.filter_sublist).map Prod.fst) st.distinct

end RateState

/-- `check`, with the reading of the clock. `duration_since` saturates. -/
def RateLimiter.check (limiter : RateLimiter) (st : RateState) (now : ℕ) (key : String) :
    Except ℕ Unit × RateState :=
  let st := st.retain limiter.window now
  if st.get? key = none ∧ maxTrackedKeys ≤ st.queues.length then (.error limiter.window, st)
  else
    let attempts := (st.get? key).getD []
    if limiter.limit ≤ attempts.length then
      let retryAfter := attempts.head?.map fun attempt => limiter.window - (now - attempt)
      (.error (retryAfter.getD limiter.window), st.insert key attempts)
    else (.ok (), st.insert key (attempts ++ [now]))

/-! ### The map -/

section Map

variable {st : RateState} {key other : String} {attempts : List ℕ} {window now : ℕ}

namespace RateState

theorem get?_eq_some : st.get? key = some attempts ↔ (key, attempts) ∈ st.queues := by
  obtain ⟨queues, hdistinct⟩ := st
  unfold get?
  simp only
  induction queues with
  | nil => simp
  | cons e rest ih =>
    obtain ⟨name, old⟩ := e
    rw [List.map_cons, List.nodup_cons] at hdistinct
    rw [List.lookup_cons, List.mem_cons, Prod.mk.injEq]
    by_cases hname : key = name
    · subst hname
      have hrest : (key, attempts) ∉ rest := fun h =>
        hdistinct.1 (List.mem_map.mpr ⟨_, h, rfl⟩)
      simp only [beq_self_eq_true, Option.some_inj, true_and, hrest, or_false]
      exact eq_comm
    · have hne : (key == name) = false := by simpa using hname
      simp only [hne, hname, false_and, false_or]
      exact ih hdistinct.2

theorem mem_retain : (key, attempts) ∈ (st.retain window now).queues ↔
    attempts ≠ [] ∧ ∃ old, (key, old) ∈ st.queues ∧
      old.dropWhile (fun attempt => window ≤ now - attempt) = attempts := by
  simp only [retain, List.mem_filter, List.mem_map, Prod.mk.injEq, Prod.exists,
    Bool.not_eq_true', List.isEmpty_eq_false_iff]
  constructor
  · rintro ⟨⟨name, old, hold, rfl, rfl⟩, hne⟩
    exact ⟨hne, old, hold, rfl⟩
  · rintro ⟨hne, old, hold, rfl⟩
    exact ⟨⟨key, old, hold, rfl, rfl⟩, hne⟩

theorem mem_insert {q : List ℕ} : (other, q) ∈ (st.insert key attempts).queues ↔
    (other = key ∧ q = attempts) ∨ (other ≠ key ∧ (other, q) ∈ st.queues) := by
  simp only [insert, List.mem_cons, List.mem_filter, Prod.mk.injEq, bne_iff_ne, and_comm]

theorem get?_insert (st : RateState) (key other : String) (attempts : List ℕ) :
    (st.insert key attempts).get? other = if other = key then some attempts else st.get? other := by
  apply Option.ext
  intro q
  rw [get?_eq_some, mem_insert]
  split_ifs with h
  · simp [h, eq_comm]
  · simp [h, get?_eq_some]

/-- The queue of a key, without its expired attempts. -/
theorem get?_retain (st : RateState) (window now : ℕ) (key : String) :
    ((st.retain window now).get? key).getD [] =
      ((st.get? key).getD []).dropWhile fun attempt => window ≤ now - attempt := by
  cases hold : st.get? key with
  | none =>
    have hnone : (st.retain window now).get? key = none := by
      rw [Option.eq_none_iff_forall_ne_some]
      intro q hq
      obtain ⟨-, old, hmem, -⟩ := mem_retain.mp (get?_eq_some.mp hq)
      rw [get?_eq_some.mpr hmem] at hold
      cases hold
    rw [hnone]
    rfl
  | some old =>
    have hmem := get?_eq_some.mp hold
    rcases eq_or_ne (old.dropWhile fun attempt => window ≤ now - attempt) [] with hnil | hne
    · have hnone : (st.retain window now).get? key = none := by
        rw [Option.eq_none_iff_forall_ne_some]
        intro q hq
        obtain ⟨hq, old', hmem', rfl⟩ := mem_retain.mp (get?_eq_some.mp hq)
        rw [get?_eq_some.mpr hmem', Option.some_inj] at hold
        rw [hold] at hq
        exact hq hnil
      rw [hnone, Option.getD_some, hnil]
      rfl
    · have hsome : (st.retain window now).get? key =
          some (old.dropWhile fun attempt => window ≤ now - attempt) :=
        get?_eq_some.mpr (mem_retain.mpr ⟨hne, old, hmem, rfl⟩)
      rw [hsome]
      rfl

theorem retain_nonempty : ∀ e ∈ (st.retain window now).queues, e.2 ≠ [] :=
  fun _ he => (mem_retain.mp he).1

theorem mem_insert_queue {e : String × List ℕ} (h : e ∈ (st.insert key attempts).queues) :
    e.2 = attempts ∨ e ∈ st.queues := by
  rcases mem_insert.mp h with ⟨-, hq⟩ | ⟨-, he⟩
  · exact Or.inl hq
  · exact Or.inr he

theorem insert_length_le (st : RateState) (key : String) (attempts : List ℕ) :
    (st.insert key attempts).queues.length ≤ st.queues.length + 1 := by
  rw [insert, List.length_cons]
  exact Nat.succ_le_succ (List.length_filter_le _ _)

/-- Replacing a queue adds none. -/
theorem insert_length_of_some {old : List ℕ} (h : st.get? key = some old) (attempts : List ℕ) :
    (st.insert key attempts).queues.length ≤ st.queues.length := by
  rw [insert, List.length_cons]
  apply Nat.succ_le_of_lt
  rw [List.length_filter_lt_length_iff_exists]
  exact ⟨(key, old), get?_eq_some.mp h, by simp⟩

theorem mem_keys_iff : key ∈ st.keys ↔ ∃ q, st.get? key = some q := by
  simp only [keys, List.mem_map, Prod.exists, exists_and_right, exists_eq_right, get?_eq_some]

end RateState

end Map

/-! ### The history -/

structure RateCheck where
  key : String
  now : ℕ
  deriving DecidableEq

/-- The time lies in `(now - window, now]`. -/
def RateLimiter.inWindow (limiter : RateLimiter) (now t : ℕ) : Bool :=
  now < t + limiter.window && t ≤ now

/-- The times of the accepted checks of a key in the window before `now`, oldest first. -/
def RateLimiter.recent (limiter : RateLimiter) (accepted : List RateCheck) (key : String)
    (now : ℕ) : List ℕ :=
  ((accepted.filter fun c => c.key == key).map RateCheck.now).filter (limiter.inWindow now)

/-- The keys with an accepted check in the window before `now`. -/
def RateLimiter.tracked (limiter : RateLimiter) (accepted : List RateCheck) (now : ℕ) :
    List String :=
  ((accepted.filter fun c => limiter.inWindow now c.now).map RateCheck.key).dedup

/-- The decision as a function of the accepted checks. -/
def RateLimiter.verdict (limiter : RateLimiter) (accepted : List RateCheck) (key : String)
    (now : ℕ) : Except ℕ Unit :=
  let recent := limiter.recent accepted key now
  if recent = [] ∧ maxTrackedKeys ≤ (limiter.tracked accepted now).length then
    .error limiter.window
  else if limiter.limit ≤ recent.length then
    .error ((recent.head?.map fun t => limiter.window - (now - t)).getD limiter.window)
  else .ok ()

/-- The limiter, the checks it accepted, and the time of the last check. -/
structure RateHistory where
  state : RateState
  accepted : List RateCheck
  last : ℕ

def RateHistory.initial : RateHistory := ⟨.empty, [], 0⟩

/-- One check, under the lock; the clock does not go back. -/
def RateHistory.step (limiter : RateLimiter) (h : RateHistory) (c : RateCheck) :
    Option RateHistory :=
  if h.last ≤ c.now then
    let r := limiter.check h.state c.now c.key
    some ⟨r.2, if r.1.isOk then h.accepted ++ [c] else h.accepted, c.now⟩
  else none

/-- The queues hold the accepted checks that were in the window at the last check. -/
structure RateHistory.Inv (limiter : RateLimiter) (h : RateHistory) : Prop where
  past : ∀ c ∈ h.accepted, c.now ≤ h.last
  sorted : h.accepted.Pairwise fun c d => c.now ≤ d.now
  queue : ∀ key, (h.state.get? key).getD [] = limiter.recent h.accepted key h.last
  nonempty : ∀ e ∈ h.state.queues, e.2 ≠ []
  capped : h.state.queues.length ≤ maxTrackedKeys
  bounded : ∀ (key : String) (a : ℤ), ((h.accepted.filter fun c => c.key == key).filter fun c =>
    decide (a < c.now ∧ (c.now : ℤ) ≤ a + limiter.window)).length ≤ limiter.limit

section Windows

variable {limiter : RateLimiter} {accepted : List RateCheck} {key : String} {now last : ℕ}

/-- In a sorted queue the expired attempts are in front. -/
theorem dropWhile_expired {l : List ℕ} (hsorted : l.Pairwise (· ≤ ·)) (hpast : ∀ t ∈ l, t ≤ now)
    (window : ℕ) : (l.dropWhile fun t => window ≤ now - t) =
      l.filter fun t => now < t + window && t ≤ now := by
  induction l with
  | nil => rfl
  | cons t rest ih =>
    obtain ⟨ht, hrest⟩ := List.pairwise_cons.mp hsorted
    obtain ⟨htnow, hpast⟩ := List.forall_mem_cons.mp hpast
    by_cases hexpired : window ≤ now - t
    · rw [List.dropWhile_cons_of_pos (by simpa using hexpired), ih hrest hpast,
        List.filter_cons_of_neg]
      simp only [Bool.and_eq_true, decide_eq_true_eq, not_and]
      omega
    · rw [List.dropWhile_cons_of_neg (by simpa using hexpired), eq_comm, List.filter_eq_self]
      intro u hu
      have hle : t ≤ u ∧ u ≤ now := by
        rcases List.mem_cons.mp hu with rfl | hu
        · exact ⟨Nat.le_refl _, htnow⟩
        · exact ⟨ht u hu, hpast u hu⟩
      simp only [Bool.and_eq_true, decide_eq_true_eq]
      omega

/-- An earlier window holds what a later one keeps. -/
theorem recent_filter (hle : last ≤ now) (hpast : ∀ c ∈ accepted, c.now ≤ last) :
    (limiter.recent accepted key last).filter (limiter.inWindow now) =
      limiter.recent accepted key now := by
  unfold RateLimiter.recent
  rw [List.filter_filter]
  apply List.filter_congr
  intro t ht
  obtain ⟨c, hc, rfl⟩ := List.mem_map.mp ht
  have := hpast c (List.mem_filter.mp hc).1
  simp only [RateLimiter.inWindow, Bool.and_eq_left_iff_imp, Bool.and_eq_true, decide_eq_true_eq]
  omega

theorem recent_sorted (hsorted : accepted.Pairwise fun c d => c.now ≤ d.now) (key : String)
    (now : ℕ) : (limiter.recent accepted key now).Pairwise (· ≤ ·) := by
  unfold RateLimiter.recent
  apply List.Pairwise.filter
  rw [List.pairwise_map]
  exact hsorted.filter _

theorem mem_recent {t : ℕ} : t ∈ limiter.recent accepted key now ↔
    limiter.inWindow now t = true ∧ ∃ c ∈ accepted, c.key = key ∧ c.now = t := by
  simp only [RateLimiter.recent, List.mem_filter, List.mem_map, beq_iff_eq]
  constructor
  · rintro ⟨⟨c, ⟨hc, hkey⟩, ht⟩, hin⟩
    exact ⟨hin, c, hc, hkey, ht⟩
  · rintro ⟨hin, c, hc, hkey, ht⟩
    exact ⟨⟨c, ⟨hc, hkey⟩, ht⟩, hin⟩

/-- A key is tracked when it has a recent check. -/
theorem mem_tracked : key ∈ limiter.tracked accepted now ↔
    limiter.recent accepted key now ≠ [] := by
  simp only [RateLimiter.tracked, List.mem_dedup, List.mem_map, List.mem_filter]
  constructor
  · rintro ⟨c, ⟨hc, hin⟩, rfl⟩
    exact List.ne_nil_of_mem (mem_recent.mpr ⟨hin, c, hc, rfl, rfl⟩)
  · intro hne
    obtain ⟨t, ht⟩ := List.exists_mem_of_ne_nil _ hne
    obtain ⟨hin, c, hc, hkey, rfl⟩ := mem_recent.mp ht
    exact ⟨c, ⟨hc, hin⟩, hkey⟩

end Windows

section Checks

variable {limiter : RateLimiter} {h : RateHistory} {key : String} {now : ℕ}

theorem RateHistory.Inv.times (hinv : h.Inv limiter) :
    ∀ t ∈ limiter.recent h.accepted key h.last, t ≤ h.last := by
  intro t ht
  obtain ⟨-, c, hc, -, rfl⟩ := mem_recent.mp ht
  exact hinv.past c hc

/-- The queues after the pruning of a check. -/
theorem RateHistory.Inv.retained (hinv : h.Inv limiter) (hle : h.last ≤ now) (key : String) :
    ((h.state.retain limiter.window now).get? key).getD [] =
      limiter.recent h.accepted key now := by
  have htimes : ∀ t ∈ limiter.recent h.accepted key h.last, t ≤ now :=
    fun t ht => (hinv.times t ht).trans hle
  rw [RateState.get?_retain, hinv.queue, dropWhile_expired (recent_sorted hinv.sorted _ _) htimes,
    ← recent_filter hle hinv.past]
  rfl

/-- A key has no queue exactly when it has no recent check. -/
theorem RateHistory.Inv.untracked (hinv : h.Inv limiter) (hle : h.last ≤ now) (key : String) :
    (h.state.retain limiter.window now).get? key = none ↔
      limiter.recent h.accepted key now = [] := by
  rw [← hinv.retained hle]
  cases hq : (h.state.retain limiter.window now).get? key with
  | none => simp
  | some q =>
    have hne := RateState.retain_nonempty _ (RateState.get?_eq_some.mp hq)
    simpa using hne

/-- As many queues are kept as there are tracked keys. -/
theorem RateHistory.Inv.count (hinv : h.Inv limiter) (hle : h.last ≤ now) :
    (h.state.retain limiter.window now).queues.length =
      (limiter.tracked h.accepted now).length := by
  have hperm : (h.state.retain limiter.window now).keys.Perm (limiter.tracked h.accepted now) := by
    have hkeys : (h.state.retain limiter.window now).keys.Nodup :=
      (h.state.retain limiter.window now).distinct
    have htracked : (limiter.tracked h.accepted now).Nodup := List.nodup_dedup _
    apply (List.perm_ext_iff_of_nodup hkeys htracked).mpr
    intro key
    rw [mem_tracked, Ne, ← hinv.untracked hle, RateState.mem_keys_iff, ← Ne,
      Option.ne_none_iff_exists']
  rw [← hperm.length_eq, RateState.keys, List.length_map]

/-- What a check decides is a statement about the accepted checks. -/
theorem RateHistory.Inv.check_eq (hinv : h.Inv limiter) (hle : h.last ≤ now) (key : String) :
    (limiter.check h.state now key).1 = limiter.verdict h.accepted key now := by
  unfold RateLimiter.check RateLimiter.verdict
  simp only [hinv.retained hle, hinv.untracked hle, hinv.count hle]
  split_ifs <;> rfl

theorem verdict_ok_iff {accepted : List RateCheck} :
    limiter.verdict accepted key now = .ok () ↔
      (limiter.recent accepted key now).length < limiter.limit ∧
        (limiter.recent accepted key now ≠ [] ∨
          (limiter.tracked accepted now).length < maxTrackedKeys) := by
  unfold RateLimiter.verdict
  simp only
  split_ifs with hcap hfull
  · simp only [false_iff]
    rintro ⟨-, hne | hlt⟩
    · exact hne hcap.1
    · omega
  · simp only [false_iff]
    omega
  · simp only [true_iff]
    refine ⟨not_le.mp hfull, ?_⟩
    by_contra hneither
    rw [not_or, not_not, not_lt] at hneither
    exact hcap hneither

/-- What a check does to the queues: nothing but the pruning, or one queue is written back. -/
inductive RateHistory.Outcome (limiter : RateLimiter) (h : RateHistory) (key : String) (now : ℕ) :
    Except ℕ Unit × RateState → Prop
  | crowded : limiter.recent h.accepted key now = [] →
      h.Outcome limiter key now (.error limiter.window, h.state.retain limiter.window now)
  | full (retryAfter : ℕ) : limiter.limit ≤ (limiter.recent h.accepted key now).length →
      h.Outcome limiter key now (.error retryAfter,
        (h.state.retain limiter.window now).insert key (limiter.recent h.accepted key now))
  | accepted : (limiter.recent h.accepted key now).length < limiter.limit →
      (limiter.recent h.accepted key now = [] →
        (h.state.retain limiter.window now).queues.length < maxTrackedKeys) →
      h.Outcome limiter key now (.ok (), (h.state.retain limiter.window now).insert key
        (limiter.recent h.accepted key now ++ [now]))

theorem RateHistory.Inv.outcome (hinv : h.Inv limiter) (hle : h.last ≤ now) (key : String) :
    h.Outcome limiter key now (limiter.check h.state now key) := by
  unfold RateLimiter.check
  simp only [hinv.retained hle, hinv.untracked hle]
  split_ifs with hcap hfull
  · exact .crowded hcap.1
  · exact .full _ hfull
  · exact .accepted (not_le.mp hfull) fun hnil => not_le.mp fun hlength => hcap ⟨hnil, hlength⟩

theorem RateHistory.Inv.retain_length (hinv : h.Inv limiter) :
    (h.state.retain limiter.window now).queues.length ≤ maxTrackedKeys := by
  refine (List.length_filter_le _ _).trans ?_
  rw [List.length_map]
  exact hinv.capped

/-- A queue that is written back is counted. -/
theorem RateHistory.Inv.insert_length (hinv : h.Inv limiter) (hle : h.last ≤ now)
    (hroom : limiter.recent h.accepted key now = [] →
      (h.state.retain limiter.window now).queues.length < maxTrackedKeys) (attempts : List ℕ) :
    ((h.state.retain limiter.window now).insert key attempts).queues.length ≤ maxTrackedKeys := by
  cases hq : (h.state.retain limiter.window now).get? key with
  | none =>
    have hlt := hroom ((hinv.untracked hle key).mp hq)
    exact (RateState.insert_length_le _ _ _).trans hlt
  | some old => exact (RateState.insert_length_of_some hq _).trans hinv.retain_length

/-- Only the queue of the checked key is written. -/
theorem RateHistory.Inv.insert_queue (hinv : h.Inv limiter) (hle : h.last ≤ now)
    (attempts : List ℕ) (other : String) :
    (((h.state.retain limiter.window now).insert key attempts).get? other).getD [] =
      if other = key then attempts else limiter.recent h.accepted other now := by
  rw [RateState.get?_insert]
  split_ifs
  · rfl
  · exact hinv.retained hle other

theorem recent_append {accepted : List RateCheck} (c : RateCheck) (hwindow : 0 < limiter.window)
    (other : String) : limiter.recent (accepted ++ [c]) other c.now =
      if other = c.key then limiter.recent accepted other c.now ++ [c.now]
      else limiter.recent accepted other c.now := by
  have hin : limiter.inWindow c.now c.now = true := by
    simp only [RateLimiter.inWindow, Bool.and_eq_true, decide_eq_true_eq]
    omega
  unfold RateLimiter.recent
  rw [List.filter_append, List.map_append, List.filter_append]
  split_ifs with hkey
  · simp [hkey, hin]
  · simp [Ne.symm hkey]

/-- An acceptance keeps every window within the limit. -/
theorem RateHistory.Inv.bounded_append (hinv : h.Inv limiter) {c : RateCheck} (hle : h.last ≤ c.now)
    (hroom : (limiter.recent h.accepted c.key c.now).length < limiter.limit) (other : String)
    (a : ℤ) : (((h.accepted ++ [c]).filter fun d => d.key == other).filter fun d =>
      decide (a < d.now ∧ (d.now : ℤ) ≤ a + limiter.window)).length ≤ limiter.limit := by
  have hold := hinv.bounded other a
  rw [List.filter_append, List.filter_append, List.length_append]
  by_cases hnew : c.key = other ∧ a < c.now ∧ (c.now : ℤ) ≤ a + limiter.window
  · obtain ⟨rfl, hlow, hhigh⟩ := hnew
    -- the older checks of this window are recent ones
    have hrecent : ((h.accepted.filter fun d => d.key == c.key).filter fun d =>
        decide (a < d.now ∧ (d.now : ℤ) ≤ a + limiter.window)).length ≤
        (limiter.recent h.accepted c.key c.now).length := by
      unfold RateLimiter.recent
      rw [List.filter_map, List.length_map, ← List.countP_eq_length_filter,
        ← List.countP_eq_length_filter]
      apply List.countP_mono_left
      intro d hd hin
      have hpast := (hinv.past d (List.mem_filter.mp hd).1).trans hle
      simp only [decide_eq_true_eq] at hin
      simp only [Function.comp_apply, RateLimiter.inWindow, Bool.and_eq_true, decide_eq_true_eq]
      omega
    have hlast : ([c].filter fun d => d.key == c.key).length ≤ 1 := List.length_filter_le _ _
    have hlast' := (List.length_filter_le (fun d : RateCheck =>
      decide (a < d.now ∧ (d.now : ℤ) ≤ a + limiter.window))
      ([c].filter fun d => d.key == c.key)).trans hlast
    omega
  · have hnil : (([c].filter fun d => d.key == other).filter fun d =>
        decide (a < d.now ∧ (d.now : ℤ) ≤ a + limiter.window)) = [] := by
      by_cases hkey : c.key = other
      · simp [hkey] at hnew ⊢
        exact hnew
      · simp [hkey]
    rw [hnil, List.length_nil]
    exact hold

theorem RateHistory.Inv.refused (hinv : h.Inv limiter) (hle : h.last ≤ now)
    (hne : limiter.recent h.accepted key now ≠ []) :
    RateHistory.Inv limiter ⟨(h.state.retain limiter.window now).insert key
      (limiter.recent h.accepted key now), h.accepted, now⟩ where
  past := fun d hd => (hinv.past d hd).trans hle
  sorted := hinv.sorted
  queue := by
    intro other
    rw [hinv.insert_queue hle]
    split_ifs with hkey
    · rw [hkey]
    · rfl
  nonempty := by
    intro e he
    rcases RateState.mem_insert_queue he with hq | he
    · rw [hq]
      exact hne
    · exact RateState.retain_nonempty e he
  capped := hinv.insert_length hle (fun hnil => absurd hnil hne) _
  bounded := hinv.bounded

theorem RateHistory.Inv.grown (hinv : h.Inv limiter) {c : RateCheck} (hle : h.last ≤ c.now)
    (hwindow : 0 < limiter.window)
    (hroom : (limiter.recent h.accepted c.key c.now).length < limiter.limit)
    (hcap : limiter.recent h.accepted c.key c.now = [] →
      (h.state.retain limiter.window c.now).queues.length < maxTrackedKeys) :
    RateHistory.Inv limiter ⟨(h.state.retain limiter.window c.now).insert c.key
      (limiter.recent h.accepted c.key c.now ++ [c.now]), h.accepted ++ [c], c.now⟩ where
  past := by
    intro d hd
    rcases List.mem_append.mp hd with hd | hd
    · exact (hinv.past d hd).trans hle
    · rw [List.mem_singleton.mp hd]
  sorted := by
    refine List.pairwise_append.mpr ⟨hinv.sorted, List.pairwise_singleton _ _, fun d hd e he => ?_⟩
    rw [List.mem_singleton.mp he]
    exact (hinv.past d hd).trans hle
  queue := by
    intro other
    rw [hinv.insert_queue hle, recent_append c hwindow]
    split_ifs with hkey
    · rw [hkey]
    · rfl
  nonempty := by
    intro e he
    rcases RateState.mem_insert_queue he with hq | he
    · rw [hq]
      simp
    · exact RateState.retain_nonempty e he
  capped := hinv.insert_length hle hcap _
  bounded := hinv.bounded_append hle hroom

/-- A check keeps the queues in step with the accepted checks. -/
theorem RateHistory.Inv.step (hinv : h.Inv limiter) (hlimit : 1 ≤ limiter.limit)
    (hwindow : 0 < limiter.window) {c : RateCheck} {h' : RateHistory}
    (hstep : h.step limiter c = some h') : h'.Inv limiter := by
  obtain ⟨hle, heq⟩ := Option.ite_none_right_eq_some.mp hstep
  have houtcome := hinv.outcome hle c.key
  simp only at heq
  generalize limiter.check h.state c.now c.key = r at heq houtcome
  cases heq
  cases houtcome with
  | crowded hnil =>
    exact ⟨fun d hd => (hinv.past d hd).trans hle, hinv.sorted, hinv.retained hle,
      RateState.retain_nonempty, hinv.retain_length, hinv.bounded⟩
  | full retryAfter hfull =>
    have hne : limiter.recent h.accepted c.key c.now ≠ [] := by
      intro hnil
      rw [hnil, List.length_nil] at hfull
      omega
    exact hinv.refused hle hne
  | accepted hroom hcap => exact hinv.grown hle hwindow hroom hcap

theorem RateHistory.Inv.initial (limiter : RateLimiter) :
    RateHistory.initial.Inv limiter where
  past := fun _ hc => absurd hc List.not_mem_nil
  sorted := List.Pairwise.nil
  queue := fun _ => rfl
  nonempty := fun _ he => absurd he List.not_mem_nil
  capped := Nat.zero_le _
  bounded := fun _ _ => Nat.zero_le _

theorem RateHistory.Inv.run (hinv : h.Inv limiter) (hlimit : 1 ≤ limiter.limit)
    (hwindow : 0 < limiter.window) {h' : RateHistory}
    (hrun : Run (RateHistory.step limiter) Always h h') : h'.Inv limiter :=
  hrun.invariant (fun _ _ _ hinv _ hstep => hinv.step hlimit hwindow hstep) hinv

theorem RateHistory.Inv.recent_length (hinv : h.Inv limiter) (key : String) (now : ℕ) :
    (limiter.recent h.accepted key now).length ≤ limiter.limit := by
  refine le_trans ?_ (hinv.bounded key ((now : ℤ) - limiter.window))
  unfold RateLimiter.recent
  rw [List.filter_map, List.length_map, ← List.countP_eq_length_filter,
    ← List.countP_eq_length_filter]
  apply List.countP_mono_left
  intro d _ hin
  simp only [Function.comp_apply, RateLimiter.inWindow, Bool.and_eq_true, decide_eq_true_eq] at hin
  simp only [decide_eq_true_eq]
  omega

/-- Every stored queue is short. -/
theorem RateHistory.Inv.stored (hinv : h.Inv limiter) :
    ∀ e ∈ h.state.queues, e.2.length ≤ limiter.limit := by
  rintro ⟨key, attempts⟩ he
  have hqueue := hinv.queue key
  rw [RateState.get?_eq_some.mpr he, Option.getD_some] at hqueue
  rw [hqueue]
  exact hinv.recent_length key h.last

/-- What a limiter answers to a sequence of checks. -/
def RateLimiter.outcomes (limiter : RateLimiter) : RateState → List RateCheck →
    List (Except ℕ Unit)
  | _, [] => []
  | st, c :: rest =>
      let r := limiter.check st c.now c.key
      r.1 :: limiter.outcomes r.2 rest

/-- States with the same accepted checks answer alike. -/
theorem RateHistory.Inv.outcomes_eq (hlimit : 1 ≤ limiter.limit) (hwindow : 0 < limiter.window)
    {g : RateHistory} (hinv : h.Inv limiter) (hinv' : g.Inv limiter)
    (hsame : h.accepted = g.accepted) {cs : List RateCheck}
    (hsorted : cs.Pairwise fun c d => c.now ≤ d.now)
    (hlate : ∀ c ∈ cs, h.last ≤ c.now ∧ g.last ≤ c.now) :
    limiter.outcomes h.state cs = limiter.outcomes g.state cs := by
  induction cs generalizing h g with
  | nil => rfl
  | cons c rest ih =>
    obtain ⟨hnext, hrest⟩ := List.pairwise_cons.mp hsorted
    obtain ⟨hle, hle'⟩ := hlate c List.mem_cons_self
    have hanswer :
        (limiter.check h.state c.now c.key).1 = (limiter.check g.state c.now c.key).1 := by
      rw [hinv.check_eq hle, hinv'.check_eq hle', hsame]
    have hstep := hinv.step hlimit hwindow (if_pos hle)
    have hstep' := hinv'.step hlimit hwindow (if_pos hle')
    have htail := ih hstep hstep' (by rw [hanswer, hsame]) hrest
      fun d hd => ⟨hnext d hd, hnext d hd⟩
    unfold RateLimiter.outcomes
    simp only [hanswer]
    rw [htail]

/-- After the time that a refusal names, the oldest attempt has left the window. -/
theorem RateHistory.Inv.retry (hinv : h.Inv limiter) (hle : h.last ≤ now)
    (hlimit : 1 ≤ limiter.limit) {retryAfter : ℕ}
    (hcheck : (limiter.check h.state now key).1 = .error retryAfter)
    (hfull : limiter.limit ≤ (limiter.recent h.accepted key now).length) {h' : RateHistory}
    (hsame : h'.accepted.filter (fun c => c.key == key) = h.accepted.filter fun c => c.key == key) :
    (limiter.recent h'.accepted key (now + retryAfter)).length < limiter.limit := by
  obtain ⟨oldest, rest, hrecent⟩ := List.exists_cons_of_length_pos (by omega :
    0 < (limiter.recent h.accepted key now).length)
  have hin : limiter.inWindow now oldest = true :=
    (mem_recent.mp (by rw [hrecent]; exact List.mem_cons_self)).1
  simp only [RateLimiter.inWindow, Bool.and_eq_true, decide_eq_true_eq] at hin
  have hretry : retryAfter = limiter.window - (now - oldest) := by
    rw [hinv.check_eq hle, RateLimiter.verdict] at hcheck
    simp only [hrecent, reduceCtorEq, false_and, if_false] at hcheck
    rw [hrecent] at hfull
    rw [if_pos hfull] at hcheck
    exact (Except.error.inj hcheck).symm
  have hlength := hinv.recent_length key now
  rw [hrecent, List.length_cons] at hlength
  have hsub : List.Sublist (limiter.recent h'.accepted key (now + retryAfter)) rest := by
    have hlater : limiter.recent h'.accepted key (now + retryAfter) =
        limiter.recent h.accepted key (now + retryAfter) := by
      simp only [RateLimiter.recent, hsame]
    have hexpired : ¬limiter.inWindow (now + retryAfter) oldest = true := by
      simp only [RateLimiter.inWindow, Bool.and_eq_true, decide_eq_true_eq]
      omega
    rw [hlater, ← recent_filter (Nat.le_add_right now retryAfter)
      fun c hc => (hinv.past c hc).trans hle, hrecent, List.filter_cons_of_neg hexpired]
    exact List.filter_sublist
  exact Nat.lt_of_lt_of_le (Nat.lt_succ_of_le hsub.length_le) hlength

end Checks

/-- The rate limit is a sliding window over the accepted checks: what a check decides; no window
over the limit; refused checks without effect; bounded storage; and the retry time is kept. -/
theorem sliding_window {limiter : RateLimiter} (hlimit : 1 ≤ limiter.limit)
    (hwindow : 0 < limiter.window) {h : RateHistory}
    (hrun : Run (RateHistory.step limiter) Always .initial h) :
    (∀ key now, h.last ≤ now → ((limiter.check h.state now key).1 = .ok () ↔
      (limiter.recent h.accepted key now).length < limiter.limit ∧
        (limiter.recent h.accepted key now ≠ [] ∨
          (limiter.tracked h.accepted now).length < maxTrackedKeys))) ∧
    (∀ (key : String) (a : ℤ),
      ((h.accepted.filter fun c => c.key == key).filter fun c =>
        decide (a < c.now ∧ (c.now : ℤ) ≤ a + limiter.window)).length ≤ limiter.limit ∧
      ((h.accepted.filter fun c => c.key == key).filter fun c =>
        decide (a ≤ c.now ∧ (c.now : ℤ) < a + limiter.window)).length ≤ limiter.limit) ∧
    (∀ (c : RateCheck) (cs : List RateCheck), h.last ≤ c.now →
      (limiter.check h.state c.now c.key).1 ≠ .ok () →
      (c :: cs).Pairwise (fun c d => c.now ≤ d.now) →
      limiter.outcomes (limiter.check h.state c.now c.key).2 cs = limiter.outcomes h.state cs) ∧
    (h.state.queues.length ≤ maxTrackedKeys ∧
      ∀ e ∈ h.state.queues, e.2.length ≤ limiter.limit) ∧
    ∀ (key : String) (now retryAfter : ℕ) (h' : RateHistory), h.last ≤ now →
      (limiter.check h.state now key).1 = .error retryAfter →
      limiter.limit ≤ (limiter.recent h.accepted key now).length →
      Run (RateHistory.step limiter) Always h h' → h'.last ≤ now + retryAfter →
      h'.accepted.filter (fun c => c.key == key) = h.accepted.filter (fun c => c.key == key) →
      (limiter.check h'.state (now + retryAfter) key).1 = .ok () ∨
        (key ∉ limiter.tracked h'.accepted (now + retryAfter) ∧
          maxTrackedKeys ≤ (limiter.tracked h'.accepted (now + retryAfter)).length) := by
  have hinv := (RateHistory.Inv.initial limiter).run hlimit hwindow hrun
  refine ⟨fun key now hle => ?_, fun key a => ⟨hinv.bounded key a, ?_⟩,
    fun c cs hle hrefused hsorted => ?_, ⟨hinv.capped, hinv.stored⟩,
    fun key now retryAfter h' hle hcheck hfull hrun' hlast hsame => ?_⟩
  · rw [hinv.check_eq hle]
    exact verdict_ok_iff
  · have hshift : (fun c : RateCheck => decide (a ≤ c.now ∧ (c.now : ℤ) < a + limiter.window)) =
        fun c => decide (a - 1 < c.now ∧ (c.now : ℤ) ≤ a - 1 + limiter.window) := by
      funext c
      congr 1
      apply propext
      omega
    rw [hshift]
    exact hinv.bounded key (a - 1)
  · obtain ⟨hlate, hrest⟩ := List.pairwise_cons.mp hsorted
    have hstep := hinv.step hlimit hwindow (if_pos hle)
    have hsame : (if (limiter.check h.state c.now c.key).1.isOk then h.accepted ++ [c]
        else h.accepted) = h.accepted := by
      cases hanswer : (limiter.check h.state c.now c.key).1 with
      | ok u => exact absurd hanswer hrefused
      | error e => rfl
    exact hstep.outcomes_eq hlimit hwindow hinv hsame hrest
      fun d hd => ⟨hlate d hd, hle.trans (hlate d hd)⟩
  · have hinv' := hinv.run hlimit hwindow hrun'
    have hroom := hinv.retry hle hlimit hcheck hfull hsame
    rw [hinv'.check_eq hlast, verdict_ok_iff, mem_tracked, not_not]
    by_cases hnil : limiter.recent h'.accepted key (now + retryAfter) = []
    · rcases Nat.lt_or_ge (limiter.tracked h'.accepted (now + retryAfter)).length maxTrackedKeys
        with hfree | hcrowded
      · exact Or.inl ⟨hroom, Or.inr hfree⟩
      · exact Or.inr ⟨hnil, hcrowded⟩
    · exact Or.inl ⟨hroom, Or.inl hnil⟩

theorem sliding_window_sample : ∃ h, Run (RateHistory.step ⟨2, 60⟩) Always .initial h ∧
    (RateLimiter.check ⟨2, 60⟩ h.state 20 "owner").1 ≠ .ok () ∧
    (RateLimiter.check ⟨2, 60⟩ h.state 60 "owner").1 = .ok () := by
  have hexec : (exec (RateHistory.step ⟨2, 60⟩) .initial [⟨"owner", 0⟩, ⟨"owner", 10⟩]).any
      (fun h => h.last == 10 && h.accepted == [⟨"owner", 0⟩, ⟨"owner", 10⟩]) = true := by
    decide +kernel
  obtain ⟨h, hrun, hstate⟩ := exists_run_of_exec (fun _ _ _ => trivial) hexec
  obtain ⟨hlast, haccepted⟩ := Bool.and_eq_true_iff.mp hstate
  have hlast : h.last = 10 := by simpa using hlast
  have haccepted : h.accepted = [⟨"owner", 0⟩, ⟨"owner", 10⟩] := by simpa using haccepted
  have hdecides := (sliding_window (by decide) (by decide) hrun).1 "owner"
  refine ⟨h, hrun, fun hok => ?_, (hdecides 60 (by omega)).mpr ?_⟩
  · have hroom := ((hdecides 20 (by omega)).mp hok).1
    rw [haccepted] at hroom
    exact absurd hroom (by decide)
  · rw [haccepted]
    exact ⟨by decide, Or.inl (by decide)⟩

end TaskHarbor
