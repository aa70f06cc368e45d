import Mathlib.Data.List.Forall2
import Mathlib.Tactic.Common

/-! Transactions over a store `σ` that fail with errors `ε`. A transaction body threads the store
and stops at its first error; committing keeps its store, and an error rolls everything back. A
session is what a client runs: committed transactions and reads, one after the other, so an error
after a commit does not undo it. -/
namespace Transaction

variable {σ ε α β : Type}

abbrev Tx (σ ε α : Type) := StateT σ (Except ε) α

abbrev Session (σ ε α : Type) := ExceptT ε (StateM σ) α

theorem except_bind_ok {x : Except ε α} {f : α → Except ε β} {b : β} :
    (x >>= f) = .ok b ↔ ∃ a, x = .ok a ∧ f a = .ok b := by
  cases x with
  | error e =>
    constructor
    · intro h
      cases h
    · rintro ⟨_, h, _⟩
      cases h
  | ok a =>
    constructor
    · intro h
      exact ⟨a, rfl, h⟩
    · rintro ⟨_, ha, h⟩
      cases ha
      exact h

@[simp] theorem except_ok_bind (a : α) (f : α → Except ε β) :
    ((.ok a : Except ε α) >>= f) = f a := rfl

/-- Two computations that go on from one result in related ways. -/
theorem except_bind_map {γ : Type} {x : Except ε α} {f : α → Except ε γ} {f' : α → Except ε β}
    {g : β → γ} (h : ∀ a, x = .ok a → f a = (f' a).map g) : (x >>= f) = (x >>= f').map g := by
  cases x with
  | error e => rfl
  | ok a => exact h a rfl

theorem except_pure_ok {a b : α} : (pure a : Except ε α) = .ok b ↔ b = a := by
  constructor
  · intro h
    cases h
    rfl
  · rintro rfl
    rfl

/-- A test of a result that holds. -/
theorem except_any_eq_true {x : Except ε α} {p : α → Bool} :
    x.toOption.any p = true ↔ ∃ a, x = .ok a ∧ p a = true := by
  cases x with
  | error e =>
    constructor
    · intro h
      cases h
    · rintro ⟨a, h, -⟩
      cases h
  | ok b =>
    constructor
    · intro h
      exact ⟨b, rfl, h⟩
    · rintro ⟨a, ha, h⟩
      cases ha
      exact h

theorem except_map_error {f : α → β} {x : Except ε α} {e : ε} (h : x.map f = .error e) :
    x = .error e := by
  cases x with
  | error e' =>
    cases h
    rfl
  | ok a => cases h

theorem except_bind_ne_error {x : Except ε α} {f : α → Except ε β} {e : ε} (hx : x ≠ .error e)
    (hf : ∀ a, x = .ok a → f a ≠ .error e) : (x >>= f) ≠ .error e := by
  cases x with
  | error e' =>
    intro h
    cases h
    exact hx rfl
  | ok a => exact hf a rfl

/-- An early return that was not taken. -/
theorem except_unless_ok {c : Prop} [Decidable c] {e : ε} {f : Unit → Except ε α} {a : α} :
    (if c then (throw e : Except ε Unit) >>= f else f ()) = .ok a ↔ ¬c ∧ f () = .ok a := by
  split
  · rename_i hc
    constructor
    · intro h
      cases h
    · rintro ⟨hn, -⟩
      exact absurd hc hn
  · rename_i hc
    simp [hc]

/-- Either the early return was taken or the rest failed. -/
theorem except_unless_error {c : Prop} [Decidable c] {e e' : ε} {f : Unit → Except ε α}
    (h : (if c then (throw e : Except ε Unit) >>= f else f ()) = .error e') :
    c ∧ e' = e ∨ ¬c ∧ f () = .error e' := by
  split at h
  · rename_i hc
    cases h
    exact Or.inl ⟨hc, rfl⟩
  · rename_i hc
    exact Or.inr ⟨hc, h⟩

/-- A traversal that succeeds succeeded on every element. -/
theorem except_mapM_ok {f : α → Except ε β} {l : List α} {l' : List β} :
    l.mapM f = .ok l' ↔ List.Forall₂ (fun a b => f a = .ok b) l l' := by
  induction l generalizing l' with
  | nil =>
    rw [List.mapM_nil, except_pure_ok, List.forall₂_nil_left_iff]
  | cons a l ih =>
    simp only [List.mapM_cons, except_bind_ok, except_pure_ok, List.forall₂_cons_left_iff, ih]
    constructor
    · rintro ⟨b, hb, bs, hbs, rfl⟩
      exact ⟨b, bs, hb, hbs, rfl⟩
    · rintro ⟨b, bs, hb, hbs, rfl⟩
      exact ⟨b, hb, bs, hbs, rfl⟩

theorem except_mapM_congr {f g : α → Except ε β} {l : List α} (h : ∀ a ∈ l, f a = g a) :
    l.mapM f = l.mapM g := by
  induction l with
  | nil => rfl
  | cons a l ih =>
    rw [List.mapM_cons, List.mapM_cons, h a List.mem_cons_self,
      ih fun b hb => h b (List.mem_cons_of_mem a hb)]

theorem except_mapM_exists {f : α → Except ε β} {l : List α} (h : ∀ a ∈ l, ∃ b, f a = .ok b) :
    ∃ l', l.mapM f = .ok l' := by
  induction l with
  | nil => exact ⟨[], rfl⟩
  | cons a l ih =>
    obtain ⟨b, hb⟩ := h a List.mem_cons_self
    obtain ⟨bs, hbs⟩ := ih fun c hc => h c (List.mem_cons_of_mem _ hc)
    exact ⟨b :: bs, by rw [List.mapM_cons, hb, hbs]; rfl⟩

namespace Tx

@[simp] theorem pure_run (a : α) (s : σ) : (pure a : Tx σ ε α) s = .ok (a, s) := rfl

@[simp] theorem throw_run (e : ε) (s : σ) : (throw e : Tx σ ε α) s = .error e := rfl

@[simp] theorem get_run (s : σ) : (get : Tx σ ε σ) s = .ok (s, s) := rfl

@[simp] theorem set_run (s s' : σ) : (set s' : Tx σ ε PUnit) s = .ok ((), s') := rfl

@[simp] theorem liftExcept_run (x : Except ε α) (s : σ) :
    (liftM x : Tx σ ε α) s = x.map fun a => (a, s) := by
  cases x <;> rfl

theorem liftExcept_ok {x : Except ε α} {s s' : σ} {a : α} :
    (liftM x : Tx σ ε α) s = .ok (a, s') ↔ x = .ok a ∧ s = s' := by
  rw [liftExcept_run]
  cases x <;> simp [Except.map]

theorem bind_run (x : Tx σ ε α) (f : α → Tx σ ε β) (s : σ) :
    (x >>= f) s = match x s with
      | .ok (a, s') => f a s'
      | .error e => .error e := by
  change (x s >>= fun p => f p.1 p.2) = _
  cases x s <;> rfl

/-- A body that succeeds ran its first statement and then the rest. -/
theorem bind_ok {x : Tx σ ε α} {f : α → Tx σ ε β} {s s'' : σ} {b : β} :
    (x >>= f) s = .ok (b, s'') ↔ ∃ a s', x s = .ok (a, s') ∧ f a s' = .ok (b, s'') := by
  rw [bind_run]
  cases x s with
  | error e => simp
  | ok p =>
    constructor
    · intro h
      exact ⟨p.1, p.2, rfl, h⟩
    · rintro ⟨a, s', hp, h⟩
      cases hp
      exact h

/-! ### What a body may do to the store -/

/-- Wherever the body succeeds, it changes the store as `R` allows. -/
def Keeps (R : σ → σ → Prop) (x : Tx σ ε α) : Prop := ∀ s a s', x s = .ok (a, s') → R s s'

variable {R : σ → σ → Prop}

theorem keeps_pure (hrefl : ∀ s, R s s) (a : α) : Keeps R (pure a : Tx σ ε α) := by
  intro s b s' h
  cases h
  exact hrefl s

theorem keeps_throw (e : ε) : Keeps R (throw e : Tx σ ε α) := by
  intro s b s' h
  cases h

theorem keeps_get (hrefl : ∀ s, R s s) : Keeps R (get : Tx σ ε σ) := by
  intro s b s' h
  cases h
  exact hrefl s

theorem keeps_lift (hrefl : ∀ s, R s s) (x : Except ε α) : Keeps R (liftM x : Tx σ ε α) := by
  intro s b s' h
  rw [liftExcept_run] at h
  cases x with
  | error e => cases h
  | ok a =>
    cases h
    exact hrefl s

theorem keeps_bind (htrans : ∀ s t u, R s t → R t u → R s u) {x : Tx σ ε α}
    {f : α → Tx σ ε β} (hx : Keeps R x) (hf : ∀ a, Keeps R (f a)) : Keeps R (x >>= f) := by
  intro s b s'' h
  obtain ⟨a, s', hx', hf'⟩ := bind_ok.mp h
  exact htrans s s' s'' (hx s a s' hx') (hf a s' b s'' hf')

theorem keeps_ite {c : Prop} [Decidable c] {x y : Tx σ ε α} (hx : Keeps R x) (hy : Keeps R y) :
    Keeps R (if c then x else y) := by
  split
  · exact hx
  · exact hy

/-! ### Errors that cannot happen -/

/-- From `s` the body does not stop with the error `e`. -/
def Avoids (e : ε) (x : Tx σ ε α) (s : σ) : Prop := x s ≠ .error e

theorem avoids_pure {e : ε} (a : α) (s : σ) : Avoids e (pure a : Tx σ ε α) s := by
  intro h
  cases h

theorem avoids_lift {e : ε} {x : Except ε α} (h : x ≠ .error e) (s : σ) :
    Avoids e (liftM x : Tx σ ε α) s := by
  unfold Avoids
  rw [liftExcept_run]
  cases x with
  | ok a => exact fun he => nomatch he
  | error e' =>
    intro he
    cases he
    exact h rfl

theorem avoids_bind {e : ε} {x : Tx σ ε α} {f : α → Tx σ ε β} {s : σ} (hx : Avoids e x s)
    (hf : ∀ a s', x s = .ok (a, s') → Avoids e (f a) s') : Avoids e (x >>= f) s := by
  unfold Avoids at hx hf ⊢
  rw [bind_run]
  cases h : x s with
  | ok p => exact hf p.1 p.2 h
  | error e' =>
    rw [h] at hx
    intro he
    cases he
    exact hx rfl

/-- From `s` the body stops only with errors that `P` allows. -/
def FailsOnly (P : ε → Prop) (x : Tx σ ε α) (s : σ) : Prop := ∀ e, x s = .error e → P e

variable {P : ε → Prop}

theorem failsOnly_pure (a : α) (s : σ) : FailsOnly P (pure a : Tx σ ε α) s := by
  intro e h
  cases h

theorem failsOnly_throw {e : ε} (h : P e) (s : σ) : FailsOnly P (throw e : Tx σ ε α) s := by
  intro e' he
  cases he
  exact h

theorem failsOnly_get (s : σ) : FailsOnly P (get : Tx σ ε σ) s := by
  intro e h
  cases h

theorem failsOnly_lift {x : Except ε α} (h : ∀ e, x = .error e → P e) (s : σ) :
    FailsOnly P (liftM x : Tx σ ε α) s := by
  intro e he
  rw [liftExcept_run] at he
  cases x with
  | ok a => cases he
  | error e' =>
    cases he
    exact h e rfl

theorem failsOnly_bind {x : Tx σ ε α} {f : α → Tx σ ε β} {s : σ} (hx : FailsOnly P x s)
    (hf : ∀ a s', x s = .ok (a, s') → FailsOnly P (f a) s') : FailsOnly P (x >>= f) s := by
  intro e he
  rw [bind_run] at he
  cases h : x s with
  | ok p =>
    rw [h] at he
    exact hf p.1 p.2 h e he
  | error e' =>
    rw [h] at he
    cases he
    exact hx e h

/-- A first statement that succeeds. -/
theorem failsOnly_bind_ok {x : Tx σ ε α} {f : α → Tx σ ε β} {s s' : σ} {a : α}
    (hx : x s = .ok (a, s')) (hf : FailsOnly P (f a) s') : FailsOnly P (x >>= f) s := by
  intro e he
  rw [bind_run, hx] at he
  exact hf e he

theorem FailsOnly.mono {Q : ε → Prop} {x : Tx σ ε α} {s : σ} (h : FailsOnly P x s)
    (himp : ∀ e, P e → Q e) : FailsOnly Q x s := fun e he => himp e (h e he)

/-! ### Parts of the store -/

/-- On the part `f` of the store the body does what it does on the whole. -/
def Local (f : σ → σ) (x : Tx σ ε α) (s : σ) : Prop := x (f s) = (x s).map fun p => (p.1, f p.2)

variable {f : σ → σ}

theorem local_pure (a : α) (s : σ) : Local f (pure a : Tx σ ε α) s := rfl

theorem local_throw (e : ε) (s : σ) : Local f (throw e : Tx σ ε α) s := rfl

theorem local_lift (x : Except ε α) (s : σ) : Local f (liftM x : Tx σ ε α) s := by
  cases x <;> rfl

/-- What follows a read of the store must not tell the part from the whole. -/
theorem local_get {k : σ → Tx σ ε α} {s : σ} (hk : k (f s) = k s) (h : Local f (k s) s) :
    Local f (get >>= k) s := by
  change k (f s) (f s) = _
  rw [hk]
  exact h

theorem local_bind {x : Tx σ ε α} {k : α → Tx σ ε β} {s : σ} (hx : Local f x s)
    (hk : ∀ a s', x s = .ok (a, s') → Local f (k a) s') : Local f (x >>= k) s := by
  unfold Local at hx hk ⊢
  rw [bind_run, bind_run, hx]
  cases h : x s with
  | ok p => exact hk p.1 p.2 h
  | error e => rfl

theorem local_lift_bind {x : Except ε α} {k : α → Tx σ ε β} {s : σ}
    (h : ∀ a, x = .ok a → Local f (k a) s) : Local f (liftM x >>= k) s := by
  refine local_bind (local_lift x s) fun a s' hx => ?_
  rw [liftExcept_run] at hx
  cases x with
  | error e => cases hx
  | ok b =>
    cases hx
    exact h a rfl

end Tx

/-- Run a body as one transaction: an error leaves the store as it was. -/
def commit (t : Tx σ ε α) : Session σ ε α := fun s =>
  match t s with
  | .ok (a, s') => (.ok a, s')
  | .error e => (.error e, s)

/-- A read outside a transaction. -/
def query (f : σ → Except ε α) : Session σ ε α := fun s => (f s, s)

@[simp] theorem query_run (f : σ → Except ε α) (s : σ) : query f s = (f s, s) := rfl

theorem commit_ok {t : Tx σ ε α} {s s' : σ} {a : α} (h : t s = .ok (a, s')) :
    commit t s = (.ok a, s') := by
  simp [commit, h]

theorem commit_error {t : Tx σ ε α} {s : σ} {e : ε} (h : t s = .error e) :
    commit t s = (.error e, s) := by
  simp [commit, h]

/-- A committed transaction either succeeded with its store or changed nothing. -/
theorem commit_cases (t : Tx σ ε α) (s : σ) :
    (∃ a s', t s = .ok (a, s') ∧ commit t s = (.ok a, s')) ∨
      ∃ e, t s = .error e ∧ commit t s = (.error e, s) := by
  cases h : t s with
  | ok p => exact Or.inl ⟨p.1, p.2, rfl, commit_ok h⟩
  | error e => exact Or.inr ⟨e, rfl, commit_error h⟩

theorem commit_eq_ok {t : Tx σ ε α} {s s' : σ} {a : α} :
    commit t s = (.ok a, s') ↔ t s = .ok (a, s') := by
  constructor
  · intro h
    rcases commit_cases t s with ⟨b, u, ht, hc⟩ | ⟨e, -, hc⟩
    · cases hc.symm.trans h
      exact ht
    · cases hc.symm.trans h
  · exact commit_ok

theorem commit_answers {t : Tx σ ε α} {s : σ} {a : α} :
    (commit t s).1 = .ok a ↔ ∃ s', t s = .ok (a, s') := by
  rcases commit_cases t s with ⟨b, s', ht, hc⟩ | ⟨e, ht, hc⟩ <;> simp [hc, ht]

/-- A transaction that does not commit changes nothing. -/
theorem commit_unchanged {t : Tx σ ε α} {s : σ} (h : ∀ a, (commit t s).1 ≠ .ok a) :
    (commit t s).2 = s := by
  rcases commit_cases t s with ⟨a, s', -, hc⟩ | ⟨e, -, hc⟩
  · exact absurd (congrArg Prod.fst hc) (h a)
  · rw [hc]

namespace Session

theorem bind_run (x : Session σ ε α) (f : α → Session σ ε β) (s : σ) :
    (x >>= f) s = match x s with
      | (.ok a, s') => f a s'
      | (.error e, s') => (.error e, s') := by
  change (let p := x s; (ExceptT.bindCont f p.1) p.2) = _
  rcases x s with ⟨r, s'⟩
  cases r <;> rfl

@[simp] theorem pure_run (a : α) (s : σ) : (pure a : Session σ ε α) s = (.ok a, s) := rfl

@[simp] theorem throw_run (e : ε) (s : σ) : (throw e : Session σ ε α) s = (.error e, s) := rfl

@[simp] theorem liftExcept_run (x : Except ε α) (s : σ) :
    (liftM x : Session σ ε α) s = (x, s) := by
  cases x <;> rfl

@[simp] theorem modify_run (f : σ → σ) (s : σ) :
    (modify f : Session σ ε PUnit) s = (.ok ⟨⟩, f s) := rfl

/-- A session that answers ran its first part and then the rest. -/
theorem bind_ok {x : Session σ ε α} {f : α → Session σ ε β} {s s'' : σ} {b : β} :
    (x >>= f) s = (.ok b, s'') ↔ ∃ a s', x s = (.ok a, s') ∧ f a s' = (.ok b, s'') := by
  rw [bind_run]
  rcases x s with ⟨e | a, s'⟩
  · constructor
    · intro h
      cases h
    · rintro ⟨a, t, hp, -⟩
      cases hp
  · constructor
    · intro h
      exact ⟨a, s', rfl, h⟩
    · rintro ⟨a', t, hp, h⟩
      cases hp
      exact h

/-- A session that fails did so in its first part or in the rest. -/
theorem bind_error {x : Session σ ε α} {f : α → Session σ ε β} {s s'' : σ} {e : ε} :
    (x >>= f) s = (.error e, s'') ↔
      x s = (.error e, s'') ∨ ∃ a s', x s = (.ok a, s') ∧ f a s' = (.error e, s'') := by
  rw [bind_run]
  rcases x s with ⟨e' | a, s'⟩
  · constructor
    · intro h
      cases h
      exact Or.inl rfl
    · rintro (h | ⟨a, t, hp, -⟩)
      · cases h
        rfl
      · cases hp
  · constructor
    · intro h
      exact Or.inr ⟨a, s', rfl, h⟩
    · rintro (h | ⟨a', t, hp, h⟩)
      · cases h
      · cases hp
        exact h

/-- The handler of an error goes on from where the error left the store. -/
theorem tryCatch_run (x : Session σ ε α) (f : ε → Session σ ε α) (s : σ) :
    (tryCatch x f : Session σ ε α) s = match x s with
      | (.ok a, s') => (.ok a, s')
      | (.error e, s') => f e s' := by
  change (match (x s).1 with
    | .ok a => (pure (.ok a) : StateM σ (Except ε α))
    | .error e => f e) (x s).2 = _
  rcases x s with ⟨e | a, s'⟩ <;> rfl

/-- Report the errors of a session in another form. -/
def mapError {ε' : Type} (f : ε → ε') (x : Session σ ε α) : Session σ ε' α := fun s =>
  ((x s).1.mapError f, (x s).2)

theorem mapError_ok {ε' : Type} {f : ε → ε'} {x : Session σ ε α} {s s' : σ} {a : α} :
    mapError f x s = (.ok a, s') ↔ x s = (.ok a, s') := by
  unfold mapError
  rcases x s with ⟨e | b, t⟩
  · constructor <;> (intro h; cases h)
  · constructor <;> (intro h; cases h; rfl)

/-- A session goes on only after a conversion that succeeded. -/
theorem lift_bind_ok {x : Except ε α} {f : α → Session σ ε β} {s s' : σ} {b : β} :
    ((liftM x : Session σ ε α) >>= f) s = (.ok b, s') ↔ ∃ a, x = .ok a ∧ f a s = (.ok b, s') := by
  rw [bind_run, liftExcept_run]
  cases x with
  | ok a => simp
  | error e =>
    constructor
    · intro h
      cases h
    · rintro ⟨_, h, -⟩
      cases h

theorem commit_bind_ok {t : Tx σ ε α} {f : α → Session σ ε β} {s s' : σ} {a : α}
    (h : t s = .ok (a, s')) : (commit t >>= f) s = f a s' := by
  rw [bind_run, commit_ok h]

theorem commit_bind_error {t : Tx σ ε α} {f : α → Session σ ε β} {s : σ} {e : ε}
    (h : t s = .error e) : (commit t >>= f) s = (.error e, s) := by
  rw [bind_run, commit_error h]

/-! ### What a session may do to the store -/

/-- Running `x` from `s` changes the store as `R` allows, whatever `x` answers. -/
def Moves (R : σ → σ → Prop) (x : Session σ ε α) (s : σ) : Prop := R s (x s).2

theorem Moves.run {R : σ → σ → Prop} {x : Session σ ε α} {s s' : σ} {r : Except ε α}
    (h : Moves R x s) (hx : x s = (r, s')) : R s s' := by
  unfold Moves at h
  rw [hx] at h
  exact h

theorem moves_commit {R : σ → σ → Prop} {t : Tx σ ε α} {s : σ} (hrefl : R s s)
    (h : ∀ a s', t s = .ok (a, s') → R s s') : Moves R (commit t) s := by
  unfold Moves
  rcases commit_cases t s with ⟨a, s', ht, hc⟩ | ⟨e, -, hc⟩
  · rw [hc]
    exact h a s' ht
  · rw [hc]
    exact hrefl

theorem moves_lift {R : σ → σ → Prop} {x : Except ε α} {s : σ} (hrefl : R s s) :
    Moves R (liftM x : Session σ ε α) s := by
  unfold Moves
  rw [liftExcept_run]
  exact hrefl

theorem moves_mapError {R : σ → σ → Prop} {ε' : Type} {f : ε → ε'} {x : Session σ ε α} {s : σ}
    (h : Moves R x s) : Moves R (mapError f x) s := h

theorem moves_bind {R : σ → σ → Prop} (htrans : ∀ s t u, R s t → R t u → R s u)
    {x : Session σ ε α} {f : α → Session σ ε β} {s : σ} (hx : Moves R x s)
    (hf : ∀ a s', x s = (.ok a, s') → Moves R (f a) s') : Moves R (x >>= f) s := by
  unfold Moves at hx hf ⊢
  rw [bind_run]
  rcases hr : x s with ⟨e | a, s'⟩
  · rw [hr] at hx
    exact hx
  · rw [hr] at hx
    exact htrans s s' _ hx (hf a s' hr)

/-- An early return changes nothing. -/
theorem moves_unless {R : σ → σ → Prop} {c : Prop} [Decidable c] {e : ε} {f : Unit → Session σ ε α}
    {s : σ} (hrefl : R s s) (h : ¬c → Moves R (f ()) s) :
    Moves R (if c then (throw e : Session σ ε Unit) >>= f else f ()) s := by
  split
  · exact hrefl
  · exact h ‹_›

theorem moves_lift_bind {R : σ → σ → Prop} {x : Except ε α} {f : α → Session σ ε β} {s : σ}
    (hrefl : R s s) (h : ∀ a, x = .ok a → Moves R (f a) s) : Moves R (liftM x >>= f) s := by
  unfold Moves at h ⊢
  rw [bind_run, liftExcept_run]
  cases x with
  | ok a => exact h a rfl
  | error e => exact hrefl

/-- A session that only reads after its first part. -/
theorem moves_bind_read {R : σ → σ → Prop} {x : Session σ ε α} {f : α → Session σ ε β} {s : σ}
    (hx : Moves R x s) (hf : ∀ a s', (f a s').2 = s') : Moves R (x >>= f) s := by
  unfold Moves at hx ⊢
  rw [bind_run]
  rcases hr : x s with ⟨r, s'⟩
  rw [hr] at hx
  cases r with
  | ok a =>
    simp only [hf]
    exact hx
  | error e => exact hx

/-! ### Errors without a trace -/

/-- Where `x` stops with an error that `P` covers, it changed nothing. -/
def Traceless (P : ε → Prop) (x : Session σ ε α) (s : σ) : Prop :=
  ∀ e, (x s).1 = .error e → P e → (x s).2 = s

variable {P : ε → Prop}

/-- A session that never writes. -/
theorem traceless_read {x : Session σ ε α} {s : σ} (h : (x s).2 = s) : Traceless P x s :=
  fun _ _ _ => h

theorem traceless_mapError {ε' : Type} {f : ε → ε'} {P' : ε' → Prop} {x : Session σ ε α} {s : σ}
    (h : Traceless (fun _ => True) x s) : Traceless P' (mapError f x) s := by
  intro e he _
  unfold mapError at he ⊢
  rcases hx : (x s).1 with e' | a
  · exact h e' hx trivial
  · rw [hx] at he
    cases he

theorem traceless_commit (t : Tx σ ε α) (s : σ) : Traceless P (commit t) s := by
  intro e he _
  refine commit_unchanged fun a ha => ?_
  rw [he] at ha
  cases ha

theorem traceless_lift_bind {x : Except ε α} {f : α → Session σ ε β} {s : σ}
    (h : ∀ a, x = .ok a → Traceless P (f a) s) : Traceless P (liftM x >>= f) s := by
  intro e he hP
  rw [bind_run, liftExcept_run] at he ⊢
  cases x with
  | ok a => exact h a rfl e he hP
  | error e' => rfl

/-- After a first part that leaves no trace, only errors of the rest can leave one. -/
theorem traceless_bind {x : Session σ ε α} {f : α → Session σ ε β} {s : σ} (hx : Traceless P x s)
    (hf : ∀ a s', x s = (.ok a, s') → ∀ e, (f a s').1 = .error e → P e → (f a s').2 = s) :
    Traceless P (x >>= f) s := by
  intro e he hP
  rw [bind_run] at he ⊢
  rcases hr : x s with ⟨e' | a, s'⟩
  · rw [hr] at he
    cases he
    have hsame := hx e
    rw [hr] at hsame
    exact hsame rfl hP
  · rw [hr] at he
    exact hf a s' hr e he hP

/-- A session that answers after its first part leaves no trace. -/
theorem traceless_bind_ok {x : Session σ ε α} {f : α → Session σ ε β} {s : σ}
    (hx : Traceless P x s) (hf : ∀ a s', x s = (.ok a, s') → ∃ b, (f a s').1 = .ok b) :
    Traceless P (x >>= f) s := by
  refine traceless_bind hx fun a s' hr e he _ => ?_
  obtain ⟨b, hb⟩ := hf a s' hr
  cases hb.symm.trans he

/-- A session whose first part is a transaction and that answers after its commit. -/
theorem traceless_commit_bind {t : Tx σ ε α} {f : α → Session σ ε β} {s : σ}
    (hf : ∀ a s', t s = .ok (a, s') → ∃ b, (f a s').1 = .ok b) :
    Traceless P (commit t >>= f) s :=
  traceless_bind_ok (traceless_commit t s) fun a s' h => hf a s' (commit_eq_ok.mp h)

/-! ### Parts of the store -/

/-- On the part `f` of the store the session does what it does on the whole. -/
def Local (f : σ → σ) (x : Session σ ε α) (s : σ) : Prop := x (f s) = ((x s).1, f (x s).2)

variable {f : σ → σ}

theorem local_pure (a : α) (s : σ) : Local f (pure a : Session σ ε α) s := rfl

theorem local_query {q : σ → Except ε α} {s : σ} (h : q (f s) = q s) : Local f (query q) s := by
  unfold Local
  rw [query_run, query_run, h]

theorem local_commit {t : Tx σ ε α} {s : σ} (h : Tx.Local f t s) : Local f (commit t) s := by
  unfold Local
  rcases commit_cases t s with ⟨a, s', ht, hc⟩ | ⟨e, ht, hc⟩
  · rw [hc]
    exact commit_ok (h.trans (by rw [ht]; rfl))
  · rw [hc]
    exact commit_error (h.trans (by rw [ht]; rfl))

theorem local_bind {x : Session σ ε α} {k : α → Session σ ε β} {s : σ} (hx : Local f x s)
    (hk : ∀ a s', x s = (.ok a, s') → Local f (k a) s') : Local f (x >>= k) s := by
  unfold Local at hx hk ⊢
  rw [bind_run, bind_run, hx]
  rcases h : x s with ⟨e | a, s'⟩
  · rfl
  · exact hk a s' h

theorem local_lift_bind {x : Except ε α} {k : α → Session σ ε β} {s : σ}
    (h : ∀ a, x = .ok a → Local f (k a) s) : Local f (liftM x >>= k) s := by
  refine local_bind ?_ fun a s' hx => ?_
  · cases x <;> rfl
  · rw [liftExcept_run] at hx
    obtain ⟨rfl, rfl⟩ := Prod.mk.inj hx
    exact h a rfl

end Session

end Transaction
