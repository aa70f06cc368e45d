import Mathlib.Tactic.Common

/-! Runs of a partial step function. A step that is not enabled is `none`; a run is any finite
sequence of enabled steps, each of which meets a side condition on the state it starts from. -/
namespace Runs

variable {σ ε : Type*} {step : σ → ε → Option σ} {ok ok' : σ → ε → Prop}

/-- `Run step ok s t`: some sequence of enabled steps, each meeting `ok`, leads from `s` to `t`. -/
inductive Run (step : σ → ε → Option σ) (ok : σ → ε → Prop) : σ → σ → Prop
  | refl (s : σ) : Run step ok s s
  | tail {s t u : σ} (e : ε) : Run step ok s t → ok t e → step t e = some u → Run step ok s u

/-- No step is excluded. -/
def Always : σ → ε → Prop := fun _ _ => True

theorem Run.mono {s t : σ} (h : Run step ok s t) (himp : ∀ s e, ok s e → ok' s e) :
    Run step ok' s t := by
  induction h with
  | refl => exact .refl _
  | tail e _ hok hs ih => exact .tail e ih (himp _ _ hok) hs

theorem Run.always {s t : σ} (h : Run step ok s t) : Run step Always s t :=
  h.mono fun _ _ _ => trivial

theorem Run.trans {s t u : σ} (h₁ : Run step ok s t) (h₂ : Run step ok t u) : Run step ok s u := by
  induction h₂ with
  | refl => exact h₁
  | tail e _ hok hs ih => exact .tail e ih hok hs

theorem Run.single {s t : σ} (e : ε) (hok : ok s e) (hs : step s e = some t) : Run step ok s t :=
  .tail e (.refl s) hok hs

/-- What every step keeps, every run keeps. -/
theorem Run.invariant {P : σ → Prop} {s t : σ} (h : Run step ok s t)
    (hstep : ∀ s e t, P s → ok s e → step s e = some t → P t) (hs : P s) : P t := by
  induction h with
  | refl => exact hs
  | tail e _ hok he ih => exact hstep _ e _ ih hok he

/-- A reflexive and transitive relation that every step from an invariant state respects relates
the two ends of a run. -/
theorem Run.related {P : σ → Prop} {R : σ → σ → Prop} {s t : σ} (h : Run step ok s t)
    (hrefl : ∀ s, R s s) (htrans : ∀ s t u, R s t → R t u → R s u)
    (hstep : ∀ s e t, P s → ok s e → step s e = some t → P t ∧ R s t) (hs : P s) : R s t := by
  have hboth : P t ∧ R s t := by
    induction h with
    | refl => exact ⟨hs, hrefl _⟩
    | tail e _ hok he ih =>
      obtain ⟨hp, hr⟩ := hstep _ e _ ih.1 hok he
      exact ⟨hp, htrans _ _ _ ih.2 hr⟩
  exact hboth.2

/-! ### Replaying a list of steps -/

def exec (step : σ → ε → Option σ) : σ → List ε → Option σ
  | s, [] => some s
  | s, e :: es => (step s e).bind fun t => exec step t es

theorem run_of_exec {s t : σ} {es : List ε} (hok : ∀ s, ∀ e ∈ es, ok s e)
    (h : exec step s es = some t) : Run step ok s t := by
  induction es generalizing s with
  | nil =>
    cases h
    exact .refl _
  | cons e es ih =>
    obtain ⟨u, hu, ht⟩ := Option.bind_eq_some_iff.mp h
    have hfirst : Run step ok s u := .single e (hok s e List.mem_cons_self) hu
    exact hfirst.trans (ih (fun s e' he' => hok s e' (List.mem_cons_of_mem _ he')) ht)

/-- The step function that refuses the steps which do not meet a condition. -/
def guarded (step : σ → ε → Option σ) (p : σ → ε → Bool) (s : σ) (e : ε) : Option σ :=
  if p s e then step s e else none

theorem run_of_guarded {p : σ → ε → Bool} {s t : σ} {es : List ε}
    (hok : ∀ s e, p s e = true → ok s e) (h : exec (guarded step p) s es = some t) :
    Run step ok s t := by
  induction es generalizing s with
  | nil =>
    cases h
    exact .refl _
  | cons e es ih =>
    obtain ⟨u, hu, ht⟩ := Option.bind_eq_some_iff.mp h
    unfold guarded at hu
    split at hu
    · rename_i hp
      exact (Run.single e (hok s e hp) hu).trans (ih ht)
    · cases hu

/-- A replay that ends in a state with a decidable property is a run to such a state. -/
theorem exists_run_of_exec {s : σ} {es : List ε} {p : σ → Bool} (hok : ∀ s, ∀ e ∈ es, ok s e)
    (h : (exec step s es).any p = true) : ∃ t, Run step ok s t ∧ p t = true := by
  cases ht : exec step s es with
  | none => simp [ht] at h
  | some t => exact ⟨t, run_of_exec hok ht, by simpa [ht] using h⟩

end Runs
