import Mathlib.Data.List.Basic
import Mathlib.Logic.Relation
import Mathlib.Tactic.Common

/-! Parties that share a world. Each party relies on what the others may do; if what every party
does is what the others rely on, the assertions of all of them hold in every interleaving, whoever
joins on the way. -/
namespace Interleaving

variable {σ ω : Type}

section One

variable (rely : σ → ω → ω → Prop) (act : σ × ω → σ × ω → Prop)

/-- A step of one party among others. -/
inductive Among : σ × ω → σ × ω → Prop
  | other (s : σ) {w w' : ω} (step : rely s w w') : Among (s, w) (s, w')
  | act {s s' : σ} {w w' : ω} (step : act (s, w) (s', w')) : Among (s, w) (s', w')

/-- The party keeps `J`, and the others cannot break it. -/
structure Kept (J : σ → ω → Prop) : Prop where
  other : ∀ s w w', J s w → rely s w w' → J s w'
  act : ∀ s w s' w', J s w → act (s, w) (s', w') → J s' w'

variable {rely act}

theorem Kept.run {J : σ → ω → Prop} (h : Kept rely act J) {s s' : σ} {w w' : ω} (hs : J s w)
    (hrun : Relation.ReflTransGen (Among rely act) (s, w) (s', w')) : J s' w' := by
  generalize hc : (s', w') = c at hrun
  induction hrun generalizing s' w' with
  | refl =>
    cases hc
    exact hs
  | tail _ hlast ih =>
    subst hc
    cases hlast with
    | other _ hstep => exact h.other _ _ _ (ih rfl) hstep
    | act hstep => exact h.act _ _ _ _ (ih rfl) hstep

end One

section Many

variable (rely : σ → ω → ω → Prop) (act : σ × ω → σ × ω → Prop) (env : List σ → ω → ω → Prop)
  (birth : ω → σ → ω → Prop)

/-- A step of a crowd: of the environment, of one party, or of one that joins. -/
inductive Crowd : List σ × ω → List σ × ω → Prop
  | env (l : List σ) {w w' : ω} (step : env l w w') : Crowd (l, w) (l, w')
  | act (l₁ l₂ : List σ) (s s' : σ) (w w' : ω) (step : act (s, w) (s', w')) :
      Crowd (l₁ ++ s :: l₂, w) (l₁ ++ s' :: l₂, w')
  | birth (l : List σ) {s : σ} {w w' : ω} (step : birth w s w') : Crowd (l, w) (l ++ [s], w')

/-- Parties that are `apart` from each other respect what the others rely on. -/
structure Composes (J : σ → ω → Prop) (apart : σ → σ → Prop) (G : ω → Prop) : Prop where
  kept : Kept rely act J
  symm : ∀ s o, apart s o → apart o s
  env : ∀ l w w', G w → env l w w' → G w' ∧ ∀ s ∈ l, J s w → rely s w w'
  act : ∀ s w s' w', G w → J s w → act (s, w) (s', w') →
    G w' ∧ ∀ o, apart s o → J o w → rely o w w' ∧ apart s' o
  birth : ∀ w s w', G w → birth w s w' →
    G w' ∧ J s w' ∧ ∀ o, J o w → rely o w w' ∧ apart o s

/-- What holds of a crowd. -/
structure Composed (J : σ → ω → Prop) (apart : σ → σ → Prop) (G : ω → Prop)
    (c : List σ × ω) : Prop where
  world : G c.2
  parties : ∀ s ∈ c.1, J s c.2
  apart : c.1.Pairwise apart

variable {rely act env birth} {J : σ → ω → Prop} {apart : σ → σ → Prop} {G : ω → Prop}

theorem pairwise_swap (hsymm : ∀ s o, apart s o → apart o s) {l₁ l₂ : List σ} {s s' : σ}
    (h : (l₁ ++ s :: l₂).Pairwise apart) (hs : ∀ o ∈ l₁ ++ l₂, apart s o → apart s' o) :
    (l₁ ++ s' :: l₂).Pairwise apart := by
  rw [List.pairwise_append, List.pairwise_cons] at h ⊢
  obtain ⟨h₁, ⟨hs₂, h₂⟩, hcross⟩ := h
  refine ⟨h₁, ⟨fun o ho => ?_, h₂⟩, fun o ho x hx => ?_⟩
  · exact hs o (List.mem_append_right _ ho) (hs₂ o ho)
  · rcases List.mem_cons.mp hx with rfl | hx
    · exact hsymm _ _ (hs o (List.mem_append_left _ ho)
        (hsymm _ _ (hcross o ho s List.mem_cons_self)))
    · exact hcross o ho x (List.mem_cons_of_mem _ hx)

/-- Apart from the member itself, a list with distinct places. -/
theorem apart_of_split (hsymm : ∀ s o, apart s o → apart o s) {l₁ l₂ : List σ} {s : σ}
    (h : (l₁ ++ s :: l₂).Pairwise apart) : ∀ o ∈ l₁ ++ l₂, apart s o := by
  rw [List.pairwise_append, List.pairwise_cons] at h
  intro o ho
  rcases List.mem_append.mp ho with ho | ho
  · exact hsymm _ _ (h.2.2 o ho s List.mem_cons_self)
  · exact h.2.1.1 o ho

theorem Composes.step (h : Composes rely act env birth J apart G) {c c' : List σ × ω}
    (hc : Composed J apart G c) (hstep : Crowd act env birth c c') : Composed J apart G c' := by
  cases hstep with
  | env l step =>
    obtain ⟨hworld, hrely⟩ := h.env _ _ _ hc.world step
    exact ⟨hworld, fun s hs => h.kept.other _ _ _ (hc.parties s hs)
      (hrely s hs (hc.parties s hs)), hc.apart⟩
  | act l₁ l₂ s s' w w' step =>
    have hself : J s w := hc.parties s (List.mem_append_right _ List.mem_cons_self)
    obtain ⟨hworld, hothers⟩ := h.act _ _ _ _ hc.world hself step
    have hapart := apart_of_split h.symm hc.apart
    have hparty : ∀ o ∈ l₁ ++ l₂, J o w := by
      intro o ho
      apply hc.parties o
      rcases List.mem_append.mp ho with ho | ho
      · exact List.mem_append_left _ ho
      · exact List.mem_append_right _ (List.mem_cons_of_mem _ ho)
    refine ⟨hworld, fun o ho => ?_, pairwise_swap h.symm hc.apart fun o ho ha =>
      (hothers o ha (hparty o ho)).2⟩
    have hcases : o = s' ∨ o ∈ l₁ ++ l₂ := by
      rcases List.mem_append.mp ho with ho | ho
      · exact Or.inr (List.mem_append_left _ ho)
      · exact (List.mem_cons.mp ho).imp_right (List.mem_append_right _)
    rcases hcases with rfl | ho
    · exact h.kept.act _ _ _ _ hself step
    · exact h.kept.other _ _ _ (hparty o ho) (hothers o (hapart o ho) (hparty o ho)).1
  | birth l step =>
    obtain ⟨hworld, hborn, hothers⟩ := h.birth _ _ _ hc.world step
    refine ⟨hworld, fun o ho => ?_, ?_⟩
    · rcases List.mem_append.mp ho with ho | ho
      · exact h.kept.other _ _ _ (hc.parties o ho) (hothers o (hc.parties o ho)).1
      · rw [List.mem_singleton.mp ho]
        exact hborn
    · rw [List.pairwise_append]
      refine ⟨hc.apart, List.pairwise_singleton _ _, fun o ho x hx => ?_⟩
      rw [List.mem_singleton.mp hx]
      exact (hothers o (hc.parties o ho)).2

/-- The assertions of all parties hold in every interleaving. -/
theorem Composes.run (h : Composes rely act env birth J apart G) {c c' : List σ × ω}
    (hc : Composed J apart G c) (hrun : Relation.ReflTransGen (Crowd act env birth) c c') :
    Composed J apart G c' := by
  induction hrun with
  | refl => exact hc
  | tail _ hlast ih => exact h.step ih hlast

end Many

end Interleaving
