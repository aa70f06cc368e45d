import Mathlib.Logic.Relation
import Mathlib.Tactic.Common

/-! Programs that call out to a shared world, one request at a time, while others act in between.
`rely` is what the others may do between two calls, `handle` what one call may answer and change.
`Meets` is the precondition under which every interleaving keeps every call safe and ends in the
postcondition; it has one rule per construct and one soundness theorem over whole interleavings. -/
namespace Interleaving

/-- A finite tree of requests with one continuation for each possible reply. -/
inductive Program (Req : Type) (Rep : Req → Type) (α : Type) : Type
  | done (a : α) : Program Req Rep α
  | call (q : Req) (k : Rep q → Program Req Rep α) : Program Req Rep α

namespace Program

variable {Req : Type} {Rep : Req → Type} {α β ε : Type}

def bind : Program Req Rep α → (α → Program Req Rep β) → Program Req Rep β
  | .done a, f => f a
  | .call q k, f => .call q fun r => (k r).bind f

instance : Monad (Program Req Rep) where
  pure := .done
  bind := bind

@[simp] theorem pure_eq (a : α) : (pure a : Program Req Rep α) = .done a := rfl

@[simp] theorem done_bind (a : α) (f : α → Program Req Rep β) : (.done a >>= f) = f a := rfl

@[simp] theorem call_bind (q : Req) (k : Rep q → Program Req Rep α) (f : α → Program Req Rep β) :
    (Program.call q k >>= f) = .call q fun r => k r >>= f := rfl

/-- A single request. -/
def perform (q : Req) : Program Req Rep (Rep q) := .call q .done

section Run

variable {ω : Type} (serve : ω → (q : Req) → Rep q × ω)

/-- The program alone with the world: `serve` answers each call. -/
def run : Program Req Rep α → ω → α × ω
  | .done a, w => (a, w)
  | .call q k, w => (k (serve w q).1).run (serve w q).2

theorem run_bind (p : Program Req Rep α) (f : α → Program Req Rep β) (w : ω) :
    (p >>= f).run serve w = (f (p.run serve w).1).run serve (p.run serve w).2 := by
  induction p generalizing w with
  | done a => rfl
  | call q k ih => exact ih (serve w q).1 (serve w q).2

@[simp] theorem run_perform (q : Req) (w : ω) : (perform q).run serve w = serve w q := rfl

/-- An error skips the rest of the program. -/
theorem run_except_bind (x : ExceptT ε (Program Req Rep) α)
    (f : α → ExceptT ε (Program Req Rep) β) (w : ω) :
    (x >>= f).run.run serve w = match x.run.run serve w with
      | (.ok a, w') => (f a).run.run serve w'
      | (.error e, w') => (.error e, w') := by
  change (x.run >>= ExceptT.bindCont f).run serve w = _
  rw [run_bind]
  rcases x.run.run serve w with ⟨r, w'⟩
  cases r <;> rfl

end Run

end Program

open Program

section Rules

variable {Req : Type} {Rep : Req → Type} {ω α β ε : Type}
variable (rely : ω → ω → Prop) (handle : ω → (q : Req) → Rep q → ω → Prop)
variable (safe : Req → ω → Prop)

/-- From `w`, whatever the others do, every call of the program is safe and its result meets
`post`. -/
def Meets (post : α → ω → Prop) : Program Req Rep α → ω → Prop
  | .done a, w => ∀ w', rely w w' → post a w'
  | .call q k, w => ∀ w', rely w w' →
      safe q w' ∧ ∀ r w'', handle w' q r w'' → Meets post (k r) w''

/-- One step of an interleaving: the others move, or the program performs its next call. -/
inductive Step : Program Req Rep α × ω → Program Req Rep α × ω → Prop
  | env (p : Program Req Rep α) {w w' : ω} : rely w w' → Step (p, w) (p, w')
  | act {q : Req} {k : Rep q → Program Req Rep α} {w w' : ω} {r : Rep q} :
      handle w q r w' → Step (.call q k, w) (k r, w')

variable {rely handle safe} {post post' : α → ω → Prop}

/-- Alone with the world is one of the interleavings. -/
theorem run_steps {serve : ω → (q : Req) → Rep q × ω}
    (hserve : ∀ w q, handle w q (serve w q).1 (serve w q).2) (p : Program Req Rep α) (w : ω) :
    Relation.ReflTransGen (Step rely handle) (p, w)
      (.done (p.run serve w).1, (p.run serve w).2) := by
  induction p generalizing w with
  | done a => exact .refl
  | call q k ih => exact .head (.act (hserve w q)) (ih (serve w q).1 (serve w q).2)

theorem Meets.consequence {p : Program Req Rep α} {w : ω}
    (h : Meets rely handle safe post p w) (himp : ∀ a w, post a w → post' a w) :
    Meets rely handle safe post' p w := by
  induction p generalizing w with
  | done a => exact fun w' hw => himp _ _ (h w' hw)
  | call q k ih =>
    intro w' hw
    obtain ⟨hsafe, hk⟩ := h w' hw
    exact ⟨hsafe, fun r w'' hr => ih r (hk r w'' hr)⟩

/-- The others cannot break the precondition. -/
theorem Meets.stable (htrans : ∀ u v w, rely u v → rely v w → rely u w)
    {p : Program Req Rep α} {w w' : ω} (h : Meets rely handle safe post p w) (hw : rely w w') :
    Meets rely handle safe post p w' := by
  cases p with
  | done a => exact fun w'' hw' => h w'' (htrans _ _ _ hw hw')
  | call q k => exact fun w'' hw' => h w'' (htrans _ _ _ hw hw')

theorem Meets.act (hrefl : ∀ w, rely w w) {q : Req} {k : Rep q → Program Req Rep α} {w w' : ω}
    {r : Rep q} (h : Meets rely handle safe post (.call q k) w) (hr : handle w q r w') :
    safe q w ∧ Meets rely handle safe post (k r) w' :=
  ⟨(h w (hrefl w)).1, (h w (hrefl w)).2 r w' hr⟩

theorem meets_done {a : α} {w : ω} (h : ∀ w', rely w w' → post a w') :
    Meets rely handle safe post (.done a : Program Req Rep α) w := h

/-- Sequencing: the rest starts where the first part's postcondition holds. -/
theorem meets_bind (hrefl : ∀ w, rely w w) {post : β → ω → Prop} {p : Program Req Rep α}
    {f : α → Program Req Rep β} {w : ω}
    (h : Meets rely handle safe (fun a w => Meets rely handle safe post (f a) w) p w) :
    Meets rely handle safe post (p >>= f) w := by
  induction p generalizing w with
  | done a => exact h w (hrefl w)
  | call q k ih =>
    intro w' hw
    obtain ⟨hsafe, hk⟩ := h w' hw
    exact ⟨hsafe, fun r w'' hr => ih r (hk r w'' hr)⟩

theorem meets_perform {q : Req} {post : Rep q → ω → Prop} {w : ω}
    (h : ∀ w', rely w w' → safe q w' ∧
      ∀ r w'', handle w' q r w'' → ∀ w₃, rely w'' w₃ → post r w₃) :
    Meets rely handle safe post (perform q) w := h

/-- Sequencing for programs that may fail: an error skips the rest. -/
theorem meets_except_bind (hrefl : ∀ w, rely w w) {post : Except ε β → ω → Prop}
    {x : ExceptT ε (Program Req Rep) α} {f : α → ExceptT ε (Program Req Rep) β} {w : ω}
    (h : Meets rely handle safe
      (fun r w => match r with
        | .ok a => Meets rely handle safe post (f a).run w
        | .error e => ∀ w', rely w w' → post (.error e) w') x.run w) :
    Meets rely handle safe post (x >>= f).run w := by
  change Meets rely handle safe post (x.run >>= ExceptT.bindCont f) w
  apply meets_bind hrefl
  apply h.consequence
  intro r w' hr
  cases r with
  | ok a => exact hr
  | error e => exact hr

/-- Soundness: the precondition travels along every interleaving. -/
theorem Meets.reach (hrefl : ∀ w, rely w w) (htrans : ∀ u v w, rely u v → rely v w → rely u w)
    {p p' : Program Req Rep α} {w w' : ω} (h : Meets rely handle safe post p w)
    (hrun : Relation.ReflTransGen (Step rely handle) (p, w) (p', w')) :
    Meets rely handle safe post p' w' := by
  generalize hc : (p', w') = c at hrun
  induction hrun generalizing p' w' with
  | refl =>
    cases hc
    exact h
  | tail _ hlast ih =>
    subst hc
    cases hlast with
    | env _ hw =>
      have hprev := ih rfl
      exact hprev.stable htrans hw
    | act hr =>
      have hprev := ih rfl
      exact (hprev.act hrefl hr).2

/-- Every interleaving that ends does so in the postcondition. -/
theorem Meets.result (hrefl : ∀ w, rely w w) (htrans : ∀ u v w, rely u v → rely v w → rely u w)
    {p : Program Req Rep α} {a : α} {w w' : ω} (h : Meets rely handle safe post p w)
    (hrun : Relation.ReflTransGen (Step rely handle) (p, w) (.done a, w')) : post a w' :=
  h.reach hrefl htrans hrun w' (hrefl w')

/-- What safe calls keep holds at every moment of every interleaving. -/
theorem Meets.invariant (hrefl : ∀ w, rely w w) (htrans : ∀ u v w, rely u v → rely v w → rely u w)
    {I : ω → Prop} (hrely : ∀ w w', I w → rely w w' → I w')
    (hcall : ∀ w q r w', I w → safe q w → handle w q r w' → I w') {p p' : Program Req Rep α}
    {w w' : ω} (h : Meets rely handle safe post p w) (hw : I w)
    (hrun : Relation.ReflTransGen (Step rely handle) (p, w) (p', w')) : I w' := by
  generalize hc : (p', w') = c at hrun
  induction hrun generalizing p' w' with
  | refl =>
    cases hc
    exact hw
  | tail hprefix hlast ih =>
    subst hc
    cases hlast with
    | env _ hstep => exact hrely _ _ (ih rfl) hstep
    | act hr =>
      have hreach := h.reach hrefl htrans hprefix
      exact hcall _ _ _ _ (ih rfl) (hreach.act hrefl hr).1 hr

end Rules

end Interleaving
