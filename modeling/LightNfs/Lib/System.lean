import Mathlib

/-!
# Systems driven by events

A state, events, and what each event does to the state. A run is a list of events; a guard says which
events a run may contain, given the state each of them finds.
-/

/-- `step state event` is the state after the event. -/
structure System (σ ε : Type) where
  step : σ → ε → σ

namespace System

variable {σ ε : Type} (m : System σ ε)

def run (s : σ) (es : List ε) : σ := es.foldl m.step s

@[simp] theorem run_nil (s : σ) : m.run s [] = s := rfl

@[simp] theorem run_cons (s : σ) (e : ε) (es : List ε) : m.run s (e :: es) = m.run (m.step s e) es := rfl

theorem run_append (s : σ) (es es' : List ε) : m.run s (es ++ es') = m.run (m.run s es) es' := List.foldl_append

/-- Every event of the run meets the guard in the state it happens in. -/
def Meets (guard : σ → ε → Prop) (s : σ) : List ε → Prop
  | [] => True
  | e :: es => guard s e ∧ Meets guard (m.step s e) es

instance instDecidableMeets (guard : σ → ε → Prop) [∀ s e, Decidable (guard s e)] (s : σ) :
    ∀ es, Decidable (m.Meets guard s es)
  | [] => isTrue trivial
  | e :: es =>
    have := instDecidableMeets guard (m.step s e) es
    inferInstanceAs (Decidable (guard s e ∧ m.Meets guard (m.step s e) es))

variable {m}

theorem meets_append {guard : σ → ε → Prop} {s : σ} {es es' : List ε} :
    m.Meets guard s (es ++ es') ↔ m.Meets guard s es ∧ m.Meets guard (m.run s es) es' := by
  induction es generalizing s with
  | nil => simp [Meets]
  | cons e es ih => simp [Meets, ih, and_assoc]

/-- What one event preserves, every run that meets the guard preserves. -/
theorem run_keeps {guard : σ → ε → Prop} {Inv : σ → Prop} (hstep : ∀ s e, Inv s → guard s e → Inv (m.step s e))
    {s : σ} (hinit : Inv s) {es : List ε} (hes : m.Meets guard s es) : Inv (m.run s es) := by
  induction es generalizing s with
  | nil => exact hinit
  | cons e es ih => exact ih (hstep s e hinit hes.1) hes.2

end System
