import Mathlib.Logic.Basic

/-!
# Runs of a deterministic transition system

A system is a step function of a state and an event. A property of every run is an invariant of
the steps; where it needs a condition, the condition is asked of each step at the state it is
taken in.
-/

namespace ChatgptArchive.Run

variable {σ ε : Type*} (step : σ → ε → σ) {cond : σ → ε → Prop} {events : List ε} {P : σ → Prop}

def run (s : σ) (events : List ε) : σ := events.foldl step s

/-- Every step of the run is taken in a state and with an event that satisfy `cond`. -/
def Meets (cond : σ → ε → Prop) : σ → List ε → Prop
  | _, [] => True
  | s, e :: events => cond s e ∧ Meets cond (step s e) events

def decideMeets {cond : σ → ε → Prop} (decide : ∀ s e, Decidable (cond s e)) :
    ∀ (s : σ) (events : List ε), Decidable (Meets step cond s events)
  | _, [] => isTrue trivial
  | s, e :: events => @instDecidableAnd _ _ (decide s e) (decideMeets decide (step s e) events)

instance {cond : σ → ε → Prop} [h : ∀ s e, Decidable (cond s e)] (s : σ) (events : List ε) :
    Decidable (Meets step cond s events) := decideMeets step h s events

variable {step}

theorem Meets.of_forall {cond : ε → Prop} (h : ∀ e ∈ events, cond e) (s : σ) :
    Meets step (fun _ => cond) s events := by
  induction events generalizing s with
  | nil => trivial
  | cons e events ih =>
    exact ⟨h e List.mem_cons_self, ih (fun e he => h e (List.mem_cons_of_mem _ he)) _⟩

theorem Meets.of_steps (h : ∀ s e, cond s e) (s : σ) (events : List ε) :
    Meets step cond s events := by
  induction events generalizing s with
  | nil => trivial
  | cons e events ih => exact ⟨h s e, ih _⟩

/-- An invariant of the steps that satisfy a condition holds after every run that meets it. -/
theorem run_invariant (hstep : ∀ s e, P s → cond s e → P (step s e)) {s : σ} {events : List ε}
    (hs : P s) (hm : Meets step cond s events) : P (run step s events) := by
  induction events generalizing s with
  | nil => exact hs
  | cons e events ih => exact ih (hstep s e hs hm.1) hm.2

theorem run_preserves (hstep : ∀ s e, P s → P (step s e)) {s : σ} {events : List ε} (hs : P s) :
    P (run step s events) := by
  induction events generalizing s with
  | nil => exact hs
  | cons e events ih => exact ih (hstep s e hs)

theorem run_measure {m : σ → Nat} (hstep : ∀ s e, m (step s e) ≤ m s - 1) (s : σ)
    (events : List ε) : m (run step s events) ≤ m s - events.length := by
  induction events generalizing s with
  | nil => exact Nat.le_refl _
  | cons e events ih =>
    have hlater := ih (step s e)
    have hfirst := hstep s e
    rw [List.length_cons]
    change m (run step (step s e) events) ≤ _
    omega

theorem meets_append {s : σ} {events' : List ε} :
    Meets step cond s (events ++ events') ↔
      Meets step cond s events ∧ Meets step cond (run step s events) events' := by
  induction events generalizing s with
  | nil => exact ⟨fun h => ⟨trivial, h⟩, And.right⟩
  | cons e events ih =>
    rw [List.cons_append, Meets, Meets, ih, and_assoc]
    rfl

theorem run_append (s : σ) (events events' : List ε) :
    run step s (events ++ events') = run step (run step s events) events' :=
  List.foldl_append

end ChatgptArchive.Run
