import Mathlib

/-!
# Runs of a fallible transition system

A system takes labelled steps that either fail or produce a next state and an
output.  A run lists the outputs of its steps, the latest first, and every one
of its steps meets a given condition on the state before it.
-/

namespace Gmsol

universe u v w x

variable {σ : Type u} {α : Type v} {ε : Type w} {φ : Type x}

/-- `Run step allowed start outputs finish`: some sequence of allowed,
successful steps leads from `start` to `finish` and yields `outputs`. -/
inductive Run (step : σ → α → Except ε (σ × φ)) (allowed : σ → α → Prop)
    (start : σ) : List φ → σ → Prop
  | refl : Run step allowed start [] start
  | tail {outputs : List φ} {before after : σ} {label : α} {output : φ}
      (run : Run step allowed start outputs before)
      (allowed_label : allowed before label)
      (stepped : step before label = .ok (after, output)) :
      Run step allowed start (output :: outputs) after

variable {step : σ → α → Except ε (σ × φ)} {allowed : σ → α → Prop}
  {start finish : σ} {outputs : List φ}

/-- An invariant of the outputs so far and the state reached: it holds at the
start and every allowed step keeps it. -/
theorem Run.invariant (run : Run step allowed start outputs finish)
    (holds : List φ → σ → Prop) (initial : holds [] start)
    (preserved : ∀ outputs before label after output,
      holds outputs before → allowed before label →
      step before label = .ok (after, output) → holds (output :: outputs) after) :
    holds outputs finish := by
  induction run with
  | refl => exact initial
  | tail run allowed_label stepped holdsBefore =>
      exact preserved _ _ _ _ _ holdsBefore allowed_label stepped

/-- An invariant of the state alone. -/
theorem Run.preserves {holds : σ → Prop}
    (run : Run step allowed start outputs finish) (initial : holds start)
    (preserved : ∀ before label after output, holds before →
      allowed before label → step before label = .ok (after, output) →
      holds after) : holds finish :=
  run.invariant (fun _ state => holds state) initial
    fun _ before label after output => preserved before label after output

/-- A weaker condition on the steps admits every run of a stronger one. -/
theorem Run.mono {weaker : σ → α → Prop}
    (run : Run step allowed start outputs finish)
    (implied : ∀ state label, allowed state label → weaker state label) :
    Run step weaker start outputs finish := by
  induction run with
  | refl => exact .refl
  | tail run allowed_label stepped weakerRun =>
      exact .tail weakerRun (implied _ _ allowed_label) stepped

section Perform

variable [∀ state label, Decidable (allowed state label)]

/-- Performs labels one after the other, from a state and the outputs that led
to it. -/
def perform (step : σ → α → Except ε (σ × φ)) (allowed : σ → α → Prop)
    [∀ state label, Decidable (allowed state label)] :
    List φ × σ → List α → Option (List φ × σ)
  | done, [] => some done
  | done, label :: labels =>
    if allowed done.2 label then
      match step done.2 label with
      | .ok next => perform step allowed (next.2 :: done.1, next.1) labels
      | .error _ => none
    else none

/-- Performing labels extends a run. -/
theorem Run.perform {done result : List φ × σ} {labels : List α}
    (run : Run step allowed start done.1 done.2)
    (performed : perform step allowed done labels = some result) :
    Run step allowed start result.1 result.2 := by
  induction labels generalizing done with
  | nil =>
      obtain rfl : done = result := by simpa [Gmsol.perform] using performed
      exact run
  | cons label labels extended =>
      simp only [Gmsol.perform] at performed
      split_ifs at performed with hallowed
      split at performed
      · rename_i next stepped
        exact extended (.tail run hallowed stepped) performed
      · exact absurd performed (by simp)

end Perform

end Gmsol
