import Mathlib.Algebra.Order.Group.Int
import Mathlib.Data.List.Forall2
import Mathlib.Tactic.Linarith

/-!
# Potentials

A list of steps, each from where the step before it has ended, and a gain for every
step.  When a gain is bounded by what the potential falls, so is the sum of all gains;
on a cycle nothing is gained beyond what the single steps may exceed the bound by.
-/

namespace Gmsol.Potential

variable {α β : Type*} {source target : α → β}

/-- The steps lead from one position to another. -/
def Leads (source target : α → β) : List α → β → β → Prop
  | [], start, finish => start = finish
  | step :: rest, start, finish =>
      source step = start ∧ Leads source target rest (target step) finish

instance Leads.decidable [DecidableEq β] : ∀ (steps : List α) (start finish : β),
    Decidable (Leads source target steps start finish)
  | [], start, finish => inferInstanceAs (Decidable (start = finish))
  | step :: rest, start, finish =>
      have := Leads.decidable rest (target step) finish
      inferInstanceAs
        (Decidable (source step = start ∧ Leads source target rest (target step) finish))

variable {start finish : β}

/-- What holds between the ends of every step holds between the ends of all of them. -/
theorem Leads.trans_rel (rel : β → β → Prop) (hrefl : ∀ value, rel value value)
    (htrans : ∀ first second third, rel first second → rel second third → rel first third)
    {steps : List α} (hleads : Leads source target steps start finish)
    (hsteps : ∀ step ∈ steps, rel (source step) (target step)) : rel start finish := by
  induction steps generalizing start with
  | nil =>
      obtain rfl : start = finish := hleads
      exact hrefl start
  | cons step rest ih =>
      obtain ⟨rfl, hrest⟩ := hleads
      apply htrans _ (target step)
      · exact hsteps step List.mem_cons_self
      · exact ih hrest fun other hmem => hsteps other (List.mem_cons_of_mem step hmem)

/-- Gains that are covered by the potential, except for one unit in some steps. -/
theorem Leads.sum_le (potential : β → ℤ) {exceeds : α → ℤ → Bool} {steps : List α} {gains : List ℤ}
    (hleads : Leads source target steps start finish)
    (hgains : List.Forall₂ (fun step gain => gain ≤
      potential (source step) - potential (target step) +
        if exceeds step gain then 1 else 0) steps gains) :
    gains.sum ≤ potential start - potential finish +
      (steps.zip gains).countP fun pair => exceeds pair.1 pair.2 := by
  induction hgains generalizing start with
  | nil =>
      obtain rfl : start = finish := hleads
      simp
  | cons hgain _ ih =>
      obtain ⟨rfl, hrest⟩ := hleads
      have hsum := ih hrest
      rw [List.sum_cons, List.zip_cons_cons, List.countP_cons]
      push_cast
      split_ifs at hgain ⊢ <;> linarith

/-- Gains that are exactly what the potential falls. -/
theorem Leads.sum_eq (potential : β → ℤ) {steps : List α} {gains : List ℤ}
    (hleads : Leads source target steps start finish)
    (hgains : List.Forall₂ (fun step gain => gain =
      potential (source step) - potential (target step)) steps gains) :
    gains.sum = potential start - potential finish := by
  induction hgains generalizing start with
  | nil =>
      obtain rfl : start = finish := hleads
      simp
  | cons hgain _ ih =>
      obtain ⟨rfl, hrest⟩ := hleads
      rw [List.sum_cons, hgain, ih hrest, sub_add_sub_cancel]

end Gmsol.Potential
