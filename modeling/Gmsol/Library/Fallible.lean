import Mathlib

/-!
# Fallible computations

A checked program is a chain of steps each of which either yields a value or
stops with an error.  This module collects the inversion rules for such
chains: from the success of a whole computation they recover the success of
every step, and they track which errors a computation can stop with.
-/

namespace Gmsol.Fallible

universe u v

variable {ε : Type u} {α β : Type v}

/-- Turn an absent value into the given error. -/
def okOr (value : Option α) (error : ε) : Except ε α :=
  match value with
  | some result => .ok result
  | none => .error error

/-- Stop with `error` unless `condition` holds. -/
def ensure (condition : Prop) [Decidable condition] (error : ε) :
    Except ε Unit :=
  if condition then .ok () else .error error

theorem bind_eq_ok {step : Except ε α} {next : α → Except ε β} {result : β} :
    (step >>= next) = .ok result ↔
      ∃ value, step = .ok value ∧ next value = .ok result := by
  cases step with
  | error stopped => simp [bind, Except.bind]
  | ok value => simp [bind, Except.bind]

theorem ok_bind (value : α) (next : α → Except ε β) :
    (Except.ok value >>= next) = next value := rfl

theorem okOr_eq_ok {value : Option α} {error : ε} {result : α} :
    okOr value error = .ok result ↔ value = some result := by
  cases value <;> simp [okOr]

theorem ensure_eq_ok {condition : Prop} [Decidable condition] {error : ε}
    {result : Unit} : ensure condition error = .ok result ↔ condition := by
  by_cases holds : condition <;> simp [ensure, holds]

theorem ensure_of {condition : Prop} [Decidable condition] (holds : condition)
    (error : ε) : ensure condition error = .ok () :=
  ensure_eq_ok.mpr holds

theorem pure_eq_ok {value result : α} :
    (pure value : Except ε α) = .ok result ↔ value = result := by
  simp [pure, Except.pure]

theorem map_eq_ok {result : Except ε α} {view : α → β} {value : β} :
    result.map view = .ok value ↔ ∃ found, result = .ok found ∧
      view found = value := by
  cases result <;> simp [Except.map]

theorem mapError_eq_ok {φ : Type*} {result : Except ε α} {translate : ε → φ}
    {value : α} : result.mapError translate = .ok value ↔ result = .ok value := by
  cases result <;> simp [Except.mapError]

theorem option_bind_eq_some {step : Option α} {next : α → Option β}
    {result : β} :
    (step >>= next) = some result ↔
      ∃ value, step = some value ∧ next value = some result := by
  cases step <;> simp

/-- A conditional computation succeeds exactly when its selected branch does. -/
theorem ite_eq_ok {condition : Prop} [Decidable condition]
    {yes no : Except ε α} {result : α} :
    (if condition then yes else no) = .ok result ↔
      (condition ∧ yes = .ok result) ∨ (¬condition ∧ no = .ok result) := by
  by_cases holds : condition <;> simp [holds]

/-- A computation that is seen to succeed has a value. -/
theorem exists_of_isOk {result : Except ε α} (hok : result.isOk = true) :
    ∃ value, result = .ok value := by
  cases result with
  | error stopped => exact absurd hok (by simp [Except.isOk, Except.toBool])
  | ok value => exact ⟨value, rfl⟩

/-- A list of computations that all succeed; what is known of each result is
known of the list of the results. -/
theorem exists_mapM_eq_ok {γ δ : Type*} {compute : γ → Except ε β} {view : β → δ}
    {expected : γ → δ} {inputs : List γ}
    (hall : ∀ input ∈ inputs, ∃ value, compute input = .ok value ∧
      view value = expected input) :
    ∃ values, inputs.mapM compute = .ok values ∧
      values.map view = inputs.map expected := by
  induction inputs with
  | nil => exact ⟨[], rfl, rfl⟩
  | cons input rest ih =>
      obtain ⟨value, hvalue, hview⟩ := hall input (List.mem_cons_self)
      obtain ⟨values, hvalues, hviews⟩ :=
        ih fun other hother => hall other (List.mem_cons_of_mem input hother)
      refine ⟨value :: values, ?_, ?_⟩
      · rw [List.mapM_cons, hvalue, hvalues]
        rfl
      · rw [List.map_cons, List.map_cons, hview, hviews]

/-- The results of a list of computations that all succeed. -/
theorem forall₂_of_mapM_eq_ok {γ : Type*} {compute : γ → Except ε β}
    {inputs : List γ} {values : List β} (hall : inputs.mapM compute = .ok values) :
    List.Forall₂ (fun input value => compute input = .ok value) inputs values := by
  induction inputs generalizing values with
  | nil =>
      obtain rfl : [] = values := by simpa [pure, Except.pure] using hall
      exact .nil
  | cons input rest ih =>
      simp only [List.mapM_cons, bind_eq_ok, pure_eq_ok] at hall
      obtain ⟨value, hvalue, others, hothers, rfl⟩ := hall
      exact .cons hvalue (ih hothers)

/-! ## Errors a computation can stop with -/

/-- A computation that fails, fails with an allowed error. -/
def FailsOnly (allowed : ε → Prop) (result : Except ε α) : Prop :=
  ∀ stopped, result = .error stopped → allowed stopped

section FailsOnly

variable {allowed : ε → Prop}

theorem failsOnly_ok (value : α) : FailsOnly allowed (.ok value) := by
  intro stopped hfail
  exact absurd hfail (by simp)

theorem failsOnly_okOr {found : Option α} {failure : ε}
    (hallowed : found = none → allowed failure) :
    FailsOnly allowed (okOr found failure) := by
  intro stopped hfail
  cases found with
  | none =>
      obtain rfl : failure = stopped := by simpa [okOr] using hfail
      exact hallowed rfl
  | some value => exact absurd hfail (by simp [okOr])

theorem failsOnly_ensure {condition : Prop} [Decidable condition] {failure : ε}
    (hallowed : ¬condition → allowed failure) :
    FailsOnly allowed (ensure condition failure) := by
  intro stopped hfail
  by_cases hcondition : condition
  · exact absurd hfail (by simp [ensure, hcondition])
  · obtain rfl : failure = stopped := by simpa [ensure, hcondition] using hfail
    exact hallowed hcondition

theorem FailsOnly.bind {step : Except ε α} {next : α → Except ε β}
    (hstep : FailsOnly allowed step)
    (hnext : ∀ value, step = .ok value → FailsOnly allowed (next value)) :
    FailsOnly allowed (step >>= next) := by
  intro stopped hfail
  cases hvalue : step with
  | error early =>
      rw [hvalue] at hfail
      obtain rfl : early = stopped := by simpa [Bind.bind, Except.bind] using hfail
      exact hstep early hvalue
  | ok value =>
      rw [hvalue] at hfail
      exact hnext value hvalue stopped hfail

theorem FailsOnly.okOr_bind {found : Option α} {failure : ε}
    {next : α → Except ε β} (hallowed : found = none → allowed failure)
    (hnext : ∀ value, found = some value → FailsOnly allowed (next value)) :
    FailsOnly allowed (okOr found failure >>= next) :=
  (failsOnly_okOr hallowed).bind fun value hvalue =>
    hnext value (okOr_eq_ok.mp hvalue)

end FailsOnly

/-! ## Evaluating a computation -/

/-- A value that is seen to have a property. -/
theorem exists_of_any {found : Option α} {holds : α → Prop} [DecidablePred holds]
    (hany : found.any (fun value => decide (holds value)) = true) :
    ∃ value, found = some value ∧ holds value := by
  simpa [Option.any_eq_true] using hany

/-- Whether a computation succeeds with a value of some kind can be seen. -/
theorem exists_ok_iff_any {result : Except ε α} {holds : α → Prop}
    [DecidablePred holds] :
    (∃ value, result = .ok value ∧ holds value) ↔
      result.toOption.any (fun value => decide (holds value)) = true := by
  cases result <;> simp [Except.toOption]

/-- Whether every value of a computation is of some kind can be seen. -/
theorem forall_ok_iff_all {result : Except ε α} {holds : α → Prop}
    [DecidablePred holds] :
    (∀ value, result = .ok value → holds value) ↔
      result.toOption.all (fun value => decide (holds value)) = true := by
  cases result <;> simp [Except.toOption]

end Gmsol.Fallible
