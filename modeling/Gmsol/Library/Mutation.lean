import Mathlib

/-!
# Computations that change their state in place

A computation that fails keeps the changes it has made so far.  Such a failure
leaves no trace when everything that can fail comes before the first change;
the rules below follow a computation from its reads to its infallible writes.
-/

namespace Gmsol.Mutation

variable {ε σ τ α β : Type}

/-- The state that a result leaves behind. -/
def stateOf : EStateM.Result ε σ α → σ
  | .ok _ state => state
  | .error _ state => state

/-- The value that a result returns, and the failure that it stops with. -/
def outcomeOf : EStateM.Result ε σ α → Except ε α
  | .ok value _ => .ok value
  | .error failure _ => .error failure

theorem exists_ok_of_outcomeOf {result : EStateM.Result ε σ α} {value : α}
    (houtcome : outcomeOf result = .ok value) : ∃ after, result = .ok value after := by
  cases result with
  | ok found after =>
      obtain rfl := Except.ok.inj houtcome
      exact ⟨after, rfl⟩
  | error failure after => exact absurd houtcome (by simp [outcomeOf])

/-- The failure that a computation stops with, and the state in which it stops. -/
def failureOf : EStateM.Result ε σ α → Option (ε × σ)
  | .ok _ _ => none
  | .error failure state => some (failure, state)

theorem failureOf_eq_some {result : EStateM.Result ε σ α} {failure : ε} {state : σ} :
    failureOf result = some (failure, state) ↔ result = .error failure state := by
  cases result <;> simp [failureOf]

/-- The state that a computation succeeds with; one that fails is rolled back. -/
def settle (computation : EStateM ε σ α) (state : σ) : Except ε σ :=
  match computation state with
  | .ok _ after => .ok after
  | .error failure _ => .error failure

theorem settle_eq_ok {computation : EStateM ε σ α} {state after : σ} :
    settle computation state = .ok after ↔
      ∃ value, computation state = .ok value after := by
  unfold settle
  cases computation state <;> simp

/-- Runs a computation that does not touch the state. -/
def lift (result : Except ε α) : EStateM ε σ α := fun state =>
  match result with
  | .ok value => .ok value state
  | .error failure => .error failure state

/-- Runs a computation on a part of the state. -/
def zoom (read : σ → τ) (write : τ → σ → σ) (inner : EStateM ε τ α) :
    EStateM ε σ α := fun state =>
  match inner (read state) with
  | .ok value part => .ok value (write part state)
  | .error failure part => .error failure (write part state)

/-- The computation never changes the state. -/
def ReadOnly (computation : EStateM ε σ α) : Prop :=
  ∀ state, stateOf (computation state) = state

/-- The computation never fails. -/
def Infallible (computation : EStateM ε σ α) : Prop :=
  ∀ state, ∃ value after, computation state = .ok value after

/-- A failure leaves no trace in the state. -/
def KeepsOnError (computation : EStateM ε σ α) : Prop :=
  ∀ state failure after, computation state = .error failure after →
    after = state

variable {computation : EStateM ε σ α} {next : α → EStateM ε σ β}

theorem bind_eq_ok {state after : σ} {value : β} :
    (computation >>= next) state = .ok value after ↔
      ∃ first between, computation state = .ok first between ∧
        next first between = .ok value after := by
  show EStateM.bind computation next state = _ ↔ _
  unfold EStateM.bind
  cases computation state <;> simp

theorem bind_eq_error {state after : σ} {failure : ε} :
    (computation >>= next) state = .error failure after ↔
      computation state = .error failure after ∨
        ∃ first between, computation state = .ok first between ∧
          next first between = .error failure after := by
  show EStateM.bind computation next state = _ ↔ _
  unfold EStateM.bind
  cases computation state <;> simp

theorem lift_eq_ok {result : Except ε α} {state after : σ} {value : α} :
    lift result state = .ok value after ↔ result = .ok value ∧ after = state := by
  cases result <;> simp [lift, eq_comm]

theorem get_bind_eq_ok {next : σ → EStateM ε σ β} {state after : σ} {value : β} :
    (get >>= next) state = .ok value after ↔ next state state = .ok value after := .rfl

theorem lift_bind_eq_ok {result : Except ε α} {state after : σ} {value : β} :
    (lift result >>= next) state = .ok value after ↔
      ∃ first, result = .ok first ∧ next first state = .ok value after := by
  simp [bind_eq_ok, lift_eq_ok]

theorem modify_bind_eq_ok {change : σ → σ} {next : PUnit → EStateM ε σ β}
    {state after : σ} {value : β} :
    (modify change >>= next) state = .ok value after ↔
      next ⟨⟩ (change state) = .ok value after := .rfl

theorem return_eq_ok {state after : σ} {value found : α} :
    (pure value : EStateM ε σ α) state = .ok found after ↔ value = found ∧ state = after := by
  show EStateM.Result.ok value state = _ ↔ _
  simp

theorem zoom_eq_ok {read : σ → τ} {write : τ → σ → σ} {inner : EStateM ε τ α}
    {state after : σ} {value : α} :
    zoom read write inner state = .ok value after ↔
      ∃ part, inner (read state) = .ok value part ∧ write part state = after := by
  unfold zoom
  cases inner (read state) <;> simp

theorem readOnly_lift (result : Except ε α) :
    ReadOnly (lift result : EStateM ε σ α) := by
  intro state
  cases result <;> rfl

theorem readOnly_get : ReadOnly (get : EStateM ε σ σ) := fun _ => rfl

theorem ReadOnly.keepsOnError (hread : ReadOnly computation) :
    KeepsOnError computation := by
  intro state failure after hfail
  have hstate := hread state
  rw [hfail] at hstate
  exact hstate

theorem Infallible.keepsOnError (hinfallible : Infallible computation) :
    KeepsOnError computation := by
  intro state failure after hfail
  obtain ⟨value, other, hok⟩ := hinfallible state
  rw [hok] at hfail
  exact absurd hfail (by simp)

/-- Reads may come first. -/
theorem ReadOnly.bind (hread : ReadOnly computation)
    (hnext : ∀ value, KeepsOnError (next value)) :
    KeepsOnError (computation >>= next) := by
  intro state failure after hfail
  rcases bind_eq_error.mp hfail with hfirst | ⟨value, between, hfirst, hrest⟩
  · exact hread.keepsOnError state failure after hfirst
  · have hstate := hread state
    rw [hfirst] at hstate
    exact (hnext value between failure after hrest).trans hstate

/-- Infallible steps may come last. -/
theorem KeepsOnError.bind_infallible (hfirst : KeepsOnError computation)
    (hnext : ∀ value, Infallible (next value)) :
    KeepsOnError (computation >>= next) := by
  intro state failure after hfail
  rcases bind_eq_error.mp hfail with hstopped | ⟨value, between, -, hrest⟩
  · exact hfirst state failure after hstopped
  · obtain ⟨result, last, hok⟩ := hnext value between
    rw [hok] at hrest
    exact absurd hrest (by simp)

theorem Infallible.bind (hfirst : Infallible computation)
    (hnext : ∀ value, Infallible (next value)) :
    Infallible (computation >>= next) := by
  intro state
  obtain ⟨value, between, hok⟩ := hfirst state
  obtain ⟨result, after, hlast⟩ := hnext value between
  exact ⟨result, after, bind_eq_ok.mpr ⟨value, between, hok, hlast⟩⟩

theorem infallible_modify (change : σ → σ) :
    Infallible (modify change : EStateM ε σ PUnit) :=
  fun state => ⟨⟨⟩, change state, rfl⟩

theorem infallible_pure (value : α) : Infallible (pure value : EStateM ε σ α) :=
  fun state => ⟨value, state, rfl⟩

theorem KeepsOnError.zoom {read : σ → τ} {write : τ → σ → σ}
    {inner : EStateM ε τ α} (hinner : KeepsOnError inner)
    (hsame : ∀ state, write (read state) state = state) :
    KeepsOnError (zoom read write inner) := by
  intro state failure after hfail
  unfold Mutation.zoom at hfail
  cases hresult : inner (read state) with
  | ok value part =>
      rw [hresult] at hfail
      exact absurd hfail (by simp)
  | error stopped part =>
      rw [hresult] at hfail
      obtain ⟨-, rfl⟩ := EStateM.Result.error.inj hfail
      rw [hinner _ _ _ hresult]
      exact hsame state

/-! ## What is observed of the state -/

section Observation

variable {γ : Type} {observe : σ → γ}

/-- What is observed of the state stays the same, whether the computation fails or
not. -/
def Unobserved (observe : σ → γ) (computation : EStateM ε σ α) : Prop :=
  ∀ state, observe (stateOf (computation state)) = observe state

/-- A failure leaves no trace in what is observed of the state. -/
def HidesErrors (observe : σ → γ) (computation : EStateM ε σ α) : Prop :=
  ∀ state failure after, computation state = .error failure after →
    observe after = observe state

theorem ReadOnly.unobserved (hread : ReadOnly computation) :
    Unobserved observe computation := fun state => congrArg observe (hread state)

theorem KeepsOnError.hidesErrors (hkeeps : KeepsOnError computation) :
    HidesErrors observe computation := fun state failure after hfail =>
  congrArg observe (hkeeps state failure after hfail)

theorem Unobserved.of_eq_ok (hunobserved : Unobserved observe computation)
    {state after : σ} {value : α} (hok : computation state = .ok value after) :
    observe after = observe state := by
  have hstate := hunobserved state
  rw [hok] at hstate
  exact hstate

theorem Unobserved.hidesErrors (hunobserved : Unobserved observe computation) :
    HidesErrors observe computation := by
  intro state failure after hfail
  have hstate := hunobserved state
  rw [hfail] at hstate
  exact hstate

theorem unobserved_pure (value : α) :
    Unobserved observe (pure value : EStateM ε σ α) := fun _ => rfl

theorem Unobserved.bind (hfirst : Unobserved observe computation)
    (hnext : ∀ value, Unobserved observe (next value)) :
    Unobserved observe (computation >>= next) := by
  intro state
  show observe (stateOf (EStateM.bind computation next state)) = observe state
  unfold EStateM.bind
  have hstate := hfirst state
  cases hresult : computation state with
  | ok value between =>
      rw [hresult] at hstate
      exact (hnext value between).trans hstate
  | error failure between =>
      rw [hresult] at hstate
      exact hstate

/-- What follows a read starts from the state that was read. -/
theorem unobserved_get_bind {next : σ → EStateM ε σ β}
    (hnext : ∀ state, observe (stateOf (next state state)) = observe state) :
    Unobserved observe (get >>= next) := hnext

theorem observe_lift_bind {result : Except ε α} {state : σ}
    (hnext : ∀ value, result = .ok value →
      observe (stateOf (next value state)) = observe state) :
    observe (stateOf ((lift result >>= next) state)) = observe state := by
  cases result with
  | error failure => rfl
  | ok value => exact hnext value rfl

theorem Unobserved.foldlM {step : β → α → EStateM ε σ β}
    (hstep : ∀ value element, Unobserved observe (step value element))
    (elements : List α) (first : β) :
    Unobserved observe (elements.foldlM step first) := by
  induction elements generalizing first with
  | nil => exact unobserved_pure first
  | cons element elements ih =>
      rw [List.foldlM_cons]
      exact (hstep first element).bind ih

/-- Steps that are not observed may come first. -/
theorem Unobserved.bind_hidesErrors (hfirst : Unobserved observe computation)
    (hnext : ∀ value, HidesErrors observe (next value)) :
    HidesErrors observe (computation >>= next) := by
  intro state failure after hfail
  rcases bind_eq_error.mp hfail with hstopped | ⟨value, between, hok, hrest⟩
  · exact hfirst.hidesErrors state failure after hstopped
  · exact (hnext value between failure after hrest).trans (hfirst.of_eq_ok hok)

/-- Infallible steps may come last, whatever they change. -/
theorem HidesErrors.bind_infallible (hfirst : HidesErrors observe computation)
    (hnext : ∀ value, Infallible (next value)) :
    HidesErrors observe (computation >>= next) := by
  intro state failure after hfail
  rcases bind_eq_error.mp hfail with hstopped | ⟨value, between, -, hrest⟩
  · exact hfirst state failure after hstopped
  · obtain ⟨result, last, hok⟩ := hnext value between
    rw [hok] at hrest
    exact absurd hrest (by simp)

/-- A part of the state whose failures leave no trace. -/
theorem KeepsOnError.zoom_hidesErrors {read : σ → τ} {write : τ → σ → σ}
    {inner : EStateM ε τ α} (hinner : KeepsOnError inner)
    (hsame : ∀ state, write (read state) state = state) :
    HidesErrors observe (Mutation.zoom read write inner) :=
  (hinner.zoom hsame).hidesErrors

end Observation

end Gmsol.Mutation
