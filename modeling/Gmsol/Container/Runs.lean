import Gmsol.Container.Refinement
import Gmsol.Library.Layout

/-!
# Runs of the container

A run from the zeroed container goes through states that represent the finite
map of the same run, for as long as every operation is safe; the first
operation that is not safe stops the program.
-/

namespace Gmsol.Container

open Fallible FixedArray

variable {N : ℕ} {Q K V : Type} [LinearOrder K] [Inhabited K] [Inhabited V]
  {toKey : Q → K}

/-- A state that the container may show: it represents the finite map, and an
operation that fails leaves it as it is. -/
structure Refines (toKey : Q → K) (map : FixedMap N K V)
    (model : FiniteMap K V) : Prop where
  represents : Represents map model
  failed_unchanged : ∀ (operation : Operation Q K V) after output,
    map.step toKey operation = .ok (after, output) →
    Represents.Failed output → after = map

/-- The operations run to their end, return what a finite map with room for `N`
keys returns, and lead to a container that represents it. -/
def BehavesAsFiniteMap (N : ℕ) (toKey : Q → K)
    (operations : List (Operation Q K V)) : Prop :=
  ∃ map : FixedMap N K V, FixedMap.zeroed.run toKey operations =
      .ok (map, (FiniteMap.run N toKey ∅ operations).2) ∧
    Refines toKey map (FiniteMap.run N toKey ∅ operations).1

omit [Inhabited K] [Inhabited V] in
/-- A failed insertion has not written to the container. -/
theorem insertWithOptions_failed {map after : FixedMap N K V} {key : Q}
    {value : V} {new : Bool} {failure : GeneralError}
    (hinsert : map.insertWithOptions toKey key value new =
      .ok (after, .error failure)) : after = map := by
  simp only [FixedMap.insertWithOptions, bind_eq_ok] at hinsert
  obtain ⟨result, -, hinsert⟩ := hinsert
  cases result with
  | ok index =>
      dsimp only at hinsert
      split_ifs at hinsert with hnew
      · exact (Prod.mk.inj (Except.ok.inj hinsert)).1.symm
      · simp only [bind_eq_ok] at hinsert
        obtain ⟨entry, -, data, -, hdone⟩ := hinsert
        exact absurd (Prod.mk.inj (Except.ok.inj hdone)).2 (by simp)
  | error index =>
      dsimp only at hinsert
      split_ifs at hinsert with hfull
      · exact (Prod.mk.inj (Except.ok.inj hinsert)).1.symm
      · simp only [bind_eq_ok] at hinsert
        obtain ⟨shifted, -, data, -, count, -, hdone⟩ := hinsert
        exact absurd (Prod.mk.inj (Except.ok.inj hdone)).2 (by simp)

theorem step_failed {map after : FixedMap N K V} {operation : Operation Q K V}
    {output : Output V}
    (hstep : map.step toKey operation = .ok (after, output))
    (hfailed : Represents.Failed output) : after = map := by
  cases operation with
  | insertWithOptions key value new =>
      simp only [FixedMap.step, bind_eq_ok] at hstep
      obtain ⟨⟨next, outcome⟩, hinsert, hdone⟩ := hstep
      obtain ⟨rfl, rfl⟩ := Prod.mk.inj (Except.ok.inj hdone)
      cases outcome with
      | error failure => exact insertWithOptions_failed hinsert
      | ok previous => exact absurd hfailed id
  | entriesMut update =>
      obtain ⟨-, rfl⟩ := Prod.mk.inj (Except.ok.inj hstep)
      exact absurd hfailed id
  | get key | insert key value | getMut key update | remove key | clear =>
      simp only [FixedMap.step, bind_eq_ok] at hstep
      obtain ⟨next, -, hdone⟩ := hstep
      obtain ⟨-, rfl⟩ := Prod.mk.inj (Except.ok.inj hdone)
      exact absurd hfailed id

/-- From a container that represents a map, a run of safe operations follows
the finite map. -/
theorem Represents.run {map : FixedMap N K V} {model : FiniteMap K V}
    (hrep : Represents map model) (operations : List (Operation Q K V))
    (hsafe : model.SafeRun N toKey operations) :
    Represents.Returns (map.run toKey operations)
      (model.run N toKey operations) := by
  induction operations generalizing map model with
  | nil => exact ⟨map, rfl, hrep⟩
  | cons operation operations ih =>
      obtain ⟨hfirst, hrest⟩ := hsafe
      obtain ⟨next, hnext, hrepNext⟩ := hrep.step operation hfirst
      obtain ⟨after, hafter, hrepAfter⟩ := ih hrepNext hrest
      refine ⟨after, ?_, hrepAfter⟩
      simp [FixedMap.run, hnext, hafter, bind, Except.bind, FiniteMap.run]

/-- A run that reaches its end has only made safe operations. -/
theorem Represents.safeRun_of_run {map after : FixedMap N K V}
    {model : FiniteMap K V} {outputs : List (Output V)}
    (hrep : Represents map model) (operations : List (Operation Q K V))
    (hrun : map.run toKey operations = .ok (after, outputs)) :
    model.SafeRun N toKey operations := by
  induction operations generalizing map model outputs with
  | nil => trivial
  | cons operation operations ih =>
      simp only [FixedMap.run, bind_eq_ok] at hrun
      obtain ⟨⟨next, output⟩, hnext, ⟨last, rest⟩, hrest, hdone⟩ := hrun
      obtain ⟨rfl, -⟩ := Prod.mk.inj (Except.ok.inj hdone)
      have hsafe : model.Safe N toKey operation := by
        by_contra hrefused
        obtain ⟨panic, hpanic⟩ := hrep.step_panics operation hrefused
        rw [hpanic] at hnext
        exact absurd hnext (by simp)
      obtain ⟨reached, hreached, hrepNext⟩ := hrep.step operation hsafe
      rw [hnext] at hreached
      obtain ⟨rfl, -⟩ := Prod.mk.inj (Except.ok.inj hreached)
      exact ⟨hsafe, ih hrepNext hrest⟩

/-- The container behaves as a finite map exactly in the runs whose operations
are all safe. -/
theorem behavesAsFiniteMap_iff_safeRun (N : ℕ) (toKey : Q → K)
    (operations : List (Operation Q K V)) :
    BehavesAsFiniteMap N toKey operations ↔
      FiniteMap.SafeRun N toKey ∅ operations := by
  constructor
  · rintro ⟨map, hrun, -⟩
    exact represents_zeroed.safeRun_of_run operations hrun
  · intro hsafe
    obtain ⟨map, hrun, hrep⟩ :=
      (represents_zeroed (N := N)).run operations hsafe
    exact ⟨map, hrun, hrep, fun operation after output => step_failed⟩

/-! ## A full container -/

/-- A public key, read as the number that its bytes spell. -/
abbrev Pubkey : Type := Fin (256 ^ 32)

instance pubkeyValues : NeZero (256 ^ 32) := ⟨by positivity⟩

instance pubkeyLawful : LawfulBEq Pubkey := inferInstance

/-- Sixteen tokens are inserted into the map of a treasury vault and the first
of them is removed. -/
def fillAndRemove : List (Operation Pubkey Pubkey (Fin 256)) :=
  ((List.range 16).map fun token =>
    .insertWithOptions (Fin.ofNat _ token) 0 true) ++ [.remove 0]

theorem treasury_tokens_not_finiteMap :
    ¬BehavesAsFiniteMap 16 id fillAndRemove := by
  rintro ⟨map, hrun, -⟩
  have hstops : ((FixedMap.zeroed : FixedMap 16 Pubkey (Fin 256)).run id
      fillAndRemove).isOk = false := by decide +kernel
  rw [hrun] at hstops
  exact absurd hstops (by simp [Except.isOk, Except.toBool])

end Gmsol.Container
