import Gmsol.Library.BellmanFord

/-!
# Walks within a limit

A walk is a list of arcs, each of which leaves from where the one before it leads.  The list
also tells the vertices of the walk and the cost up to each of them.
-/

namespace Gmsol.BellmanFord

variable {V α : Type*} [AddCommGroup α] {arcs : List (Arc V α)}

/-- A walk of at most `limit` arcs. -/
def WalkWithin (arcs : List (Arc V α)) (limit : ℕ) (start finish : V) (cost : α) : Prop :=
  ∃ steps ≤ limit, Walk arcs steps start finish cost

theorem WalkWithin.snoc {arc : Arc V α} {limit : ℕ} {start : V} {cost : α}
    (hwalk : WalkWithin arcs limit start arc.source cost) (hmem : arc ∈ arcs) :
    WalkWithin arcs (limit + 1) start arc.target (cost + arc.weight) := by
  obtain ⟨steps, hsteps, hwalk⟩ := hwalk
  exact ⟨steps + 1, Nat.succ_le_succ hsteps, hwalk.snoc hmem⟩

/-! ## Walks as lists of arcs -/

/-- An arc with its place among all arcs, by which parallel arcs differ. -/
abbrev Step (V α : Type*) := ℕ × Arc V α

/-- Where the steps lead from the source. -/
def endOf (source : V) (path : List (Step V α)) : V :=
  path.getLast?.elim source fun step => step.2.target

def costOf (path : List (Step V α)) : α := (path.map fun step => step.2.weight).sum

section Paths

variable {source : V} {path : List (Step V α)} {step : Step V α}

omit [AddCommGroup α] in
@[simp]
theorem endOf_nil : endOf source ([] : List (Step V α)) = source := rfl

omit [AddCommGroup α] in
@[simp]
theorem endOf_concat : endOf source (path ++ [step]) = step.2.target := by
  simp [endOf]

@[simp]
theorem costOf_nil : costOf ([] : List (Step V α)) = 0 := rfl

@[simp]
theorem costOf_concat : costOf (path ++ [step]) = costOf path + step.2.weight := by
  simp [costOf]

theorem costOf_append (path rest : List (Step V α)) :
    costOf (path ++ rest) = costOf path + costOf rest := by
  simp [costOf]

/-- Every step leaves from where the steps before it lead. -/
def IsPath (arcs : List (Arc V α)) (source : V) (path : List (Step V α)) : Prop :=
  ∀ before step, before ++ [step] <+: path →
    step.2 ∈ arcs ∧ step.2.source = endOf source before

omit [AddCommGroup α] in
theorem isPath_nil : IsPath arcs source [] := by
  intro before step hprefix
  exact absurd (List.prefix_nil.mp hprefix) (by simp)

omit [AddCommGroup α] in
theorem isPath_concat :
    IsPath arcs source (path ++ [step]) ↔
      IsPath arcs source path ∧ step.2 ∈ arcs ∧ step.2.source = endOf source path := by
  constructor
  · intro hpath
    refine ⟨fun before last hprefix => hpath before last ?_, hpath path step List.prefix_rfl⟩
    exact hprefix.trans (List.prefix_append ..)
  · rintro ⟨hpath, hstep⟩ before last hprefix
    rcases List.prefix_concat_iff.mp hprefix with hall | hbefore
    · obtain ⟨rfl, hlast⟩ := List.append_inj' hall rfl
      rw [List.singleton_inj.mp hlast]
      exact hstep
    · exact hpath before last hbefore

theorem IsPath.walk_append {rest : List (Step V α)}
    (hpath : IsPath arcs source (path ++ rest)) :
    Walk arcs rest.length (endOf source path) (endOf source (path ++ rest)) (costOf rest) := by
  induction rest using List.reverseRecOn with
  | nil =>
      rw [List.append_nil]
      exact .nil _
  | append_singleton rest step ih =>
      rw [← List.append_assoc] at hpath ⊢
      obtain ⟨hbefore, hmem, hleaves⟩ := isPath_concat.mp hpath
      have hwalk := ih hbefore
      rw [← hleaves] at hwalk
      rw [endOf_concat, costOf_concat, List.length_append, List.length_singleton]
      exact hwalk.snoc hmem

theorem IsPath.walk (hpath : IsPath arcs source path) :
    Walk arcs path.length source (endOf source path) (costOf path) :=
  @IsPath.walk_append _ _ _ arcs source [] path hpath

end Paths

end Gmsol.BellmanFord
