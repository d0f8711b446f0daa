import Mathlib

/-!
# Shortest walks by relaxation

A vertex is labelled with the cost of some walk from the source, and an arc is
relaxed when it offers its target a lower cost.  The arcs are relaxed in place,
one after the other, in any order.  After fewer sweeps than there are vertices
the labels are stable, unless a closed walk of negative cost can be reached.
-/

namespace Gmsol.BellmanFord

structure Arc (V α : Type*) where
  source : V
  target : V
  weight : α
  deriving DecidableEq

variable {V α : Type*} [AddCommGroup α]

/-- `Walk arcs steps start finish cost`: a walk along `steps` arcs. -/
inductive Walk (arcs : List (Arc V α)) : ℕ → V → V → α → Prop
  | nil (start : V) : Walk arcs 0 start start 0
  | snoc {steps : ℕ} {start : V} {arc : Arc V α} {cost : α}
      (walk : Walk arcs steps start arc.source cost) (hmem : arc ∈ arcs) :
      Walk arcs (steps + 1) start arc.target (cost + arc.weight)

namespace Walk

variable {arcs : List (Arc V α)} {steps more : ℕ} {start middle finish : V}
  {cost rest : α}

theorem trans (hfirst : Walk arcs steps start middle cost)
    (hsecond : Walk arcs more middle finish rest) :
    Walk arcs (steps + more) start finish (cost + rest) := by
  induction hsecond with
  | nil => rwa [add_zero, add_zero]
  | snoc _ hmem ih =>
      rw [← add_assoc, ← add_assoc]
      exact (ih hfirst).snoc hmem

/-- The vertices of a walk and the cost up to each of them. -/
theorem exists_trace (hwalk : Walk arcs steps start finish cost) :
    ∃ (vertex : ℕ → V) (upTo : ℕ → α), vertex 0 = start ∧ vertex steps = finish ∧
      upTo 0 = 0 ∧ upTo steps = cost ∧
      ∀ first last, first ≤ last → last ≤ steps →
        Walk arcs (last - first) (vertex first) (vertex last) (upTo last - upTo first) := by
  induction hwalk with
  | nil start =>
      refine ⟨fun _ => start, fun _ => 0, rfl, rfl, rfl, rfl, ?_⟩
      intro first last hle hlast
      obtain rfl : last = 0 := Nat.le_zero.mp hlast
      obtain rfl : first = 0 := Nat.le_zero.mp hle
      rw [sub_zero]
      exact .nil start
  | @snoc steps start arc cost hwalk hmem ih =>
      obtain ⟨vertex, upTo, hstart, hfinish, hzero, hcost, hparts⟩ := ih
      refine ⟨Function.update vertex (steps + 1) arc.target,
        Function.update upTo (steps + 1) (cost + arc.weight), ?_, ?_, ?_, ?_, ?_⟩
      · rw [Function.update_of_ne (by omega), hstart]
      · rw [Function.update_self]
      · rw [Function.update_of_ne (by omega), hzero]
      · rw [Function.update_self]
      · intro first last hle hlast
        by_cases hlastStep : last = steps + 1
        · subst hlastStep
          by_cases hfirst : first = steps + 1
          · subst hfirst
            rw [sub_self, Nat.sub_self]
            exact .nil _
          · have hpart := hparts first steps (by omega) le_rfl
            rw [hfinish, hcost] at hpart
            have hlonger := hpart.snoc hmem
            rw [Function.update_self, Function.update_of_ne hfirst,
              Function.update_self, Function.update_of_ne hfirst]
            have hsteps : steps + 1 - first = steps - first + 1 := by omega
            rw [hsteps, add_sub_right_comm]
            exact hlonger
        · rw [Function.update_of_ne hlastStep, Function.update_of_ne (by omega),
            Function.update_of_ne hlastStep, Function.update_of_ne (by omega)]
          exact hparts first last hle (by omega)

/-- The vertices of a walk lie in a set that contains the source and is closed under
the arcs. -/
theorem finish_mem {vertices : Finset V} (hwalk : Walk arcs steps start finish cost)
    (hstart : start ∈ vertices) (hclosed : ∀ arc ∈ arcs, arc.target ∈ vertices) :
    finish ∈ vertices := by
  cases hwalk with
  | nil => exact hstart
  | snoc _ hmem => exact hclosed _ hmem

/-- A walk with as many arcs as there are vertices comes back to some vertex. -/
theorem exists_cycle {vertices : Finset V}
    (hwalk : Walk arcs steps start finish cost) (hsource : start ∈ vertices)
    (hclosed : ∀ arc ∈ arcs, arc.target ∈ vertices) (hlong : vertices.card ≤ steps) :
    ∃ vertex before around after first cycle last, 0 < around ∧
      steps = before + around + after ∧ cost = first + cycle + last ∧
      Walk arcs before start vertex first ∧ Walk arcs around vertex vertex cycle ∧
      Walk arcs after vertex finish last := by
  obtain ⟨vertex, upTo, hstart, hfinish, hzero, hcost, hparts⟩ := hwalk.exists_trace
  have hmaps : Set.MapsTo vertex (Finset.range (steps + 1)) vertices := by
    intro index hindex
    have hle : index ≤ steps := Nat.lt_succ_iff.mp (Finset.mem_range.mp hindex)
    have hpart := hparts 0 index (Nat.zero_le _) hle
    rw [hstart] at hpart
    exact hpart.finish_mem hsource hclosed
  obtain ⟨first, hfirst, last, hlast, hne, hsame⟩ :=
    Finset.exists_ne_map_eq_of_card_lt_of_maps_to
      (by rw [Finset.card_range]; omega) hmaps
  wlog hlt : first < last generalizing first last
  · exact this last hlast first hfirst hne.symm hsame.symm (by omega)
  have hle : last ≤ steps := Nat.lt_succ_iff.mp (Finset.mem_range.mp hlast)
  have hbefore := hparts 0 first (Nat.zero_le _) (by omega)
  have haround := hparts first last hlt.le hle
  have hafter := hparts last steps hle le_rfl
  rw [hstart, hzero] at hbefore
  rw [← hsame] at haround
  rw [hfinish, hcost, ← hsame] at hafter
  refine ⟨vertex first, _, _, _, _, _, _, by omega, ?_, ?_, hbefore, haround, hafter⟩
  · omega
  · abel

end Walk

section Order

variable [LinearOrder α] [IsOrderedAddMonoid α]

/-- No closed walk that can be reached from the source has a negative cost. -/
def NoNegativeCycle (arcs : List (Arc V α)) (source : V) : Prop :=
  ∀ vertex reach around cost total, Walk arcs reach source vertex cost →
    Walk arcs around vertex vertex total → 0 ≤ total

variable {arcs : List (Arc V α)} {steps : ℕ} {source finish : V} {cost : α}

/-- Without a negative cycle a walk need not be longer than the vertices allow. -/
theorem Walk.exists_short {vertices : Finset V} (hnone : NoNegativeCycle arcs source)
    (hsource : source ∈ vertices) (hclosed : ∀ arc ∈ arcs, arc.target ∈ vertices)
    (hwalk : Walk arcs steps source finish cost) :
    ∃ fewer lower, fewer < vertices.card ∧ lower ≤ cost ∧
      Walk arcs fewer source finish lower := by
  induction steps using Nat.strong_induction_on generalizing cost with
  | _ steps ih =>
      by_cases hshort : steps < vertices.card
      · exact ⟨steps, cost, hshort, le_rfl, hwalk⟩
      · obtain ⟨vertex, before, around, after, first, cycle, last, hpos, rfl, rfl, hbefore,
          haround, hafter⟩ := hwalk.exists_cycle hsource hclosed (not_lt.mp hshort)
        have hcycle : 0 ≤ cycle := hnone vertex before around first cycle hbefore haround
        obtain ⟨fewer, lower, hfewer, hlower, hless⟩ :=
          ih (before + after) (by omega) (hbefore.trans hafter)
        refine ⟨fewer, lower, hfewer, hlower.trans ?_, hless⟩
        have hdrop : first ≤ first + cycle := le_add_of_nonneg_right hcycle
        exact add_le_add_left hdrop last

/-! ## Relaxing -/

variable [DecidableEq V] {labels : V → Option α} {vertex : V} {bound : α}

/-- The cost at which an arc reaches its target. -/
def offer (labels : V → Option α) (arc : Arc V α) : Option α :=
  (labels arc.source).map fun cost => cost + arc.weight

/-- The arc offers a lower cost than the label of its target, if there is one. -/
def improves (labels : V → Option α) (arc : Arc V α) : Bool :=
  (offer labels arc).any fun cost => (labels arc.target).all fun current => cost < current

/-- Relaxes an arc, and records whether a label has changed. -/
def relax (state : (V → Option α) × Bool) (arc : Arc V α) : (V → Option α) × Bool :=
  if improves state.1 arc then
    (Function.update state.1 arc.target (offer state.1 arc), true)
  else state

def sweep (arcs : List (Arc V α)) (labels : V → Option α) : (V → Option α) × Bool :=
  arcs.foldl relax (labels, false)

/-- At most `count` sweeps, up to the first that changes nothing. -/
def rounds (arcs : List (Arc V α)) : ℕ → (V → Option α) → V → Option α
  | 0, labels => labels
  | count + 1, labels =>
    if (sweep arcs labels).2 then rounds arcs count (sweep arcs labels).1
    else (sweep arcs labels).1

def start (source : V) : V → Option α := Function.update (fun _ => none) source (some 0)

/-- No arc offers a lower cost. -/
def Stable (arcs : List (Arc V α)) (labels : V → Option α) : Prop :=
  ∀ arc ∈ arcs, improves labels arc = false

/-- The vertex has a label that is at most the bound. -/
def AtMost (labels : V → Option α) (vertex : V) (bound : α) : Prop :=
  ∃ label, labels vertex = some label ∧ label ≤ bound

omit [AddCommGroup α] [IsOrderedAddMonoid α] [DecidableEq V] in
theorem AtMost.trans {larger : α} (hlabel : AtMost labels vertex bound)
    (hle : bound ≤ larger) : AtMost labels vertex larger := by
  obtain ⟨label, hfound, hbound⟩ := hlabel
  exact ⟨label, hfound, hbound.trans hle⟩

omit [IsOrderedAddMonoid α] [DecidableEq V] in
theorem improves_eq_false_iff {arc : Arc V α} :
    improves labels arc = false ↔ ∀ label, labels arc.source = some label →
      AtMost labels arc.target (label + arc.weight) := by
  simp only [improves, offer, AtMost]
  cases labels arc.source with
  | none => simp
  | some label => cases labels arc.target <;> simp

variable {arc : Arc V α} {flag : Bool}

omit [IsOrderedAddMonoid α] in
/-- Relaxing raises no label. -/
theorem relax_atMost (hlabel : AtMost labels vertex bound) :
    AtMost (relax (labels, flag) arc).1 vertex bound := by
  obtain ⟨label, hfound, hbound⟩ := hlabel
  rw [relax]
  split_ifs with himproves
  · simp only [improves, offer, Option.any_eq_true, Option.map_eq_some_iff] at himproves
    obtain ⟨_, ⟨cost, hcost, rfl⟩, hlower⟩ := himproves
    by_cases hsame : vertex = arc.target
    · subst hsame
      rw [hfound] at hlower
      refine ⟨cost + arc.weight, by simp [offer, hcost], ?_⟩
      exact (of_decide_eq_true hlower).le.trans hbound
    · exact ⟨label, by simpa only [Function.update_of_ne hsame] using hfound, hbound⟩
  · exact ⟨label, hfound, hbound⟩

/-- After it was relaxed an arc offers nothing that its target does not have. -/
theorem relax_target (hlabel : AtMost labels arc.source bound) :
    AtMost (relax (labels, flag) arc).1 arc.target (bound + arc.weight) := by
  obtain ⟨label, hfound, hbound⟩ := hlabel
  have hsum : label + arc.weight ≤ bound + arc.weight := add_le_add_left hbound _
  rw [relax]
  split_ifs with himproves
  · exact ⟨label + arc.weight, by simp [offer, hfound], hsum⟩
  · have hstays := improves_eq_false_iff.mp (Bool.eq_false_iff.mpr himproves) label hfound
    exact hstays.trans hsum

omit [IsOrderedAddMonoid α] in
theorem foldl_relax_atMost {state : (V → Option α) × Bool}
    (hlabel : AtMost state.1 vertex bound) :
    AtMost (arcs.foldl relax state).1 vertex bound := by
  induction arcs generalizing state with
  | nil => exact hlabel
  | cons arc rest ih => exact ih (relax_atMost hlabel)

theorem foldl_relax_target {state : (V → Option α) × Bool} (hmem : arc ∈ arcs)
    (hlabel : AtMost state.1 arc.source bound) :
    AtMost (arcs.foldl relax state).1 arc.target (bound + arc.weight) := by
  induction arcs generalizing state with
  | nil => exact absurd hmem List.not_mem_nil
  | cons head rest ih =>
      obtain ⟨labels, flag⟩ := state
      rw [List.foldl_cons]
      rcases List.mem_cons.mp hmem with rfl | hrest
      · exact foldl_relax_atMost (relax_target hlabel)
      · exact ih hrest (relax_atMost hlabel)

omit [IsOrderedAddMonoid α] in
theorem foldl_relax_flag {state : (V → Option α) × Bool}
    (hflag : (arcs.foldl relax state).2 = false) :
    state.2 = false ∧ (arcs.foldl relax state).1 = state.1 ∧ Stable arcs state.1 := by
  induction arcs generalizing state with
  | nil => exact ⟨hflag, rfl, fun _ hmem => absurd hmem List.not_mem_nil⟩
  | cons head rest ih =>
      obtain ⟨hbefore, hsame, hstable⟩ := ih hflag
      rw [relax] at hbefore hsame hstable
      split_ifs at hbefore hsame hstable with himproves
      refine ⟨hbefore, ?_, ?_⟩
      · rw [List.foldl_cons, relax, if_neg himproves]
        exact hsame
      · intro arc harc
        rcases List.mem_cons.mp harc with rfl | hrest
        · exact Bool.eq_false_iff.mpr himproves
        · exact hstable arc hrest

omit [IsOrderedAddMonoid α] in
/-- Stable labels stay. -/
theorem Stable.sweep_eq (hstable : Stable arcs labels) :
    sweep arcs labels = (labels, false) := by
  rw [sweep]
  induction arcs with
  | nil => rfl
  | cons arc rest ih =>
      rw [List.foldl_cons, relax, if_neg (Bool.eq_false_iff.mp (hstable arc List.mem_cons_self))]
      exact ih fun other hmem => hstable other (List.mem_cons_of_mem _ hmem)

/-- Every label is the cost of a walk from the source. -/
def Sound (arcs : List (Arc V α)) (source : V) (labels : V → Option α) : Prop :=
  ∀ vertex label, labels vertex = some label →
    ∃ steps, Walk arcs steps source vertex label

omit [IsOrderedAddMonoid α] [LinearOrder α] in
theorem sound_start (arcs : List (Arc V α)) (source : V) :
    Sound arcs source (start source) := by
  intro vertex label hlabel
  rw [start, Function.update_apply] at hlabel
  split_ifs at hlabel with hsame
  obtain rfl := Option.some.inj hlabel
  exact ⟨0, hsame ▸ .nil vertex⟩

omit [IsOrderedAddMonoid α] in
theorem foldl_relax_sound {all : List (Arc V α)} {state : (V → Option α) × Bool}
    (hsubset : ∀ arc ∈ arcs, arc ∈ all) (hsound : Sound all source state.1) :
    Sound all source (arcs.foldl relax state).1 := by
  induction arcs generalizing state with
  | nil => exact hsound
  | cons head rest ih =>
      apply ih fun arc harc => hsubset arc (List.mem_cons_of_mem _ harc)
      rw [relax]
      split_ifs with himproves
      · intro vertex label hlabel
        simp only [Function.update_apply] at hlabel
        split_ifs at hlabel with hsame
        · obtain ⟨cost, hcost, rfl⟩ := Option.map_eq_some_iff.mp hlabel
          obtain ⟨steps, hwalk⟩ := hsound _ _ hcost
          exact ⟨_, hsame ▸ hwalk.snoc (hsubset head List.mem_cons_self)⟩
        · exact hsound vertex label hlabel
      · exact hsound

/-! ## Rounds -/

/-- The labels have seen every walk of at most `steps` arcs. -/
def Covers (arcs : List (Arc V α)) (source : V) (steps : ℕ) (labels : V → Option α) :
    Prop :=
  ∀ fewer vertex cost, fewer ≤ steps → Walk arcs fewer source vertex cost →
    AtMost labels vertex cost

omit [IsOrderedAddMonoid α] in
theorem covers_start (arcs : List (Arc V α)) (source : V) :
    Covers arcs source 0 (start source) := by
  intro fewer vertex cost hfewer hwalk
  obtain rfl := Nat.le_zero.mp hfewer
  cases hwalk
  exact ⟨0, by rw [start, Function.update_self], le_rfl⟩

/-- A sweep covers the walks that are one arc longer. -/
theorem Covers.sweep (hcovers : Covers arcs source steps labels) :
    Covers arcs source (steps + 1) (sweep arcs labels).1 := by
  intro fewer vertex cost hfewer hwalk
  cases hwalk with
  | nil => exact foldl_relax_atMost (hcovers 0 source 0 (Nat.zero_le _) (.nil source))
  | snoc hwalk hmem =>
      exact foldl_relax_target hmem (hcovers _ _ _ (by omega) hwalk)

omit [DecidableEq V] in
/-- Stable labels cover all walks. -/
theorem Stable.atMost (hstable : Stable arcs labels)
    (hsource : AtMost labels source bound)
    (hwalk : Walk arcs steps source finish cost) :
    AtMost labels finish (bound + cost) := by
  induction hwalk with
  | nil => rwa [add_zero]
  | @snoc steps start arc cost hwalk hmem ih =>
      obtain ⟨label, hfound, hbound⟩ := ih hsource
      have hoffer := improves_eq_false_iff.mp (hstable arc hmem) label hfound
      rw [← add_assoc]
      exact hoffer.trans (add_le_add_left hbound _)

omit [IsOrderedAddMonoid α] in
theorem sound_rounds {count : ℕ} (hsound : Sound arcs source labels) :
    Sound arcs source (rounds arcs count labels) := by
  induction count generalizing labels with
  | zero => exact hsound
  | succ count ih =>
      have hswept : Sound arcs source (sweep arcs labels).1 :=
        foldl_relax_sound (fun _ hmem => hmem) hsound
      rw [rounds]
      split_ifs
      · exact ih hswept
      · exact hswept

omit [IsOrderedAddMonoid α] in
theorem rounds_atMost {count : ℕ} (hlabel : AtMost labels vertex bound) :
    AtMost (rounds arcs count labels) vertex bound := by
  induction count generalizing labels with
  | zero => exact hlabel
  | succ count ih =>
      have hswept : AtMost (sweep arcs labels).1 vertex bound :=
        foldl_relax_atMost hlabel
      rw [rounds]
      split_ifs
      · exact ih hswept
      · exact hswept

/-- The rounds end early with stable labels, or cover one more arc each. -/
theorem Covers.rounds {count : ℕ} (hcovers : Covers arcs source steps labels) :
    Stable arcs (rounds arcs count labels) ∨
      Covers arcs source (steps + count) (rounds arcs count labels) := by
  induction count generalizing labels steps with
  | zero => exact .inr hcovers
  | succ count ih =>
      rw [BellmanFord.rounds]
      split_ifs with hflag
      · have hrest := ih hcovers.sweep
        rwa [Nat.add_assoc, Nat.add_comm 1 count] at hrest
      · obtain ⟨_, hsame, hstable⟩ := foldl_relax_flag (Bool.eq_false_iff.mpr hflag)
        exact .inl (by rw [BellmanFord.sweep, hsame]; exact hstable)

/-- The labels after the rounds are stable exactly when no closed walk of negative cost
can be reached. -/
theorem stable_rounds_iff {vertices : Finset V} {count : ℕ} (hsource : source ∈ vertices)
    (hclosed : ∀ arc ∈ arcs, arc.target ∈ vertices) (hcount : vertices.card ≤ count + 1) :
    Stable arcs (rounds arcs count (start source)) ↔ NoNegativeCycle arcs source := by
  have hstart : AtMost (rounds arcs count (start source)) source 0 :=
    rounds_atMost ⟨0, by rw [start, Function.update_self], le_rfl⟩
  constructor
  · intro hstable vertex reach around cost total hreach haround
    obtain ⟨label, hlabel, _⟩ := hstable.atMost hstart hreach
    obtain ⟨again, hagain, hle⟩ := hstable.atMost ⟨label, hlabel, le_rfl⟩ haround
    obtain rfl := Option.some.inj (hlabel.symm.trans hagain)
    exact nonneg_of_le_add_right hle
  · intro hnone
    have hrounds : Stable arcs (rounds arcs count (start source)) ∨
        Covers arcs source (0 + count) (rounds arcs count (start source)) :=
      (covers_start arcs source).rounds
    rcases hrounds with hstable | hcovers
    · exact hstable
    · intro arc hmem
      rw [improves_eq_false_iff]
      intro label hlabel
      obtain ⟨steps, hwalk⟩ := sound_rounds (sound_start arcs source) _ _ hlabel
      obtain ⟨fewer, lower, hfewer, hlower, hshort⟩ :=
        (hwalk.snoc hmem).exists_short hnone hsource hclosed
      exact (hcovers fewer _ lower (by omega) hshort).trans hlower

end Order

end Gmsol.BellmanFord
