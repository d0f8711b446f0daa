import Gmsol.Library.FollowedWalks
import Gmsol.MarketGraph.BestPaths

/-!
# Best rates

Both searches compare costs alone, while the limit counts steps.  A walk that is cheaper
or as cheap but longer than allowed can therefore take the place of the best walk that
is allowed.  Both searches follow the cheapest of the walks that they try; they report the
best rate exactly when a best walk is among those and no node on it is reached cheaper.
-/

namespace Gmsol.Sdk

open Gmsol.BellmanFord Gmsol.Model Fallible

namespace MarketGraph

variable {Token : Type} [DecidableEq Token] {self : MarketGraph Token}

/-! ## Walks of a limited number of steps -/

omit [DecidableEq Token] in
/-- A walk with no more steps than allowed. -/
def WithinSteps (self : MarketGraph Token) (i j : ℕ) (cost : Decimal) : Prop :=
  ∃ path, self.SwapWalk i path j cost ∧ path.length ≤ self.config.maxSteps

omit [DecidableEq Token] in
theorem SwapWalk.ends_eq {i j : ℕ} {path : List Token} {cost : Decimal}
    (hwalk : self.SwapWalk i path j cost) (hnil : path = []) : i = j := by
  cases hwalk with
  | nil => rfl
  | snoc => exact absurd hnil (by simp)

theorem swapWalk_iff_walk (hbounded : self.Bounded) {i j steps : ℕ} {cost : Decimal} :
    (∃ path, self.SwapWalk i path j cost ∧ path.length = steps) ↔
      Walk self.pricedArcs steps i j cost := by
  constructor
  · rintro ⟨path, hwalk, rfl⟩
    induction hwalk with
    | nil => exact .nil i
    | @snoc j path cost w edge _ hmem hleaves hpriced ih =>
        have harc : (⟨j, edge.target, w⟩ : Arc ℕ Decimal) ∈ self.pricedArcs :=
          (mem_pricedArcs hbounded).mpr ⟨edge, hmem, hleaves, rfl, hpriced⟩
        rw [List.length_append, List.length_singleton]
        exact ih.snoc harc
  · intro hwalk
    induction hwalk with
    | nil start => exact ⟨[], .nil start, rfl⟩
    | snoc _ hmem ih =>
        obtain ⟨path, hpath, hlength⟩ := ih
        obtain ⟨edge, hedge, hleaves, htarget, hpriced⟩ := (mem_pricedArcs hbounded).mp hmem
        refine ⟨path ++ [edge.marketToken], htarget ▸ hpath.snoc hedge hleaves hpriced, ?_⟩
        rw [List.length_append, hlength, List.length_singleton]

theorem withinSteps_iff (hbounded : self.Bounded) {i j : ℕ} {cost : Decimal} :
    self.WithinSteps i j cost ↔
      WalkWithin self.pricedArcs self.config.maxSteps i j cost := by
  constructor
  · rintro ⟨path, hpath, hsteps⟩
    exact ⟨path.length, hsteps, (swapWalk_iff_walk hbounded).mp ⟨path, hpath, rfl⟩⟩
  · rintro ⟨steps, hsteps, hwalk⟩
    obtain ⟨path, hpath, hlength⟩ := (swapWalk_iff_walk hbounded).mpr hwalk
    exact ⟨path, hpath, hlength ▸ hsteps⟩

/-! ## The orders of the searches -/

omit [DecidableEq Token] in
/-- A priced edge that leaves node `i`, with its place. -/
def stepOf (i : ℕ) (edge : ℕ × Edge Token) : Option (Step ℕ Decimal) :=
  (pricedArc i edge.2).map fun arc => (edge.1, arc)

omit [DecidableEq Token] in
def stepsFrom (self : MarketGraph Token) (i : ℕ) : List (Step ℕ Decimal) :=
  (self.graph.outgoing i).filterMap (stepOf i)

omit [DecidableEq Token] in
/-- The priced edges in the order in which they are relaxed in one round. -/
def roundSteps (self : MarketGraph Token) : List (Step ℕ Decimal) :=
  self.nodeIdentifiers.flatMap self.stepsFrom

omit [DecidableEq Token] in
/-- The walks along the edges in the order in which they are relaxed in as many rounds as
steps are allowed. -/
def relaxedWalks (self : MarketGraph Token) (source : ℕ) : List (List (Step ℕ Decimal)) :=
  inRounds source (List.replicate self.config.maxSteps self.roundSteps).flatten

omit [DecidableEq Token] in
/-- The walks with no more steps than allowed, in the order of the search in depth. -/
def searchedWalks (self : MarketGraph Token) (source : ℕ) : List (List (Step ℕ Decimal)) :=
  inDepth self.stepsFrom (self.config.maxSteps + 1) source

theorem stepOf_mem (hbounded : self.Bounded) {i : ℕ} {edge : ℕ × Edge Token}
    {step : Step ℕ Decimal} (hmem : edge ∈ self.graph.outgoing i)
    (hstep : stepOf i edge = some step) :
    step.2 ∈ self.pricedArcs ∧ step.2.source = i := by
  obtain ⟨arc, harc, rfl⟩ := Option.map_eq_some_iff.mp hstep
  obtain ⟨w, hcost, rfl⟩ := Option.map_eq_some_iff.mp harc
  obtain ⟨hedge, hleaves⟩ := mem_outgoing_iff.mp hmem
  refine ⟨(mem_pricedArcs hbounded).mpr ⟨edge.2, ?_, hleaves, rfl, hcost⟩, rfl⟩
  exact List.mem_iff_getElem?.mpr ⟨edge.1, hedge⟩

theorem mem_stepsFrom (hbounded : self.Bounded) (i : ℕ) (step : Step ℕ Decimal)
    (hmem : step ∈ self.stepsFrom i) : step.2 ∈ self.pricedArcs ∧ step.2.source = i := by
  obtain ⟨edge, hedge, hstep⟩ := List.mem_filterMap.mp hmem
  exact stepOf_mem hbounded hedge hstep

theorem mem_roundSteps (hbounded : self.Bounded) (step : Step ℕ Decimal)
    (hmem : step ∈ self.roundSteps) : step.2 ∈ self.pricedArcs := by
  obtain ⟨i, _, hstep⟩ := List.mem_flatMap.mp hmem
  exact (mem_stepsFrom hbounded i step hstep).1

variable {source : ℕ} {labels : Labels Token} {kept : List (List (Step ℕ Decimal))}

theorem isPath_of_mem_relaxedWalks (hbounded : self.Bounded) :
    ∀ path ∈ self.relaxedWalks source, IsPath self.pricedArcs source path := by
  intro path hpath
  refine isPath_of_mem_inRounds (fun step hmem => ?_) hpath
  obtain ⟨round, hround, hstep⟩ := List.mem_flatten.mp hmem
  rw [List.eq_of_mem_replicate hround] at hstep
  exact mem_roundSteps hbounded step hstep

theorem isPath_of_mem_searchedWalks (hbounded : self.Bounded) :
    ∀ path ∈ self.searchedWalks source, IsPath self.pricedArcs source path := by
  intro path hpath
  exact isPath_of_mem_inDepth (mem_stepsFrom hbounded)
    (@isPath_nil _ _ self.pricedArcs source) hpath

/-! ## Labels of followed walks -/

omit [DecidableEq Token] in
/-- The labels are those of the walks that were found last. -/
structure Reads (source : ℕ) (kept : List (List (Step ℕ Decimal))) (labels : Labels Token) :
    Prop where
  distances : ∀ node, labels.distances node = labelOf source kept node
  predecessors : ∀ node, (labels.predecessors node).map Prod.fst = previous source kept node

omit [DecidableEq Token] in
/-- A path is read off when the predecessors come to an end. -/
theorem followPredecessors_isSome_iff {predecessors : ℕ → Option (ℕ × Token)}
    {remaining node : ℕ} {path : List Token} :
    (followPredecessors predecessors remaining (predecessors node) path).isSome = true ↔
      ReadOff (fun node => (predecessors node).map Prod.fst) remaining node := by
  induction remaining generalizing node path with
  | zero =>
      cases hpredecessor : predecessors node with
      | none => exact iff_of_true rfl (.stop (by simp [hpredecessor]))
      | some step =>
          refine iff_of_false (by simp [followPredecessors]) fun hread => ?_
          cases hread with
          | stop hnone => exact absurd hnone (by simp [hpredecessor])
  | succ remaining ih =>
      cases hpredecessor : predecessors node with
      | none => exact iff_of_true rfl (.stop (by simp [hpredecessor]))
      | some step =>
          have hsome : (predecessors node).map Prod.fst = some step.1 := by
            rw [hpredecessor, Option.map_some]
          rw [followPredecessors, ih]
          constructor
          · exact .back hsome
          · intro hread
            cases hread with
            | stop hnone => exact absurd (hnone.symm.trans hsome) (by simp)
            | back hearlier rest =>
                obtain rfl := Option.some.inj (hearlier.symm.trans hsome)
                exact rest

omit [DecidableEq Token] in
/-- A walk that was found gives its end a label and a predecessor. -/
theorem Reads.update (hreads : Reads source kept labels) {after : List (List (Step ℕ Decimal))}
    {path : List (Step ℕ Decimal)} {target : ℕ} (predecessor : Option (ℕ × Token))
    (hfound : ∀ node, found source after node =
      if target = node then some path else found source kept node)
    (hpredecessor : predecessor.map Prod.fst = path.getLast?.map fun step => step.2.source) :
    Reads source after
      { distances := Function.update labels.distances target (some (costOf path))
        predecessors := Function.update labels.predecessors target predecessor } where
  distances node := by
    by_cases hsame : target = node
    · subst hsame
      simp [labelOf, hfound]
    · dsimp only
      rw [Function.update_of_ne (Ne.symm hsame), hreads.distances, labelOf, labelOf, hfound,
        if_neg hsame]
  predecessors node := by
    by_cases hsame : target = node
    · subst hsame
      simp [previous, hfound, hpredecessor]
    · dsimp only
      rw [Function.update_of_ne (Ne.symm hsame), hreads.predecessors, previous, previous,
        hfound, if_neg hsame]

/-! ## Relaxation -/

omit [DecidableEq Token] in
theorem reads_initialLabels (source : ℕ) :
    Reads source (followed source (inRounds source [])) (initialLabels source : Labels Token) := by
  have hfound (node : ℕ) : found source
      (followed source (inRounds source ([] : List (Step ℕ Decimal)))) node =
        if source = node then some [] else none := by
    change found source (follow source [] []) node = _
    rw [follow, if_pos ⟨.inl rfl, fun _ hmem => absurd hmem List.not_mem_nil⟩, found_concat]
    rfl
  constructor
  · intro node
    simp only [labelOf, hfound, initialLabels, Function.update_apply, @eq_comm _ node]
    split_ifs <;> rfl
  · intro node
    rw [previous, hfound]
    split_ifs <;> rfl

/-- Every walk that is tried is a path. -/
theorem follows_followed {arcs : List (Arc ℕ Decimal)} {tried : List (List (Step ℕ Decimal))}
    (hpaths : ∀ path ∈ tried, IsPath arcs source path) :
    Follows arcs source (followed source tried) :=
  follows_nil.foldl hpaths

/-- Relaxing an edge continues the walk to the node that it leaves. -/
theorem Reads.relaxEdge (hbounded : self.Bounded)
    (hnone : NoNegativeCycle self.pricedArcs source) {steps : List (Step ℕ Decimal)}
    (hsteps : ∀ step ∈ steps, step.2 ∈ self.pricedArcs) {i : ℕ} {edge : ℕ × Edge Token}
    {state : Labels Token × Bool}
    (hreads : Reads source (followed source (inRounds source steps)) state.1)
    (hmem : edge ∈ self.graph.outgoing i) :
    Reads source (followed source (inRounds source (steps ++ (stepOf i edge).toList)))
      (MarketGraph.relaxEdge true i state edge.2).1 := by
  have hpaths (path : List (Step ℕ Decimal)) (hpath : path ∈ inRounds source steps) :=
    isPath_of_mem_inRounds hsteps hpath
  have hfollows := follows_followed hpaths
  have hsubset : followed source (inRounds source steps) ⊆ inRounds source steps :=
    fun path hpath => (mem_foldl_follow hpath).resolve_left List.not_mem_nil
  rw [MarketGraph.relaxEdge, hreads.distances]
  cases hcost : edge.2.cost with
  | none => simpa [stepOf, pricedArc, hcost] using hreads
  | some w =>
      have hstep : stepOf i edge = some (edge.1, ⟨i, edge.2.target, w⟩) := by
        simp [stepOf, pricedArc, hcost]
      obtain ⟨harc, _⟩ := stepOf_mem hbounded hmem hstep
      rw [hstep, Option.toList_some, inRounds, List.foldl_append, List.foldl_cons,
        List.foldl_nil, followed, List.foldl_append]
      change Reads source ((continuations source (inRounds source steps)
        (edge.1, ⟨i, edge.2.target, w⟩)).foldl (follow source)
          (followed source (inRounds source steps))) _
      cases hfound : found source (followed source (inRounds source steps)) i with
      | none =>
          rw [labelOf, hfound, Option.map_none, foldl_continuations_of_not hfollows]
          · exact hreads
          · intro path hpath
            exact absurd (hfound.symm.trans hpath) (by simp)
      | some path =>
          rw [labelOf, hfound, Option.map_some]
          simp only [if_true]
          split_ifs with hlower
          · obtain ⟨⟨hkept, _⟩, hend⟩ := (found_eq_some_iff hfollows).mp hfound
            have hother : i ≠ edge.2.target := by
              intro hsame
              rw [← hsame, hreads.distances, labelOf, hfound, Option.map_some, Option.all_some,
                decide_eq_true_eq] at hlower
              have hreach := (hfollows.paths path hkept).walk
              rw [hend] at hreach
              have hcycle : Walk self.pricedArcs 1 i i (0 + w) := by
                have hloop := (Walk.nil i).snoc harc
                rwa [← hsame] at hloop
              have hpositive := hnone i _ _ _ _ hreach hcycle
              rw [zero_add] at hpositive
              exact absurd hlower (not_lt.mpr (le_add_of_nonneg_right hpositive))
            have hcheaper (other : List (Step ℕ Decimal)) (hknown : found source
                (followed source (inRounds source steps)) edge.2.target = some other) :
                costOf path + w < costOf other := by
              rw [hreads.distances, labelOf, hknown] at hlower
              exact of_decide_eq_true hlower
            have hupdate := hreads.update (some (i, edge.2.marketToken))
              (fun node => found_continuations hfollows hsubset hpaths harc hother hfound
                hcheaper) (by simp)
            simpa only [costOf_concat] using hupdate
          · rw [foldl_continuations_of_not hfollows]
            · exact hreads
            · intro other hother
              obtain rfl := Option.some.inj (hfound.symm.trans hother)
              rw [hreads.distances, labelOf] at hlower
              cases hknown : found source (followed source (inRounds source steps))
                  edge.2.target with
              | none => simp [hknown] at hlower
              | some other => exact ⟨other, rfl, by simpa [hknown] using hlower⟩

/-- Relaxing edges one after the other. -/
theorem Reads.foldl_relaxEdge (hbounded : self.Bounded)
    (hnone : NoNegativeCycle self.pricedArcs source) {steps : List (Step ℕ Decimal)}
    (hsteps : ∀ step ∈ steps, step.2 ∈ self.pricedArcs) {i : ℕ}
    {edges : List (ℕ × Edge Token)} (hedges : ∀ edge ∈ edges, edge ∈ self.graph.outgoing i)
    {state : Labels Token × Bool}
    (hreads : Reads source (followed source (inRounds source steps)) state.1) :
    Reads source (followed source (inRounds source (steps ++ edges.filterMap (stepOf i))))
      ((edges.map Prod.snd).foldl (MarketGraph.relaxEdge true i) state).1 := by
  induction edges generalizing steps state with
  | nil => simpa using hreads
  | cons edge rest ih =>
      have hedge := hedges edge List.mem_cons_self
      have hnext := hreads.relaxEdge hbounded hnone hsteps hedge
      have hlonger : ∀ step ∈ steps ++ (stepOf i edge).toList, step.2 ∈ self.pricedArcs := by
        intro step hmem
        rcases List.mem_append.mp hmem with hbefore | hlast
        · exact hsteps step hbefore
        · exact (stepOf_mem hbounded hedge (Option.mem_toList.mp hlast)).1
      have hrest := ih hlonger (fun other hother => hedges other (List.mem_cons_of_mem _ hother))
        hnext
      rw [List.append_assoc] at hrest
      rw [List.map_cons, List.foldl_cons, List.filterMap_cons]
      cases hstep : stepOf i edge with
      | none => simpa [hstep] using hrest
      | some step => simpa [hstep] using hrest

theorem Reads.foldl_relaxNode (hbounded : self.Bounded)
    (hnone : NoNegativeCycle self.pricedArcs source) {steps : List (Step ℕ Decimal)}
    (hsteps : ∀ step ∈ steps, step.2 ∈ self.pricedArcs) (nodes : List ℕ)
    {state : Labels Token × Bool}
    (hreads : Reads source (followed source (inRounds source steps)) state.1) :
    Reads source (followed source (inRounds source (steps ++ nodes.flatMap self.stepsFrom)))
      (nodes.foldl (self.relaxNode true) state).1 := by
  induction nodes generalizing steps state with
  | nil => simpa using hreads
  | cons i rest ih =>
      have hnext : Reads source
          (followed source (inRounds source (steps ++ self.stepsFrom i)))
          (self.relaxNode true state i).1 :=
        hreads.foldl_relaxEdge hbounded hnone hsteps fun edge hmem => hmem
      rw [List.flatMap_cons, ← List.append_assoc, List.foldl_cons]
      refine ih (fun step hmem => ?_) hnext
      rcases List.mem_append.mp hmem with hbefore | hlast
      · exact hsteps step hbefore
      · exact (mem_stepsFrom hbounded i step hlast).1

/-- After so many rounds the labels are those of the walks along so many rounds. -/
theorem reads_iterate (hbounded : self.Bounded)
    (hnone : NoNegativeCycle self.pricedArcs source) (count : ℕ) :
    Reads source
      (followed source (inRounds source (List.replicate count self.roundSteps).flatten))
      ((fun labels => (self.relaxAll true labels).1)^[count] (initialLabels source)) := by
  induction count with
  | zero => exact reads_initialLabels source
  | succ count ih =>
      rw [Function.iterate_succ_apply', List.replicate_succ', List.flatten_append,
        List.flatten_singleton]
      refine Reads.foldl_relaxNode hbounded hnone (fun step hmem => ?_) self.nodeIdentifiers ih
      obtain ⟨round, hround, hstep⟩ := List.mem_flatten.mp hmem
      rw [List.eq_of_mem_replicate hround] at hstep
      exact mem_roundSteps hbounded step hstep

omit [DecidableEq Token] in
theorem relaxEdge_eq_self {withinLimit : Bool} {i : ℕ} {state : Labels Token × Bool}
    {edge : Edge Token}
    (hflag : (MarketGraph.relaxEdge withinLimit i state edge).2 = false) :
    MarketGraph.relaxEdge withinLimit i state edge = state := by
  rw [MarketGraph.relaxEdge] at hflag ⊢
  split at hflag
  · split_ifs at hflag with hlower
    · rw [if_neg hlower]
  · rfl

/-- Steps that set a flag when they change something. -/
theorem foldl_eq_self_of_flag {β γ : Type*} {step : β × Bool → γ → β × Bool}
    (hstep : ∀ state item, (step state item).2 = false → step state item = state)
    {items : List γ} {state : β × Bool} (hflag : (items.foldl step state).2 = false) :
    items.foldl step state = state := by
  induction items generalizing state with
  | nil => rfl
  | cons item rest ih =>
      rw [List.foldl_cons] at hflag ⊢
      have hsame := ih hflag
      rw [hsame] at hflag ⊢
      exact hstep state item hflag

omit [DecidableEq Token] in
/-- A round that sets no flag changes nothing. -/
theorem relaxAll_eq_self {withinLimit : Bool}
    (hflag : (self.relaxAll withinLimit labels).2 = false) :
    (self.relaxAll withinLimit labels).1 = labels := by
  rw [MarketGraph.relaxAll] at hflag ⊢
  rw [foldl_eq_self_of_flag (fun state i => ?_) hflag]
  exact foldl_eq_self_of_flag fun state edge => relaxEdge_eq_self

omit [DecidableEq Token] in
theorem relaxAll_of_stable {withinLimit : Bool}
    (hstable : Stable self.pricedArcs labels.distances) :
    (self.relaxAll withinLimit labels).1 = labels := by
  have hround := self.relaxAll_distances withinLimit labels
  rw [hstable.sweep_eq] at hround
  exact relaxAll_eq_self (Prod.mk.inj hround).2

omit [DecidableEq Token] in
/-- From the limit on the labels that are reported stay. -/
theorem reported_relaxRounds_some {remaining steps : ℕ} {distances : ℕ → Option Decimal}
    (hbeyond : self.config.maxSteps < steps) :
    reported (self.relaxRounds remaining steps labels (some distances)) =
      { labels with distances } := by
  induction remaining generalizing steps labels with
  | zero => rfl
  | succ remaining ih =>
      have hpredecessors := relaxAll_predecessors self labels
      rw [relaxRounds, decide_eq_false (by omega),
        if_neg (by omega : ¬steps = self.config.maxSteps)]
      split_ifs
      · rw [ih (by omega), hpredecessors]
      · rw [reported, hpredecessors]
        rfl

omit [DecidableEq Token] in
/-- The labels that are reported are those after as many rounds as steps are allowed. -/
theorem reported_relaxRounds_none {remaining steps : ℕ} (hlimit : steps ≤ self.config.maxSteps)
    (hstable : Stable self.pricedArcs (self.relaxRounds remaining steps labels none).1.distances) :
    reported (self.relaxRounds remaining steps labels none) =
      (fun labels => (self.relaxAll true labels).1)^[self.config.maxSteps + 1 - steps]
        labels := by
  induction remaining generalizing steps labels with
  | zero => exact (Function.iterate_fixed (relaxAll_of_stable hstable) _).symm
  | succ remaining ih =>
      have hmore : self.config.maxSteps + 1 - steps =
          self.config.maxSteps + 1 - (steps + 1) + 1 := by omega
      rw [relaxRounds, decide_eq_true hlimit] at hstable ⊢
      rw [hmore, Function.iterate_succ_apply]
      split_ifs at hstable ⊢ with hflag hlast
      · rw [reported_relaxRounds_some (by omega), hlast, Nat.sub_self]
        rfl
      · exact ih (by omega) hstable
      · have hsame := relaxAll_eq_self (Bool.eq_false_iff.mpr hflag)
        rw [hsame, Function.iterate_fixed hsame]
        rfl

/-- The relaxation finds the cheapest of the walks that it tries. -/
theorem bellmanFord_reads (hbounded : self.Bounded) {source : Token}
    {state : CollateralTokenState Token} (hknown : self.collateralTokens.get source = some state)
    (hnone : NoNegativeCycle self.pricedArcs state.ix) (hlimit : 0 < self.config.maxSteps)
    (hford : self.bellmanFord source = .ok labels) :
    Reads state.ix (followed state.ix (self.relaxedWalks state.ix)) labels := by
  obtain ⟨found, hfound, hlabels, hcycle⟩ := bellmanFord_eq_ok hford
  obtain rfl := Option.some.inj (hknown.symm.trans hfound)
  have hstable := (hasNegativeCycle_eq_false self _).mp hcycle
  rw [hlabels, reported_relaxRounds_none hlimit hstable, Nat.add_sub_cancel]
  exact reads_iterate hbounded hnone self.config.maxSteps

/-! ## Search in depth -/

omit [DecidableEq Token] in
theorem dfsRecursive_none (self : MarketGraph Token) (remaining i : ℕ)
    (predecessor : Option (ℕ × Token)) (visited : List ℕ) (labels : Labels Token) :
    self.dfsRecursive remaining i none predecessor visited labels = labels := by
  cases remaining <;> rfl

omit [DecidableEq Token] in
/-- Every visited edge leaves a node that the walk has passed. -/
def Passed (self : MarketGraph Token) (source : ℕ) (path : List (Step ℕ Decimal))
    (visited : List ℕ) : Prop :=
  ∀ ix ∈ visited, ∀ edge, self.graph.edges[ix]? = some edge →
    ∃ before, before <+: path ∧ before ≠ path ∧ endOf source before = edge.source

omit [DecidableEq Token] in
/-- Back on the way no cost can be saved, as no negative cycle is reached: a visited edge
leaves only from a node that is reached as cheaply. -/
theorem Passed.exists_cheap {path : List (Step ℕ Decimal)} {visited : List ℕ}
    (hpassed : self.Passed source path visited)
    (hnone : NoNegativeCycle self.pricedArcs source)
    (hpath : IsPath self.pricedArcs source path)
    (hbefore : ∀ before, before <+: path → before ≠ path → before ∈ kept)
    {edge : ℕ × Edge Token} (hmem : edge ∈ self.graph.outgoing (endOf source path))
    (hvisited : edge.1 ∈ visited) :
    ∃ other ∈ kept, endOf source other = endOf source path ∧ costOf other ≤ costOf path := by
  obtain ⟨hedge, hleaves⟩ := mem_outgoing_iff.mp hmem
  obtain ⟨before, ⟨rest, rfl⟩, hne, hend⟩ := hpassed edge.1 hvisited edge.2 hedge
  rw [hleaves] at hend
  refine ⟨before, hbefore before (List.prefix_append ..) hne, hend, ?_⟩
  have hreach : Walk self.pricedArcs before.length source (endOf source before)
      (costOf before) := by
    apply IsPath.walk
    exact fun first step hstarts => hpath first step (hstarts.trans (List.prefix_append ..))
  have haround := hpath.walk_append
  rw [← hend] at haround
  rw [costOf_append]
  exact le_add_of_nonneg_right (hnone _ _ _ _ _ hreach haround)

omit [DecidableEq Token] in
theorem Passed.concat {path : List (Step ℕ Decimal)} {visited : List ℕ}
    (hpassed : self.Passed source path visited) {edge : ℕ × Edge Token}
    {step : Step ℕ Decimal} (hmem : edge ∈ self.graph.outgoing (endOf source path)) :
    self.Passed source (path ++ [step]) (edge.1 :: visited) := by
  obtain ⟨hedge, hleaves⟩ := mem_outgoing_iff.mp hmem
  intro ix hix other hother
  rcases List.mem_cons.mp hix with rfl | hbefore
  · obtain rfl := Option.some.inj (hedge.symm.trans hother)
    exact ⟨path, List.prefix_append .., by simp, hleaves.symm⟩
  · obtain ⟨before, hstarts, _, hend⟩ := hpassed ix hbefore other hother
    refine ⟨before, hstarts.trans (List.prefix_append ..), ?_, hend⟩
    rintro rfl
    simpa using hstarts.length_le

omit [DecidableEq Token] in
/-- The edges that leave a node have different places. -/
theorem outgoing_nodup (self : MarketGraph Token) (i : ℕ) :
    ((self.graph.outgoing i).map Prod.fst).Nodup := by
  have hplaces : ((self.graph.edges.zipIdx.map Prod.swap).reverse.map Prod.fst).Nodup := by
    rw [List.map_reverse, List.nodup_reverse, List.map_map]
    exact List.nodup_zipIdx_map_snd self.graph.edges
  exact hplaces.sublist (List.filter_sublist.map Prod.fst)

omit [DecidableEq Token] in
/-- A walk that the search is about to try, after those that it has followed. -/
structure Trial (whole : MarketGraph Token) (source : ℕ) (kept : List (List (Step ℕ Decimal)))
    (labels : Labels Token) (path : List (Step ℕ Decimal)) (predecessor : Option (ℕ × Token))
    (visited : List ℕ) : Prop where
  follows : Follows whole.pricedArcs source kept
  reads : Reads source kept labels
  isPath : IsPath whole.pricedArcs source path
  before : ∀ before, before <+: path → before ≠ path → before ∈ kept
  new : ∀ other ∈ kept, ¬path <+: other
  predecessor : predecessor.map Prod.fst = path.getLast?.map fun step => step.2.source
  passed : whole.Passed source path visited

omit [DecidableEq Token] in
/-- The walks that are tried past a walk, from its end on. -/
def triedPast (self : MarketGraph Token) (source remaining : ℕ) (path : List (Step ℕ Decimal)) :
    List (List (Step ℕ Decimal)) :=
  (inDepth self.stepsFrom remaining (endOf source path)).map (path ++ ·)

theorem isPath_of_mem_triedPast (hbounded : self.Bounded) {remaining : ℕ}
    {path : List (Step ℕ Decimal)} (hpath : IsPath self.pricedArcs source path) :
    ∀ trial ∈ self.triedPast source remaining path, IsPath self.pricedArcs source trial := by
  intro trial htrial
  obtain ⟨rest, hrest, rfl⟩ := List.mem_map.mp htrial
  exact isPath_of_mem_inDepth (mem_stepsFrom hbounded) hpath hrest

/-- An edge makes a trial of the walk that goes on with it. -/
theorem trial_concat (hbounded : self.Bounded) {path : List (Step ℕ Decimal)}
    {visited : List ℕ} {edge : ℕ × Edge Token} {step : Step ℕ Decimal}
    (hmem : edge ∈ self.graph.outgoing (endOf source path))
    (hstep : stepOf (endOf source path) edge = some step)
    (hfollows : Follows self.pricedArcs source kept) (hreads : Reads source kept labels)
    (hpath : IsPath self.pricedArcs source path)
    (hbefore : ∀ before, before <+: path → before ∈ kept)
    (hnew : ∀ other ∈ kept, ¬path ++ [step] <+: other)
    (hpassed : self.Passed source path visited) :
    self.Trial source kept labels (path ++ [step])
      (some (endOf source path, edge.2.marketToken)) (edge.1 :: visited) where
  follows := hfollows
  reads := hreads
  isPath := isPath_concat.mpr ⟨hpath, stepOf_mem hbounded hmem hstep⟩
  before := by
    intro before hstarts hne
    rcases List.prefix_concat_iff.mp hstarts with hall | hshort
    · exact absurd hall hne
    · exact hbefore before hshort
  new := hnew
  predecessor := by
    rw [List.getLast?_concat]
    exact congrArg some (stepOf_mem hbounded hmem hstep).2.symm
  passed := hpassed.concat hmem

omit [DecidableEq Token] in
/-- A walk that goes on by another edge is not among those that were tried. -/
theorem not_prefix_of_mem_tried {remaining : ℕ} {path : List (Step ℕ Decimal)}
    {step next : Step ℕ Decimal} (hother : next.1 ≠ step.1)
    (hold : ∀ other ∈ kept, ¬path ++ [next] <+: other) :
    ∀ other ∈ (self.triedPast source remaining (path ++ [step])).foldl (follow source) kept,
      ¬path ++ [next] <+: other := by
  intro other hkept hstarts
  rcases prefix_of_mem_foldl _ hkept with hbefore | hbegins
  · exact hold other hbefore hstarts
  · have hsame : path ++ [next] = path ++ [step] :=
      (List.prefix_of_prefix_length_le hstarts hbegins (by simp)).eq_of_length (by simp)
    rw [List.append_right_inj, List.singleton_inj] at hsame
    exact hother (congrArg Prod.fst hsame)

/-- Past a walk that was followed the search tries the edges that leave its end, if a
visit tries all walks past one more edge. -/
theorem reads_outgoing (hbounded : self.Bounded) {remaining : ℕ}
    {path : List (Step ℕ Decimal)} {visited : List ℕ} {edges : List (ℕ × Edge Token)}
    (hvisit : ∀ {kept labels path predecessor visited},
      self.Trial source kept labels path predecessor visited →
      Reads source ((self.triedPast source remaining path).foldl (follow source) kept)
        (self.dfsRecursive remaining (endOf source path) (some (costOf path)) predecessor
          visited labels))
    (hedges : ∀ edge ∈ edges, edge ∈ self.graph.outgoing (endOf source path))
    (hnodup : (edges.map Prod.fst).Nodup) (hfresh : ∀ edge ∈ edges, edge.1 ∉ visited)
    (hfollows : Follows self.pricedArcs source kept) (hreads : Reads source kept labels)
    (hpath : IsPath self.pricedArcs source path)
    (hbefore : ∀ before, before <+: path → before ∈ kept)
    (hnew : ∀ edge ∈ edges, ∀ other ∈ kept, ∀ arc, ¬path ++ [(edge.1, arc)] <+: other)
    (hpassed : self.Passed source path visited) :
    Reads source
      (((edges.filterMap (stepOf (endOf source path))).flatMap fun step =>
        self.triedPast source remaining (path ++ [step])).foldl (follow source) kept)
      (edges.foldl (fun labels edge =>
        if edge.1 ∈ visited then labels
        else self.dfsRecursive remaining edge.2.target
          (edge.2.cost.map fun w => w + costOf path)
          (some (endOf source path, edge.2.marketToken)) (edge.1 :: visited) labels)
        labels) := by
  induction edges generalizing kept labels with
  | nil => exact hreads
  | cons edge rest ih =>
      obtain ⟨hother, hrest⟩ := List.nodup_cons.mp hnodup
      have hmem := hedges edge List.mem_cons_self
      have htail {next : ℕ × Edge Token} (hnext : next ∈ rest) : next ∈ edge :: rest :=
        List.mem_cons_of_mem _ hnext
      rw [List.foldl_cons, if_neg (hfresh edge List.mem_cons_self), List.filterMap_cons]
      cases hcost : edge.2.cost with
      | none =>
          rw [Option.map_none, dfsRecursive_none]
          simp only [stepOf, pricedArc, hcost, Option.map_none]
          exact ih (fun next hnext => hedges next (htail hnext)) hrest
            (fun next hnext => hfresh next (htail hnext)) hfollows hreads hbefore
            fun next hnext => hnew next (htail hnext)
      | some w =>
          have hstep : stepOf (endOf source path) edge =
              some (edge.1, ⟨endOf source path, edge.2.target, w⟩) := by
            rw [stepOf, pricedArc, hcost]
            rfl
          have htrial := trial_concat hbounded hmem hstep hfollows hreads hpath hbefore
            (fun other hkept => hnew edge List.mem_cons_self other hkept _) hpassed
          have hfirst := hvisit htrial
          rw [endOf_concat, costOf_concat] at hfirst
          rw [hstep, Option.map_some, add_comm w]
          dsimp only
          rw [List.flatMap_cons, List.foldl_append]
          apply ih (fun next hnext => hedges next (htail hnext)) hrest
            (fun next hnext => hfresh next (htail hnext))
            (hfollows.foldl (isPath_of_mem_triedPast hbounded htrial.isPath)) hfirst
            (fun before hstarts => subset_foldl_follow _ _ _ (hbefore before hstarts))
          intro next hnext other hkept arc
          refine not_prefix_of_mem_tried (fun hplace => hother ?_)
            (fun other hold => hnew next (htail hnext) other hold arc) other hkept
          exact hplace ▸ List.mem_map_of_mem hnext

omit [DecidableEq Token] in
/-- All walks past a walk begin with itself, and go on with the edges from its end. -/
theorem triedPast_succ (self : MarketGraph Token) (source remaining : ℕ)
    (path : List (Step ℕ Decimal)) :
    self.triedPast source (remaining + 1) path =
      path :: (self.stepsFrom (endOf source path)).flatMap fun step =>
        self.triedPast source remaining (path ++ [step]) := by
  simp [triedPast, inDepth, List.map_flatMap, List.map_map, Function.comp_def]

/-- A visit follows the cheapest of the walks past the one by which it came. -/
theorem dfsRecursive_reads (hbounded : self.Bounded)
    (hnone : NoNegativeCycle self.pricedArcs source) {remaining : ℕ}
    {path : List (Step ℕ Decimal)} {predecessor : Option (ℕ × Token)} {visited : List ℕ}
    (htrial : self.Trial source kept labels path predecessor visited) :
    Reads source ((self.triedPast source remaining path).foldl (follow source) kept)
      (self.dfsRecursive remaining (endOf source path) (some (costOf path)) predecessor visited
        labels) := by
  induction remaining generalizing kept labels path predecessor visited with
  | zero => exact htrial.reads
  | succ remaining ih =>
      obtain ⟨hfollows, hreads, hpath, hbefore, hnew, hpredecessor, hpassed⟩ := htrial
      rw [dfsRecursive, hreads.distances]
      split_ifs with hbest
      · obtain ⟨best, hknown, hle⟩ := (Option.any_eq_true _ _).mp hbest
        obtain ⟨other, hother, rfl⟩ := Option.map_eq_some_iff.mp hknown
        obtain ⟨⟨hkept, _⟩, hend⟩ := (found_eq_some_iff hfollows).mp hother
        rw [triedPast, foldl_inDepth_of_not hnew ⟨other, hkept, hend, of_decide_eq_true hle⟩]
        exact hreads
      · have hcheaper : ∀ other ∈ kept, endOf source other = endOf source path →
            costOf path < costOf other := by
          intro other hkept hend
          by_contra hle
          obtain ⟨lowest, hlowest⟩ := exists_found hkept
          rw [hend] at hlowest
          obtain ⟨⟨_, hleast⟩, hsame⟩ := (found_eq_some_iff hfollows).mp hlowest
          have hbelow := (hleast other hkept (hend.trans hsame.symm)).trans (not_lt.mp hle)
          exact hbest (by simp [labelOf, hlowest, hbelow])
        have hfirst : path = [] ∨ path.dropLast ∈ kept := by
          cases path using List.reverseRecOn with
          | nil => exact .inl rfl
          | append_singleton path step =>
              right
              rw [List.dropLast_concat]
              exact hbefore path (List.prefix_append ..) (by simp)
        have hadded : follow source kept path = kept ++ [path] := if_pos ⟨hfirst, hcheaper⟩
        have hupdate := hreads.update predecessor (fun node => found_concat) hpredecessor
        rw [triedPast_succ, List.foldl_cons, hadded]
        apply reads_outgoing hbounded ih (fun edge hmem => hmem) (self.outgoing_nodup _)
        · intro edge hmem hvisited
          obtain ⟨other, hkept, hend, hle⟩ :=
            hpassed.exists_cheap hnone hpath hbefore hmem hvisited
          exact absurd hle (not_le.mpr (hcheaper other hkept hend))
        · rw [← hadded]
          exact hfollows.follow hpath
        · exact hupdate
        · exact hpath
        · intro before hstarts
          by_cases hall : before = path
          · exact List.mem_append_right _ (List.mem_singleton.mpr hall)
          · exact List.mem_append_left _ (hbefore before hstarts hall)
        · intro edge _ other hkept arc hstarts
          rcases List.mem_append.mp hkept with hold | hlast
          · exact hnew other hold ((List.prefix_append ..).trans hstarts)
          · rw [List.mem_singleton.mp hlast] at hstarts
            simpa using hstarts.length_le
        · exact hpassed

/-- The search in depth finds the cheapest of the walks that it tries. -/
theorem dfs_reads (hbounded : self.Bounded) {source : Token}
    {state : CollateralTokenState Token} (hknown : self.collateralTokens.get source = some state)
    (hnone : NoNegativeCycle self.pricedArcs state.ix) (hdfs : self.dfs source = .ok labels) :
    Reads state.ix (followed state.ix (self.searchedWalks state.ix)) labels := by
  rw [dfs, sourceNode, hknown] at hdfs
  obtain rfl := Except.ok.inj hdfs
  have htrial : self.Trial state.ix [] ⟨fun _ => none, fun _ => none⟩ [] none [] := by
    refine ⟨follows_nil, ⟨fun _ => rfl, fun _ => rfl⟩, isPath_nil, fun before hstarts hne => ?_,
      fun _ hmem => absurd hmem List.not_mem_nil, rfl,
      fun _ hmem => absurd hmem List.not_mem_nil⟩
    exact absurd (List.prefix_nil.mp hstarts) hne
  have hsearch : Reads state.ix
      ((self.triedPast state.ix (self.config.maxSteps + 1) []).foldl (follow state.ix) []) _ :=
    dfsRecursive_reads hbounded hnone htrial
  have hall : self.triedPast state.ix (self.config.maxSteps + 1) [] =
      self.searchedWalks state.ix := by
    simp [triedPast, searchedWalks]
  rwa [hall] at hsearch

/-! ## Best rates -/

/-- The cost of a walk from one token to another with no more steps than allowed. -/
def SwapsWithin (self : MarketGraph Token) (source target : Token) (cost : Decimal) : Prop :=
  ∃ sourceState targetState, self.collateralTokens.get source = some sourceState ∧
    self.collateralTokens.get target = some targetState ∧
    self.WithinSteps sourceState.ix targetState.ix cost

/-- The rate is that of the cheapest walk with no more steps than allowed, and there is
none if there is no such walk. -/
def IsBestRate (self : MarketGraph Token) (exp : Decimal → Decimal) (source target : Token) :
    Option Decimal → Prop
  | none => ∀ cost, ¬self.SwapsWithin source target cost
  | some rate => ∃ cost, IsLeast {cost | self.SwapsWithin source target cost} cost ∧
      rate = exp (-cost)

theorem IsBestRate.unique {exp : Decimal → Decimal} {source target : Token}
    {rate other : Option Decimal} (hrate : self.IsBestRate exp source target rate)
    (hother : self.IsBestRate exp source target other) : rate = other := by
  cases rate with
  | none =>
      cases other with
      | none => rfl
      | some other =>
          obtain ⟨cost, hcost, _⟩ := hother
          exact absurd hcost.1 (hrate cost)
  | some rate =>
      obtain ⟨cost, hcost, rfl⟩ := hrate
      cases other with
      | none => exact absurd hcost.1 (hother cost)
      | some other =>
          obtain ⟨least, hleast, rfl⟩ := hother
          rw [hcost.unique hleast]

omit [DecidableEq Token] in
/-- To another node a walk needs a step. -/
theorem WithinSteps.pos {i j : ℕ} {cost : Decimal} (hwithin : self.WithinSteps i j cost)
    (hends : i ≠ j) : 0 < self.config.maxSteps := by
  obtain ⟨path, hpath, hlength⟩ := hwithin
  apply Nat.pos_of_ne_zero
  intro hzero
  rw [hzero, Nat.le_zero, List.length_eq_zero_iff] at hlength
  exact hends (hpath.ends_eq hlength)

/-- A rate to another token is that of a walk with no more steps than allowed. -/
theorem exists_swapsWithin {paths : BestSwapPaths Token} {source target : Token} {skip : Bool}
    {exp : Decimal → Decimal} {rate : Decimal}
    (hpaths : self.bestSwapPaths source skip = .ok paths) (hother : source ≠ target)
    (hrate : (self.bestSwapPathTo exp paths target).1 = some rate) :
    ∃ cost, self.SwapsWithin source target cost := by
  have hfrom : paths.source ≠ target := (bestSwapPaths_eq_ok hpaths).1.symm ▸ hother
  rw [bestSwapPathTo] at hrate
  cases htarget : self.collateralTokens.get target with
  | none =>
      rw [htarget] at hrate
      exact absurd hrate (by simp)
  | some targetState =>
      rw [htarget] at hrate
      simp only [if_neg hfrom] at hrate
      cases hfollow : MarketGraph.followPredecessors paths.labels.predecessors
          self.config.maxSteps (paths.labels.predecessors targetState.ix) [] with
      | none =>
          rw [hfollow] at hrate
          exact absurd hrate (by simp)
      | some steps =>
          rw [hfollow] at hrate
          dsimp only at hrate
          split_ifs at hrate with hempty
          have hsteps : steps ≠ [] := fun hnil => hempty (by rw [hnil]; rfl)
          obtain ⟨d, hdistance, _⟩ := Option.map_eq_some_iff.mp hrate
          obtain ⟨state, hknown, hlabeled⟩ :=
            bestSwapPaths_labeled hpaths (pos_of_followPredecessors hfollow hsteps)
          obtain ⟨walked, cost, hwalked, hlength, hwalk, _⟩ :=
            hlabeled.followPredecessors hdistance hfollow
          rw [List.nil_append] at hwalked
          subst hwalked
          exact ⟨cost, state, targetState, hknown, htarget, _, hwalk,
            by rwa [List.length_reverse]⟩

/-- To a token that is not reached within the limit no rate is reported. -/
theorem isBestRate_of_not_reached {paths : BestSwapPaths Token} {source target : Token}
    {skip : Bool} {exp : Decimal → Decimal}
    (hpaths : self.bestSwapPaths source skip = .ok paths) (hother : source ≠ target)
    (hreach : ¬∃ cost, self.SwapsWithin source target cost) :
    self.IsBestRate exp source target (self.bestSwapPathTo exp paths target).1 := by
  cases hrate : (self.bestSwapPathTo exp paths target).1 with
  | none => exact fun cost hcost => hreach ⟨cost, hcost⟩
  | some rate => exact absurd (exists_swapsWithin hpaths hother hrate) hreach

/-- The rate to another token is that of its distance, if the predecessors come to an
end. -/
theorem bestSwapPathTo_eq_some_iff {paths : BestSwapPaths Token} {target : Token}
    {state : CollateralTokenState Token} {exp : Decimal → Decimal} {rate : Decimal}
    (hlabeled : self.Labeled source paths.labels) (hother : paths.source ≠ target)
    (htarget : self.collateralTokens.get target = some state) (hends : source ≠ state.ix) :
    (self.bestSwapPathTo exp paths target).1 = some rate ↔
      ReadOff (fun node => (paths.labels.predecessors node).map Prod.fst)
        self.config.maxSteps state.ix ∧
      ∃ d, paths.labels.distances state.ix = some d ∧ exp (-d) = rate := by
  rw [bestSwapPathTo, htarget]
  simp only [if_neg hother]
  cases hfollow : followPredecessors paths.labels.predecessors self.config.maxSteps
      (paths.labels.predecessors state.ix) [] with
  | none =>
      have hread := not_congr (@followPredecessors_isSome_iff _ paths.labels.predecessors
        self.config.maxSteps state.ix [])
      rw [hfollow] at hread
      exact iff_of_false (by simp) fun hall => hread.mp (by simp) hall.1
  | some steps =>
      have hread := followPredecessors_isSome_iff.mp (Option.isSome_of_eq_some hfollow)
      dsimp only
      rw [← Option.map_eq_some_iff, and_iff_right hread]
      split_ifs with hempty
      · refine iff_of_false (by simp) fun hsome => ?_
        obtain ⟨d, hdistance, _⟩ := Option.map_eq_some_iff.mp hsome
        obtain ⟨walked, _, hwalked, _, hwalk, _⟩ :=
          hlabeled.followPredecessors hdistance hfollow
        rw [List.nil_append] at hwalked
        subst hwalked
        exact hends (hwalk.ends_eq (List.isEmpty_iff.mp hempty))
      · rfl

theorem swapsWithin_iff (hbounded : self.Bounded) {source target : Token}
    {state targetState : CollateralTokenState Token} {cost : Decimal}
    (hknown : self.collateralTokens.get source = some state)
    (htarget : self.collateralTokens.get target = some targetState) :
    self.SwapsWithin source target cost ↔
      WalkWithin self.pricedArcs self.config.maxSteps state.ix targetState.ix cost := by
  rw [← withinSteps_iff hbounded]
  constructor
  · rintro ⟨sourceState, otherState, hsource, hother, hcost⟩
    obtain rfl := Option.some.inj (hknown.symm.trans hsource)
    obtain rfl := Option.some.inj (htarget.symm.trans hother)
    exact hcost
  · exact fun hcost => ⟨state, targetState, hknown, htarget, hcost⟩

/-- A cheapest walk to the target with no more steps than allowed is followed, and no
followed walk to a node on it costs less than its way to that node. -/
def FindsBest (self : MarketGraph Token) (tried : List (List (Step ℕ Decimal)))
    (source target : ℕ) : Prop :=
  ∃ path, Unbeaten source (followed source tried) path ∧ endOf source path = target ∧
    path.length ≤ self.config.maxSteps ∧
    ∀ cost, self.WithinSteps source target cost → costOf path ≤ cost

/-- From the labels of the walks that were found, the rate to a token within the limit is
the best one exactly when a best walk was found. -/
theorem Reads.isBestRate_iff (hbounded : self.Bounded)
    {paths : BestSwapPaths Token} {source target : Token} {skip : Bool}
    {state targetState : CollateralTokenState Token} {exp : Decimal → Decimal}
    {tried : List (List (Step ℕ Decimal))} (hexp : Function.Injective exp)
    (hpaths : self.bestSwapPaths source skip = .ok paths)
    (hknown : self.collateralTokens.get source = some state) (hother : source ≠ target)
    (htarget : self.collateralTokens.get target = some targetState)
    (hends : state.ix ≠ targetState.ix)
    (hreach : ∃ cost, self.WithinSteps state.ix targetState.ix cost)
    (htried : ∀ path ∈ tried, IsPath self.pricedArcs state.ix path)
    (hreads : Reads state.ix (followed state.ix tried) paths.labels) :
    self.IsBestRate exp source target (self.bestSwapPathTo exp paths target).1 ↔
      self.FindsBest tried state.ix targetState.ix := by
  obtain ⟨within, hwithin⟩ := hreach
  have hswaps {cost : Decimal} := @swapsWithin_iff _ _ self hbounded _ _ _ _ cost hknown htarget
  have hfollows := follows_followed htried
  have hprevious : (fun node => (paths.labels.predecessors node).map Prod.fst) =
      previous state.ix (followed state.ix tried) := funext hreads.predecessors
  obtain ⟨known, hsame, hlabeled⟩ := bestSwapPaths_labeled hpaths (hwithin.pos hends)
  obtain rfl := Option.some.inj (hknown.symm.trans hsame)
  have hfrom : paths.source ≠ target := (bestSwapPaths_eq_ok hpaths).1.symm ▸ hother
  have hrated {rate : Decimal} := @bestSwapPathTo_eq_some_iff _ _ self state.ix paths target
    targetState exp rate hlabeled hfrom htarget hends
  rw [hprevious, hreads.distances] at hrated
  constructor
  · intro hrate
    cases hresult : (self.bestSwapPathTo exp paths target).1 with
    | none =>
        rw [hresult] at hrate
        exact absurd (hswaps.mpr ((withinSteps_iff hbounded).mp hwithin)) (hrate within)
    | some rate =>
        rw [hresult] at hrate
        obtain ⟨least, ⟨_, hleast⟩, rfl⟩ := hrate
        obtain ⟨hread, d, hdistance, hsameRate⟩ := hrated.mp hresult
        obtain rfl := neg_injective (hexp hsameRate)
        obtain ⟨path, hfound, rfl⟩ := Option.map_eq_some_iff.mp hdistance
        have hbest (cost : Decimal) (hwalk : WalkWithin self.pricedArcs self.config.maxSteps
            state.ix targetState.ix cost) : costOf path ≤ cost := hleast (hswaps.mpr hwalk)
        obtain ⟨hunbeaten, hlength⟩ := (readOff_iff hfollows hfound hbest).mp hread
        obtain ⟨_, hend⟩ := (found_eq_some_iff hfollows).mp hfound
        exact ⟨path, hunbeaten, hend, hlength, fun cost hcost =>
          hbest cost ((withinSteps_iff hbounded).mp hcost)⟩
  · rintro ⟨path, hunbeaten, hend, hlength, hbest⟩
    have hfound := (unbeaten_iff hfollows).mp hunbeaten path List.prefix_rfl
    obtain ⟨⟨hkept, _⟩, _⟩ := (found_eq_some_iff hfollows).mp hfound
    have hwalk := (hfollows.paths path hkept).walk
    rw [hend] at hfound hwalk
    have hread := (readOff_iff hfollows hfound fun cost hcost =>
      hbest cost ((withinSteps_iff hbounded).mpr hcost)).mpr ⟨hunbeaten, hlength⟩
    have hrate : (self.bestSwapPathTo exp paths target).1 = some (exp (-costOf path)) :=
      hrated.mpr ⟨hread, costOf path, by rw [labelOf, hfound, Option.map_some], rfl⟩
    rw [hrate]
    refine ⟨costOf path, ⟨hswaps.mpr ⟨path.length, hlength, hwalk⟩, fun cost hcost => ?_⟩, rfl⟩
    exact hbest cost ((withinSteps_iff hbounded).mpr (hswaps.mp hcost))

/-- Without a negative cycle the labels come from the relaxation. -/
theorem bestSwapPaths_relaxed (hbounded : self.Bounded) {source : Token}
    {state : CollateralTokenState Token} (hknown : self.collateralTokens.get source = some state)
    (hnone : ¬self.Arbitrage state.ix) :
    ∃ paths, self.bestSwapPaths source false = .ok paths ∧
      self.bellmanFord source = .ok paths.labels := by
  have hcycle : self.hasNegativeCycle (self.relaxRounds (self.nodeCount - 1) 1
      (initialLabels state.ix) none).1.distances = false :=
    Bool.eq_false_iff.mpr fun hnegative =>
      hnone ((hasNegativeCycle_iff hbounded (hbounded.nodes hknown)).mp hnegative)
  obtain ⟨labels, hford⟩ : ∃ labels, self.bellmanFord source = .ok labels := by
    rw [bellmanFord, sourceNode, hknown]
    dsimp only [Except.bind, bind]
    rw [hcycle]
    exact ⟨_, rfl⟩
  refine ⟨⟨source, labels, some false⟩, ?_, hford⟩
  rw [bestSwapPaths, hford]
  rfl

theorem not_arbitrage_of_flag (hbounded : self.Bounded) {paths : BestSwapPaths Token}
    {source : Token} {state : CollateralTokenState Token}
    (hknown : self.collateralTokens.get source = some state)
    (hpaths : self.bestSwapPaths source false = .ok paths)
    (hflag : paths.arbitrageExists = some false) : ¬self.Arbitrage state.ix := by
  obtain ⟨found, flag, hfound, hfoundFlag, hiff⟩ := bestSwapPaths_flag hbounded hknown
  obtain rfl := Except.ok.inj (hpaths.symm.trans hfound)
  obtain rfl := Option.some.inj (hflag.symm.trans hfoundFlag)
  exact fun harbitrage => absurd (hiff.mpr harbitrage) (by simp)

section Reached

variable [MarketNum] {checkedLn : Decimal → Option Decimal}

end Reached

/-! ## Free swaps -/

omit [DecidableEq Token] in
theorem SwapWalk.cost_eq_zero
    (hfree : ∀ edge ∈ self.graph.edges, ∀ w, edge.cost = some w → w = 0)
    {i j : ℕ} {path : List Token} {cost : Decimal} (hwalk : self.SwapWalk i path j cost) :
    cost = 0 := by
  induction hwalk with
  | nil => rfl
  | snoc _ hmem _ hpriced ih => rw [ih, hfree _ hmem _ hpriced, add_zero]

/-- Some followed walk to the target is unbeaten, within the limit and free. -/
def findsFree (maxSteps source target : ℕ) (kept : List (List (Step ℕ Decimal))) : Bool :=
  kept.any fun path => decide (Unbeaten source kept path ∧ endOf source path = target ∧
    path.length ≤ maxSteps ∧ costOf path = 0)

omit [DecidableEq Token] in
theorem findsBest_of_free
    (hfree : ∀ edge ∈ self.graph.edges, ∀ w, edge.cost = some w → w = 0)
    {tried : List (List (Step ℕ Decimal))} {source target : ℕ}
    (hfinds : findsFree self.config.maxSteps source target (followed source tried) = true) :
    self.FindsBest tried source target := by
  obtain ⟨path, _, hpath⟩ := List.any_eq_true.mp hfinds
  obtain ⟨hunbeaten, hend, hlength, hcost⟩ := of_decide_eq_true hpath
  refine ⟨path, hunbeaten, hend, hlength, fun cost hwithin => ?_⟩
  obtain ⟨_, hwalk, _⟩ := hwithin
  rw [hcost, hwalk.cost_eq_zero hfree]

/-- A market of two tokens, without fees and price impact. -/
def marketBetween (marketTokenMint longTokenMint shortTokenMint : ℕ) : MarketModel ℕ where
  isPure := false
  info := ⟨marketTokenMint, 9, longTokenMint, shortTokenMint⟩
  market := (marketExample marketTokenMint 9).market

def pricesArrive : List (Call ℕ) :=
  [9, 1, 2, 3, 4, 5].map fun token => .updateTokenPrice token ⟨10 ^ 20, 10 ^ 20⟩

/-- Two ways lead from the token 1 to the token 4, one over the token 5 and a longer one
over the tokens 2 and 3. -/
def directCalls : List (Call ℕ) :=
  [.insertMarket (marketBetween 13 1 5), .insertMarket (marketBetween 14 5 4),
    .insertMarket (marketBetween 10 1 2), .insertMarket (marketBetween 11 2 3),
    .insertMarket (marketBetween 12 3 4)] ++ pricesArrive

section Store

attribute [local instance] storeNumbers

/-- The same markets, but those of the longer way came first. -/
def detourCalls : List (Call ℕ) :=
  [.insertMarket (marketBetween 10 1 2), .insertMarket (marketBetween 11 2 3),
    .insertMarket (marketBetween 12 3 4), .insertMarket (marketBetween 13 1 5),
    .insertMarket (marketBetween 14 5 4)] ++ pricesArrive

end Store

end MarketGraph

end Gmsol.Sdk
