import Gmsol.MarketGraph.Bounded

/-!
# The arbitrage flag

The relaxation of the market graph is the one of its priced edges.  Edges only
lead from node to node, so the flag says whether a cycle of priced edges with a
negative cost can be reached from the source.
-/

namespace Gmsol.Sdk

open Gmsol.BellmanFord Gmsol.Model

namespace MarketGraph

variable {Token : Type} [DecidableEq Token] {self : MarketGraph Token}

/-! ## Priced edges -/

omit [DecidableEq Token] in
/-- The arc of an edge that leaves node `i`, if the edge has a cost. -/
def pricedArc (i : ℕ) (edge : Edge Token) : Option (Arc ℕ Decimal) :=
  edge.cost.map fun w => ⟨i, edge.target, w⟩

omit [DecidableEq Token] in
/-- The priced edges in the order in which they are relaxed. -/
def pricedArcs (self : MarketGraph Token) : List (Arc ℕ Decimal) :=
  self.nodeIdentifiers.flatMap fun i =>
    ((self.graph.outgoing i).map Prod.snd).filterMap (pricedArc i)

omit [DecidableEq Token] in
/-- Some priced edge leads from one node to the other at the given cost. -/
def Swaps (self : MarketGraph Token) (i j : ℕ) (cost : Decimal) : Prop :=
  ∃ edge ∈ self.graph.edges, edge.source = i ∧ edge.target = j ∧ edge.cost = some cost

omit [DecidableEq Token] in
/-- A path along priced edges and its cost. -/
inductive Path (self : MarketGraph Token) : ℕ → ℕ → Decimal → Prop
  | refl (i : ℕ) : Path self i i 0
  | tail {i j k : ℕ} {cost w : Decimal} (path : Path self i j cost)
      (swaps : self.Swaps j k w) : Path self i k (cost + w)

omit [DecidableEq Token] in
/-- From the node a cycle of negative cost can be reached. -/
def Arbitrage (self : MarketGraph Token) (source : ℕ) : Prop :=
  ∃ node reach total, self.Path source node reach ∧ self.Path node node total ∧ total < 0

omit [DecidableEq Token] in
/-- The edges that leave a node, with their places. -/
theorem mem_outgoing_iff {i : ℕ} {edge : ℕ × Edge Token} :
    edge ∈ self.graph.outgoing i ↔
      self.graph.edges[edge.1]? = some edge.2 ∧ edge.2.source = i := by
  rw [Graph.outgoing, List.mem_filter, List.mem_reverse, decide_eq_true_eq]
  apply and_congr_left'
  constructor
  · intro hmem
    obtain ⟨place, hplace, rfl⟩ := List.mem_map.mp hmem
    exact List.mem_zipIdx_iff_getElem?.mp hplace
  · intro hedge
    exact List.mem_map.mpr ⟨edge.swap, List.mem_zipIdx_iff_getElem?.mpr hedge, edge.swap_swap⟩

omit [DecidableEq Token] in
theorem mem_outgoing {i : ℕ} {edge : Edge Token} :
    edge ∈ (self.graph.outgoing i).map Prod.snd ↔
      edge ∈ self.graph.edges ∧ edge.source = i := by
  simp only [List.mem_map, mem_outgoing_iff, Prod.exists, exists_eq_right,
    exists_and_right]
  rw [List.mem_iff_getElem?]

theorem mem_pricedArcs (hbounded : self.Bounded) {arc : Arc ℕ Decimal} :
    arc ∈ self.pricedArcs ↔ self.Swaps arc.source arc.target arc.weight := by
  simp only [pricedArcs, nodeIdentifiers, List.mem_flatMap, List.mem_range,
    List.mem_filterMap, mem_outgoing, pricedArc, Option.map_eq_some_iff]
  constructor
  · rintro ⟨i, hi, edge, ⟨hmem, hsource⟩, w, hcost, rfl⟩
    exact ⟨edge, hmem, hsource, rfl, hcost⟩
  · rintro ⟨edge, hmem, hsource, htarget, hcost⟩
    refine ⟨arc.source, ?_, edge, ⟨hmem, hsource⟩, arc.weight, hcost, ?_⟩
    · exact hsource ▸ (hbounded.edges edge hmem).1
    · rw [htarget]

/-- Walks along the priced edges are paths. -/
theorem path_iff_walk (hbounded : self.Bounded) {i j : ℕ} {cost : Decimal} :
    self.Path i j cost ↔ ∃ steps, Walk self.pricedArcs steps i j cost := by
  constructor
  · intro hpath
    induction hpath with
    | refl => exact ⟨0, .nil _⟩
    | @tail j k cost w _ hswaps ih =>
        obtain ⟨steps, hwalk⟩ := ih
        have hmem : (⟨j, k, w⟩ : Arc ℕ Decimal) ∈ self.pricedArcs :=
          (mem_pricedArcs hbounded).mpr hswaps
        exact ⟨steps + 1, hwalk.snoc hmem⟩
  · rintro ⟨steps, hwalk⟩
    induction hwalk with
    | nil => exact .refl _
    | snoc _ hmem ih => exact ih.tail ((mem_pricedArcs hbounded).mp hmem)

theorem arbitrage_iff (hbounded : self.Bounded) {source : ℕ} :
    self.Arbitrage source ↔ ¬NoNegativeCycle self.pricedArcs source := by
  simp only [Arbitrage, NoNegativeCycle, path_iff_walk hbounded]
  push Not
  constructor
  · rintro ⟨node, reach, total, ⟨steps, hreach⟩, ⟨around, hcycle⟩, hnegative⟩
    exact ⟨node, steps, around, reach, total, hreach, hcycle, hnegative⟩
  · rintro ⟨node, steps, around, reach, total, hreach, hcycle, hnegative⟩
    exact ⟨node, reach, total, ⟨steps, hreach⟩, ⟨around, hcycle⟩, hnegative⟩

/-! ## The relaxation -/

omit [DecidableEq Token] in
/-- What the relaxation of an edge does to the distances. -/
theorem relaxEdge_distances (withinLimit : Bool) (i : ℕ) (state : Labels Token × Bool)
    (edge : Edge Token) :
    ((relaxEdge withinLimit i state edge).1.distances,
      (relaxEdge withinLimit i state edge).2) =
      (pricedArc i edge).toList.foldl relax (state.1.distances, state.2) := by
  rw [relaxEdge, pricedArc]
  cases hcost : edge.cost with
  | none => rfl
  | some w =>
      cases hdistance : state.1.distances i with
      | none => simp [relax, improves, offer, hdistance]
      | some d =>
          by_cases hlower :
              (state.1.distances edge.target).all (fun current => d + w < current) = true
          · simp [relax, improves, offer, hdistance, hlower]
          · simp [relax, improves, offer, hdistance, hlower]

omit [DecidableEq Token] in
theorem foldl_relaxEdge_distances (withinLimit : Bool) (i : ℕ)
    (edges : List (Edge Token)) (state : Labels Token × Bool) :
    ((edges.foldl (relaxEdge withinLimit i) state).1.distances,
      (edges.foldl (relaxEdge withinLimit i) state).2) =
      (edges.filterMap (pricedArc i)).foldl relax (state.1.distances, state.2) := by
  induction edges generalizing state with
  | nil => rfl
  | cons edge rest ih =>
      rw [List.foldl_cons, ih, relaxEdge_distances, List.filterMap_cons]
      cases pricedArc i edge <;> rfl

omit [DecidableEq Token] in
/-- A round over all edges is a sweep over the priced ones. -/
theorem relaxAll_distances (self : MarketGraph Token) (withinLimit : Bool)
    (labels : Labels Token) :
    ((self.relaxAll withinLimit labels).1.distances,
      (self.relaxAll withinLimit labels).2) = sweep self.pricedArcs labels.distances := by
  have hnodes : ∀ (nodes : List ℕ) (state : Labels Token × Bool),
      ((nodes.foldl (self.relaxNode withinLimit) state).1.distances,
        (nodes.foldl (self.relaxNode withinLimit) state).2) =
      (nodes.flatMap fun i => ((self.graph.outgoing i).map Prod.snd).filterMap
        (pricedArc i)).foldl relax (state.1.distances, state.2) := by
    intro nodes
    induction nodes with
    | nil => exact fun _ => rfl
    | cons i rest ih =>
        intro state
        rw [List.foldl_cons, ih, List.flatMap_cons, List.foldl_append]
        rw [relaxNode, foldl_relaxEdge_distances]
  exact hnodes self.nodeIdentifiers (labels, false)

omit [DecidableEq Token] in
theorem relaxRounds_distances (self : MarketGraph Token) (remaining steps : ℕ)
    (labels : Labels Token) (cached : Option (ℕ → Option Decimal)) :
    (self.relaxRounds remaining steps labels cached).1.distances =
      rounds self.pricedArcs remaining labels.distances := by
  induction remaining generalizing steps labels cached with
  | zero => rfl
  | succ remaining ih =>
      have hsweep := self.relaxAll_distances (steps ≤ self.config.maxSteps) labels
      rw [relaxRounds, rounds, ← hsweep]
      dsimp only
      split_ifs
      · exact ih _ _ _
      · exact ih _ _ _
      · rfl

omit [DecidableEq Token] in
/-- No negative cycle is reported when no priced edge offers a lower distance. -/
theorem hasNegativeCycle_eq_false (self : MarketGraph Token)
    (distances : ℕ → Option Decimal) :
    self.hasNegativeCycle distances = false ↔ Stable self.pricedArcs distances := by
  have hedge : ∀ i (edge : Edge Token), canRelax distances i edge = false ↔
      ∀ arc ∈ pricedArc i edge, improves distances arc = false := by
    intro i edge
    rw [canRelax, pricedArc]
    cases edge.cost with
    | none => simp
    | some w => cases hdistance : distances i <;> simp [improves, offer, hdistance]
  simp only [hasNegativeCycle, List.any_eq_false, Stable, pricedArcs, List.mem_flatMap,
    List.mem_filterMap, Bool.not_eq_true, hedge]
  constructor
  · rintro hall arc ⟨i, hi, edge, hmem, harc⟩
    exact hall i hi edge hmem arc harc
  · intro hall i hi edge hmem arc harc
    exact hall arc ⟨i, hi, edge, hmem, harc⟩

/-- The relaxation reports a negative cycle exactly when one can be reached. -/
theorem hasNegativeCycle_iff (hbounded : self.Bounded) {source : ℕ}
    (hsource : source < self.nodeCount) :
    self.hasNegativeCycle
        (self.relaxRounds (self.nodeCount - 1) 1 (initialLabels source) none).1.distances =
      true ↔ self.Arbitrage source := by
  have hclosed : ∀ arc ∈ self.pricedArcs, arc.target ∈ Finset.range self.nodeCount := by
    intro arc hmem
    obtain ⟨edge, hedge, _, htarget, _⟩ := (mem_pricedArcs hbounded).mp hmem
    exact Finset.mem_range.mpr (htarget ▸ (hbounded.edges edge hedge).2)
  have hstable := @stable_rounds_iff ℕ Decimal _ _ _ self.pricedArcs source _
    (Finset.range self.nodeCount) (self.nodeCount - 1) (Finset.mem_range.mpr hsource)
    hclosed (by rw [Finset.card_range]; omega)
  rw [arbitrage_iff hbounded, ← hstable, ← Bool.not_eq_false, not_iff_not,
    hasNegativeCycle_eq_false, relaxRounds_distances]
  rfl

/-! ## The flag -/

variable {other : MarketGraph Token}

omit [DecidableEq Token] in
/-- Paths are kept by a renaming of the nodes that keeps the priced edges. -/
theorem Path.rename {name : ℕ → ℕ}
    (hswaps : ∀ {i j cost}, self.Swaps i j cost → other.Swaps (name i) (name j) cost)
    {i j : ℕ} {cost : Decimal} (hpath : self.Path i j cost) :
    other.Path (name i) (name j) cost := by
  induction hpath with
  | refl => exact .refl _
  | tail _ hlast ih => exact ih.tail (hswaps hlast)

omit [DecidableEq Token] in
theorem Arbitrage.rename {name : ℕ → ℕ}
    (hswaps : ∀ {i j cost}, self.Swaps i j cost → other.Swaps (name i) (name j) cost)
    {source : ℕ} (harbitrage : self.Arbitrage source) : other.Arbitrage (name source) := by
  obtain ⟨node, reach, total, hreach, hcycle, hnegative⟩ := harbitrage
  exact ⟨name node, reach, total, hreach.rename hswaps, hcycle.rename hswaps, hnegative⟩

/-- The graphs have the same priced edges under the names of the nodes. -/
def SameSwaps (self other : MarketGraph Token) (name : Equiv.Perm ℕ) : Prop :=
  ∀ i j cost, self.Swaps i j cost ↔ other.Swaps (name i) (name j) cost

omit [DecidableEq Token] in
theorem SameSwaps.arbitrage {name : Equiv.Perm ℕ} (hsame : self.SameSwaps other name)
    {source : ℕ} : self.Arbitrage source ↔ other.Arbitrage (name source) := by
  constructor
  · intro harbitrage
    exact harbitrage.rename fun hswaps => (hsame _ _ _).mp hswaps
  · intro harbitrage
    have hback : ∀ {i j cost}, other.Swaps i j cost →
        self.Swaps (name.symm i) (name.symm j) cost := by
      intro i j cost hswaps
      rw [hsame, Equiv.apply_symm_apply, Equiv.apply_symm_apply]
      exact hswaps
    have hsource := harbitrage.rename hback
    rwa [Equiv.symm_apply_apply] at hsource

/-- The search succeeds for a known source, and its flag tells whether there is an
arbitrage. -/
theorem bestSwapPaths_flag (hbounded : self.Bounded) {source : Token}
    {state : CollateralTokenState Token}
    (hknown : self.collateralTokens.get source = some state) :
    ∃ paths flag, self.bestSwapPaths source false = .ok paths ∧
      paths.arbitrageExists = some flag ∧ (flag = true ↔ self.Arbitrage state.ix) := by
  have hsource : self.sourceNode source = .ok state.ix := by
    rw [sourceNode, hknown]
  have hiff := hasNegativeCycle_iff hbounded (hbounded.nodes hknown)
  have hford : self.bellmanFord source =
      if self.hasNegativeCycle (self.relaxRounds (self.nodeCount - 1) 1
          (initialLabels state.ix) none).1.distances then .error .negativeCycle
      else .ok { (self.relaxRounds (self.nodeCount - 1) 1
          (initialLabels state.ix) none).1 with
        distances := (self.relaxRounds (self.nodeCount - 1) 1
          (initialLabels state.ix) none).2.getD
            (self.relaxRounds (self.nodeCount - 1) 1
              (initialLabels state.ix) none).1.distances } := by
    rw [bellmanFord, hsource]
    rfl
  have hdfs : self.dfs source = .ok (self.dfsRecursive (self.config.maxSteps + 1)
      state.ix (some 0) none [] ⟨fun _ => none, fun _ => none⟩) := by
    rw [dfs, hsource]
    rfl
  rw [bestSwapPaths, if_neg Bool.false_ne_true, hford, hdfs]
  split_ifs with hcycle
  · exact ⟨_, true, rfl, rfl, iff_of_true rfl (hiff.mp hcycle)⟩
  · exact ⟨_, false, rfl, rfl, iff_of_false Bool.false_ne_true fun harbitrage =>
      hcycle (hiff.mpr harbitrage)⟩

section Reached

variable [MarketNum] {checkedLn : Decimal → Option Decimal}

/-- The flag tells whether a cycle of negative cost can be reached.  It is the same in
every graph with the same priced edges, whatever its step limit and the order of its
nodes and edges. -/
theorem arbitrageExists_iff (hreached : self.Reached checkedLn) {source : Token}
    {state : CollateralTokenState Token}
    (hknown : self.collateralTokens.get source = some state) :
    ∃ paths, self.bestSwapPaths source false = .ok paths ∧
      (paths.arbitrageExists = some true ↔ self.Arbitrage state.ix) ∧
      ∀ (other : MarketGraph Token) otherState otherPaths (name : Equiv.Perm ℕ),
        other.Reached checkedLn →
        other.collateralTokens.get source = some otherState →
        other.bestSwapPaths source false = .ok otherPaths →
        self.SameSwaps other name → name state.ix = otherState.ix →
        otherPaths.arbitrageExists = paths.arbitrageExists := by
  obtain ⟨paths, flag, hpaths, hflag, hiff⟩ := bestSwapPaths_flag hreached.bounded hknown
  refine ⟨paths, hpaths, ?_, ?_⟩
  · rw [hflag, Option.some_inj]
    exact hiff
  · intro other otherState otherPaths name hother hotherKnown hotherPaths hsame hname
    obtain ⟨found, otherFlag, hfound, hotherFlag, hotherIff⟩ :=
      bestSwapPaths_flag hother.bounded hotherKnown
    obtain rfl := Except.ok.inj (hotherPaths.symm.trans hfound)
    rw [hotherFlag, hflag, Option.some_inj, Bool.eq_iff_iff, hotherIff, hiff, ← hname]
    exact hsame.arbitrage.symm

end Reached

/-- Of a market without price impact nothing is gained by swapping to and fro. -/
theorem arbitrageExists_iff_priced :
    ∃ self latest state paths,
      @run _ _ storeNumbers lnExample (withConfig configExample) (fun _ => none)
        pricedCalls = some (self, latest) ∧
      self.collateralTokens.get 1 = some state ∧
      self.bestSwapPaths 1 false = .ok paths ∧
      (paths.arbitrageExists = some true ↔ self.Arbitrage state.ix) := by
  have hany : (@run _ _ storeNumbers lnExample (withConfig configExample)
      (fun _ => none) pricedCalls).any
      (fun result => decide ((result.1.collateralTokens.get 1).isSome = true)) =
        true := by
    decide +kernel
  obtain ⟨⟨self, latest⟩, hrun, hsome⟩ := Fallible.exists_of_any hany
  obtain ⟨state, hknown⟩ := Option.isSome_iff_exists.mp hsome
  obtain ⟨paths, hpaths, hiff, _⟩ :=
    @arbitrageExists_iff _ _ self storeNumbers lnExample ⟨_, _, _, hrun⟩ _ _ hknown
  exact ⟨self, latest, state, paths, hrun, hknown, hpaths, hiff⟩

end MarketGraph

end Gmsol.Sdk
