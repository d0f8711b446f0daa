import Gmsol.MarketGraph.Arbitrage

/-!
# Returned swap paths

The best path to a token is read off the predecessors, from the token back to the
source and for a limited number of steps.  Predecessors are overwritten while distances
keep falling; but the distance of a node is never below that of its predecessor and the
cost of the edge between them, so every path that is read off costs at most what is
reported.
-/

namespace Gmsol.Sdk

open Gmsol.Model Fallible

namespace MarketGraph

variable {Token : Type} [DecidableEq Token] {self : MarketGraph Token}

/-! ## The result -/

omit [DecidableEq Token] in
/-- Follows the predecessors for as many steps as remain, and gathers the market tokens
on the way. -/
def followPredecessors (predecessors : ℕ → Option (ℕ × Token)) :
    ℕ → Option (ℕ × Token) → List Token → Option (List Token)
  | _, none, path => some path
  | 0, some _, _ => none
  | remaining + 1, some (predecessor, marketToken), path =>
    followPredecessors predecessors remaining (predecessors predecessor)
      (path ++ [marketToken])

/-- The exchange rate of the best path to the target, and its market tokens. -/
def bestSwapPathTo (self : MarketGraph Token) (exp : Decimal → Decimal)
    (paths : BestSwapPaths Token) (target : Token) : Option Decimal × List Token :=
  match self.collateralTokens.get target with
  | none => (none, [])
  | some state =>
    let distance := paths.labels.distances state.ix
    if paths.source = target then (distance, [])
    else
      match followPredecessors paths.labels.predecessors self.config.maxSteps
        (paths.labels.predecessors state.ix) [] with
      | none => (none, [])
      | some path =>
        (if path.reverse.isEmpty then none else distance.map fun d => exp (-d),
          path.reverse)

/-! ## Walks -/

omit [DecidableEq Token] in
/-- A walk along priced edges, with the market tokens of the edges in order and the sum
of their costs. -/
inductive SwapWalk (self : MarketGraph Token) : ℕ → List Token → ℕ → Decimal → Prop
  | nil (i : ℕ) : SwapWalk self i [] i 0
  | snoc {i j : ℕ} {path : List Token} {cost w : Decimal} {edge : Edge Token}
      (walk : SwapWalk self i path j cost) (mem : edge ∈ self.graph.edges)
      (leaves : edge.source = j) (priced : edge.cost = some w) :
      SwapWalk self i (path ++ [edge.marketToken]) edge.target (cost + w)

/-! ## Labels -/

omit [DecidableEq Token] in
/-- The node was reached over a priced edge from a node whose distance is lower by the
cost of the edge or more. -/
def ReachedFrom (self : MarketGraph Token) (distances : ℕ → Option Decimal)
    (predecessor : ℕ) (marketToken : Token) (node : ℕ) (d : Decimal) : Prop :=
  ∃ edge ∈ self.graph.edges, edge.source = predecessor ∧ edge.target = node ∧
    edge.marketToken = marketToken ∧ ∃ w before, edge.cost = some w ∧
      distances predecessor = some before ∧ before + w ≤ d

omit [DecidableEq Token] in
/-- Only the source has a distance without a predecessor, and every other distance is
that of the predecessor and the cost of the edge from it, or more. -/
structure Labeled (whole : MarketGraph Token) (source : ℕ) (labels : Labels Token) :
    Prop where
  root : ∀ node d, labels.distances node = some d → labels.predecessors node = none →
    node = source ∧ d = 0
  reached : ∀ node predecessor marketToken,
    labels.predecessors node = some (predecessor, marketToken) →
      ∃ d, labels.distances node = some d ∧
        whole.ReachedFrom labels.distances predecessor marketToken node d

/-- Every distance stays or becomes lower. -/
def Lowers (before after : ℕ → Option Decimal) : Prop :=
  ∀ node d, before node = some d → ∃ lower, after node = some lower ∧ lower ≤ d

theorem Lowers.refl (distances : ℕ → Option Decimal) : Lowers distances distances :=
  fun _ d hd => ⟨d, hd, le_rfl⟩

theorem Lowers.trans {first second third : ℕ → Option Decimal} (hfirst : Lowers first second)
    (hsecond : Lowers second third) : Lowers first third := by
  intro node d hd
  obtain ⟨middle, hmiddle, hle⟩ := hfirst node d hd
  obtain ⟨lower, hlower, hless⟩ := hsecond node middle hmiddle
  exact ⟨lower, hlower, hless.trans hle⟩

theorem lowers_update {distances : ℕ → Option Decimal} {node : ℕ} {d : Decimal}
    (hlower : ∀ best, distances node = some best → d ≤ best) :
    Lowers distances (Function.update distances node (some d)) := by
  intro other best hbest
  by_cases hsame : other = node
  · subst hsame
    exact ⟨d, Function.update_self .., hlower best hbest⟩
  · exact ⟨best, by rw [Function.update_of_ne hsame]; exact hbest, le_rfl⟩

variable {source : ℕ} {labels : Labels Token}

omit [DecidableEq Token] in
theorem ReachedFrom.lowers {before after : ℕ → Option Decimal} {predecessor node : ℕ}
    {marketToken : Token} {d : Decimal}
    (hreached : self.ReachedFrom before predecessor marketToken node d)
    (hlowers : Lowers before after) :
    self.ReachedFrom after predecessor marketToken node d := by
  obtain ⟨edge, hmem, hsource, htarget, htoken, w, known, hcost, hknown, hle⟩ := hreached
  obtain ⟨lower, hlower, hless⟩ := hlowers predecessor known hknown
  exact ⟨edge, hmem, hsource, htarget, htoken, w, lower, hcost, hlower,
    (add_le_add_left hless w).trans hle⟩

omit [DecidableEq Token] in
/-- A node gets a lower distance together with the edge by which it was reached. -/
theorem Labeled.update (hlabeled : self.Labeled source labels) {node predecessor : ℕ}
    {marketToken : Token} {d : Decimal}
    (hlower : ∀ best, labels.distances node = some best → d ≤ best)
    (hreached : self.ReachedFrom labels.distances predecessor marketToken node d) :
    self.Labeled source
      { distances := Function.update labels.distances node (some d)
        predecessors :=
          Function.update labels.predecessors node (some (predecessor, marketToken)) } where
  root other found hfound hnone := by
    dsimp only at hfound hnone
    by_cases hsame : other = node
    · subst hsame
      exact absurd hnone (by simp)
    · rw [Function.update_of_ne hsame] at hfound hnone
      exact hlabeled.root other found hfound hnone
  reached other before token hbefore := by
    have hlowers := lowers_update hlower
    dsimp only at hbefore ⊢
    by_cases hsame : other = node
    · subst hsame
      rw [Function.update_self] at hbefore
      obtain ⟨rfl, rfl⟩ := Prod.mk.inj (Option.some.inj hbefore)
      exact ⟨d, Function.update_self .., hreached.lowers hlowers⟩
    · rw [Function.update_of_ne hsame] at hbefore
      obtain ⟨known, hknown, hstep⟩ := hlabeled.reached other before token hbefore
      refine ⟨known, ?_, hstep.lowers hlowers⟩
      rw [Function.update_of_ne hsame]
      exact hknown

/-! ## Reading off a path -/

omit [DecidableEq Token] in
/-- A path that is read off leads from the source to the node. -/
theorem Labeled.followPredecessors (hlabeled : self.Labeled source labels)
    {remaining node : ℕ} {d : Decimal} {path result : List Token}
    (hdistance : labels.distances node = some d)
    (hfollow : MarketGraph.followPredecessors labels.predecessors remaining
      (labels.predecessors node) path = some result) :
    ∃ steps cost, result = path ++ steps ∧ steps.length ≤ remaining ∧
      self.SwapWalk source steps.reverse node cost ∧ cost ≤ d := by
  induction remaining generalizing node d path with
  | zero =>
      cases hpredecessor : labels.predecessors node with
      | some step =>
          rw [hpredecessor] at hfollow
          exact absurd hfollow (by simp [MarketGraph.followPredecessors])
      | none =>
          rw [hpredecessor] at hfollow
          obtain rfl := Option.some.inj hfollow
          obtain ⟨rfl, rfl⟩ := hlabeled.root node d hdistance hpredecessor
          exact ⟨[], 0, (List.append_nil _).symm, le_rfl, .nil _, le_rfl⟩
  | succ remaining ih =>
      cases hpredecessor : labels.predecessors node with
      | none =>
          rw [hpredecessor] at hfollow
          obtain rfl := Option.some.inj hfollow
          obtain ⟨rfl, rfl⟩ := hlabeled.root node d hdistance hpredecessor
          exact ⟨[], 0, (List.append_nil _).symm, Nat.zero_le _, .nil _, le_rfl⟩
      | some step =>
          obtain ⟨predecessor, marketToken⟩ := step
          rw [hpredecessor] at hfollow
          obtain ⟨known, hknown, edge, hmem, hsource, htarget, htoken, w, before, hcost,
            hbefore, hle⟩ := hlabeled.reached node predecessor marketToken hpredecessor
          obtain rfl := Option.some.inj (hdistance.symm.trans hknown)
          obtain ⟨steps, cost, hresult, hlength, hwalk, hbound⟩ := ih hbefore hfollow
          refine ⟨marketToken :: steps, cost + w, ?_, Nat.succ_le_succ hlength, ?_, ?_⟩
          · rw [hresult, List.append_assoc, List.singleton_append]
          · rw [List.reverse_cons, ← htoken, ← htarget]
            exact hwalk.snoc hmem hsource hcost
          · exact (add_le_add_left hbound w).trans hle

omit [DecidableEq Token] in
/-- Without a step no path is read off. -/
theorem pos_of_followPredecessors {predecessors : ℕ → Option (ℕ × Token)} {remaining : ℕ}
    {current : Option (ℕ × Token)} {steps : List Token}
    (hfollow : MarketGraph.followPredecessors predecessors remaining current [] = some steps)
    (hsteps : steps ≠ []) : 0 < remaining := by
  cases remaining with
  | succ remaining => exact Nat.succ_pos remaining
  | zero =>
      cases current with
      | none => exact absurd (Option.some.inj hfollow).symm hsteps
      | some step => exact absurd hfollow (by simp [MarketGraph.followPredecessors])

omit [DecidableEq Token] in
/-- A node that is left by a step has a distance. -/
theorem Labeled.distance_of_followPredecessors (hlabeled : self.Labeled source labels)
    {remaining node : ℕ} {steps : List Token}
    (hfollow : MarketGraph.followPredecessors labels.predecessors remaining
      (labels.predecessors node) [] = some steps) (hsteps : steps ≠ []) :
    ∃ d, labels.distances node = some d := by
  cases hpredecessor : labels.predecessors node with
  | none =>
      rw [hpredecessor, MarketGraph.followPredecessors.eq_def] at hfollow
      exact absurd (Option.some.inj hfollow).symm hsteps
  | some step =>
      obtain ⟨d, hdistance, _⟩ := hlabeled.reached node step.1 step.2 hpredecessor
      exact ⟨d, hdistance⟩

/-! ## Relaxation -/

omit [DecidableEq Token] in
theorem labeled_initialLabels (self : MarketGraph Token) (source : ℕ) :
    self.Labeled source (initialLabels source) where
  root node d hd _ := by
    simp only [initialLabels, Function.update_apply] at hd
    split_ifs at hd with hsame
    exact ⟨hsame, (Option.some.inj hd).symm⟩
  reached _ _ _ hpredecessor := absurd hpredecessor (by simp [initialLabels])

omit [DecidableEq Token] in
theorem Labeled.relaxEdge {state : Labels Token × Bool} {i : ℕ} {edge : Edge Token}
    (hlabeled : self.Labeled source state.1) (hmem : edge ∈ self.graph.edges)
    (hsource : edge.source = i) :
    self.Labeled source (MarketGraph.relaxEdge true i state edge).1 := by
  rw [MarketGraph.relaxEdge]
  split
  · rename_i w d hcost hdistance
    simp only [if_true]
    split_ifs with hlower
    · apply hlabeled.update
      · intro best hbest
        rw [hbest] at hlower
        exact (of_decide_eq_true hlower).le
      · exact ⟨edge, hmem, hsource, rfl, rfl, w, d, hcost, hdistance, le_rfl⟩
    · exact hlabeled
  · exact hlabeled

omit [DecidableEq Token] in
theorem Labeled.relaxNode {state : Labels Token × Bool}
    (hlabeled : self.Labeled source state.1) (i : ℕ) :
    self.Labeled source (self.relaxNode true state i).1 := by
  rw [MarketGraph.relaxNode]
  apply List.foldlRecOn
    (motive := fun state : Labels Token × Bool => self.Labeled source state.1)
    _ _ hlabeled
  intro state hstate edge hmem
  obtain ⟨hedge, hsource⟩ := mem_outgoing.mp hmem
  exact hstate.relaxEdge hedge hsource

omit [DecidableEq Token] in
theorem Labeled.relaxAll (hlabeled : self.Labeled source labels) :
    self.Labeled source (self.relaxAll true labels).1 := by
  rw [MarketGraph.relaxAll]
  apply List.foldlRecOn
    (motive := fun state : Labels Token × Bool => self.Labeled source state.1)
    _ _ hlabeled
  intro state hstate i _
  exact hstate.relaxNode i

omit [DecidableEq Token] in
/-- Beyond the limit of the steps the predecessors stay. -/
theorem relaxAll_predecessors (self : MarketGraph Token) (labels : Labels Token) :
    (self.relaxAll false labels).1.predecessors = labels.predecessors := by
  have hedge (i : ℕ) (state : Labels Token × Bool) (edge : Edge Token) :
      (MarketGraph.relaxEdge false i state edge).1.predecessors = state.1.predecessors := by
    rw [MarketGraph.relaxEdge]
    split
    · simp only [Bool.false_eq_true, if_false]
      split_ifs <;> rfl
    · rfl
  rw [MarketGraph.relaxAll]
  apply List.foldlRecOn
    (motive := fun state : Labels Token × Bool => state.1.predecessors = labels.predecessors)
    _ _ rfl
  intro state hstate i _
  rw [MarketGraph.relaxNode]
  apply List.foldlRecOn
    (motive := fun state : Labels Token × Bool => state.1.predecessors = labels.predecessors)
    _ _ hstate
  intro state hstate edge _
  rw [hedge, hstate]

omit [DecidableEq Token] in
/-- The labels with the distances that are reported. -/
def reported (result : Labels Token × Option (ℕ → Option Decimal)) : Labels Token :=
  { result.1 with distances := result.2.getD result.1.distances }

omit [DecidableEq Token] in
/-- Up to the limit the labels are kept up, and from then on the cached ones are
reported. -/
theorem relaxRounds_labeled {remaining steps : ℕ} {cached : Option (ℕ → Option Decimal)}
    (hlabeled : self.Labeled source (reported (labels, cached)))
    (hcached : cached = none → steps ≤ self.config.maxSteps)
    (huncached : cached.isSome → self.config.maxSteps < steps) :
    self.Labeled source (reported (self.relaxRounds remaining steps labels cached)) := by
  induction remaining generalizing steps labels cached with
  | zero => exact hlabeled
  | succ remaining ih =>
      rw [relaxRounds]
      cases cached with
      | none =>
          have hlimit := hcached rfl
          have hround : self.Labeled source (self.relaxAll true labels).1 :=
            Labeled.relaxAll hlabeled
          rw [decide_eq_true hlimit]
          split_ifs with hupdate hlast
          · exact ih hround (fun hnone => absurd hnone (by simp)) fun _ => by omega
          · exact ih hround (fun _ => by omega) fun hsome => absurd hsome (by simp)
          · exact hround
      | some distances =>
          have hbeyond := huncached rfl
          have hpredecessors := relaxAll_predecessors self labels
          have hround : self.Labeled source
              (reported ((self.relaxAll false labels).1, some distances)) := by
            rw [reported, hpredecessors]
            exact hlabeled
          rw [decide_eq_false (by omega), if_neg (by omega : ¬steps = self.config.maxSteps)]
          split_ifs
          · exact ih hround (fun hnone => absurd hnone (by simp)) fun _ => by omega
          · exact hround

/-! ## Search in depth -/

omit [DecidableEq Token] in
/-- A search keeps the labels of its start, which only become lower. -/
structure Explores (whole : MarketGraph Token) (source : ℕ) (before after : Labels Token) :
    Prop where
  labeled : whole.Labeled source after
  lowers : Lowers before.distances after.distances

omit [DecidableEq Token] in
theorem Explores.refl (hlabeled : self.Labeled source labels) :
    self.Explores source labels labels :=
  ⟨hlabeled, Lowers.refl _⟩

omit [DecidableEq Token] in
theorem Explores.trans {first second third : Labels Token}
    (hfirst : self.Explores source first second) (hsecond : self.Explores source second third) :
    self.Explores source first third :=
  ⟨hsecond.labeled, hfirst.lowers.trans hsecond.lowers⟩

omit [DecidableEq Token] in
/-- The edges of a node with a distance are explored one after the other, if each
search from where an edge leads does. -/
theorem explores_outgoing {i : ℕ} {d : Decimal} {visited : List ℕ} {before : Labels Token}
    (visit : ℕ × Edge Token → Labels Token → Labels Token)
    (hlabeled : self.Labeled source before) (hdistance : before.distances i = some d)
    (hvisit : ∀ edge labels, self.Labeled source labels →
      (∀ w, edge.2.cost = some w →
        self.ReachedFrom labels.distances i edge.2.marketToken edge.2.target (w + d)) →
      self.Explores source labels (visit edge labels)) :
    self.Explores source before
      ((self.graph.outgoing i).foldl
        (fun labels edge => if edge.1 ∈ visited then labels else visit edge labels)
        before) := by
  apply List.foldlRecOn (motive := fun labels => self.Explores source before labels) _ _
    (Explores.refl hlabeled)
  intro labels hlabels edge hmem
  split_ifs with hvisited
  · exact hlabels
  · apply hlabels.trans
    apply hvisit edge labels hlabels.labeled
    intro w hcost
    obtain ⟨hedge, hsource⟩ := mem_outgoing.mp (List.mem_map_of_mem hmem)
    obtain ⟨lower, hlower, hle⟩ := hlabels.lowers i d hdistance
    refine ⟨edge.2, hedge, hsource, rfl, rfl, w, lower, hcost, hlower, ?_⟩
    rw [add_comm w d]
    exact add_le_add_left hle w

omit [DecidableEq Token] in
theorem dfsRecursive_explores {remaining i : ℕ} {distance : Option Decimal}
    {predecessor : ℕ} {marketToken : Token} {visited : List ℕ}
    (hlabeled : self.Labeled source labels)
    (hreached : ∀ d, distance = some d →
      self.ReachedFrom labels.distances predecessor marketToken i d) :
    self.Explores source labels
      (self.dfsRecursive remaining i distance (some (predecessor, marketToken)) visited
        labels) := by
  induction remaining generalizing i distance predecessor marketToken visited labels with
  | zero => exact .refl hlabeled
  | succ remaining ih =>
      cases distance with
      | none =>
          rw [dfsRecursive]
          exact .refl hlabeled
      | some d =>
          rw [dfsRecursive]
          split_ifs with hbest
          · exact .refl hlabeled
          · have hlower (best : Decimal) (hknown : labels.distances i = some best) :
                d ≤ best := by
              rw [hknown] at hbest
              exact (not_le.mp fun hle => hbest (decide_eq_true hle)).le
            have hupdated := hlabeled.update hlower (hreached d rfl)
            apply Explores.trans ⟨hupdated, lowers_update hlower⟩
            apply explores_outgoing _ hupdated (Function.update_self ..)
            intro edge after hafter hedge
            apply ih hafter
            intro next hnext
            obtain ⟨w, hcost, rfl⟩ := Option.map_eq_some_iff.mp hnext
            exact hedge w hcost

omit [DecidableEq Token] in
/-- The search from the source leaves labels by which paths can be read off. -/
theorem dfsRecursive_labeled (self : MarketGraph Token) (source maxSteps : ℕ) :
    self.Labeled source
      (self.dfsRecursive (maxSteps + 1) source (some 0) none []
        ⟨fun _ => none, fun _ => none⟩) := by
  have hstart : self.Labeled source
      { distances := Function.update (fun _ => none) source (some 0)
        predecessors := Function.update (fun _ => none) source none } := by
    rw [Function.update_eq_self]
    exact labeled_initialLabels self source
  rw [dfsRecursive]
  apply Explores.labeled
  apply explores_outgoing (d := 0) _ hstart (by simp only [Function.update_self])
  intro edge labels hlabels hedge
  apply dfsRecursive_explores hlabels
  intro next hnext
  obtain ⟨w, hcost, rfl⟩ := Option.map_eq_some_iff.mp hnext
  exact hedge w hcost

/-! ## Sound paths -/

theorem sourceNode_eq_ok {source : Token} {node : ℕ}
    (hsource : self.sourceNode source = .ok node) :
    ∃ state, self.collateralTokens.get source = some state ∧ state.ix = node := by
  rw [sourceNode] at hsource
  split at hsource
  · rename_i state hknown
    exact ⟨state, hknown, Except.ok.inj hsource⟩
  · cases hsource

theorem dfs_labeled {source : Token} (hdfs : self.dfs source = .ok labels) :
    ∃ state, self.collateralTokens.get source = some state ∧
      self.Labeled state.ix labels := by
  rw [dfs] at hdfs
  obtain ⟨node, hsource, hlabels⟩ := bind_eq_ok.mp hdfs
  obtain ⟨state, hknown, rfl⟩ := sourceNode_eq_ok hsource
  obtain rfl := Except.ok.inj hlabels
  exact ⟨state, hknown, dfsRecursive_labeled self state.ix self.config.maxSteps⟩

theorem bellmanFord_eq_ok {source : Token} (hford : self.bellmanFord source = .ok labels) :
    ∃ state, self.collateralTokens.get source = some state ∧
      labels = reported (self.relaxRounds (self.nodeCount - 1) 1
        (initialLabels state.ix) none) ∧
      self.hasNegativeCycle (self.relaxRounds (self.nodeCount - 1) 1
        (initialLabels state.ix) none).1.distances = false := by
  rw [bellmanFord] at hford
  obtain ⟨node, hsource, hlabels⟩ := bind_eq_ok.mp hford
  obtain ⟨state, hknown, rfl⟩ := sourceNode_eq_ok hsource
  dsimp only at hlabels
  split_ifs at hlabels with hcycle
  exact ⟨state, hknown, (Except.ok.inj hlabels).symm, Bool.eq_false_iff.mpr hcycle⟩

theorem bellmanFord_labeled {source : Token} (hlimit : 0 < self.config.maxSteps)
    (hford : self.bellmanFord source = .ok labels) :
    ∃ state, self.collateralTokens.get source = some state ∧
      self.Labeled state.ix labels := by
  obtain ⟨state, hknown, rfl, _⟩ := bellmanFord_eq_ok hford
  refine ⟨state, hknown, relaxRounds_labeled ?_ (fun _ => hlimit) fun hsome => ?_⟩
  · exact labeled_initialLabels self state.ix
  · exact absurd hsome Bool.false_ne_true

/-- The paths come from one of the two algorithms. -/
theorem bestSwapPaths_eq_ok {paths : BestSwapPaths Token} {source : Token} {skip : Bool}
    (hpaths : self.bestSwapPaths source skip = .ok paths) :
    paths.source = source ∧
      (self.dfs source = .ok paths.labels ∨ self.bellmanFord source = .ok paths.labels) := by
  rw [bestSwapPaths] at hpaths
  split_ifs at hpaths
  · obtain ⟨labels, hdfs, hresult⟩ := bind_eq_ok.mp hpaths
    obtain rfl := Except.ok.inj hresult
    exact ⟨rfl, .inl hdfs⟩
  · split at hpaths
    · rename_i labels hford
      obtain rfl := Except.ok.inj hpaths
      exact ⟨rfl, .inr hford⟩
    · obtain ⟨labels, hdfs, hresult⟩ := bind_eq_ok.mp hpaths
      obtain rfl := Except.ok.inj hresult
      exact ⟨rfl, .inl hdfs⟩
    · cases hpaths

/-- Where a step is allowed, the paths from a source are read off sound labels. -/
theorem bestSwapPaths_labeled {paths : BestSwapPaths Token} {source : Token} {skip : Bool}
    (hpaths : self.bestSwapPaths source skip = .ok paths)
    (hlimit : 0 < self.config.maxSteps) :
    ∃ state, self.collateralTokens.get source = some state ∧
      self.Labeled state.ix paths.labels := by
  rcases (bestSwapPaths_eq_ok hpaths).2 with hdfs | hford
  · exact dfs_labeled hdfs
  · exact bellmanFord_labeled hlimit hford

/-- Whatever algorithm found it, a path to another token that is not empty is a walk over
priced edges from the source to the target with no more steps than allowed; and it costs
at most the distance from which its exchange rate is reported. -/
theorem bestSwapPathTo_sound {paths : BestSwapPaths Token} {source target : Token}
    {skip : Bool} {exp : Decimal → Decimal} {rate : Option Decimal} {path : List Token}
    (hpaths : self.bestSwapPaths source skip = .ok paths)
    (hbest : self.bestSwapPathTo exp paths target = (rate, path))
    (hother : paths.source ≠ target) (hpath : path ≠ []) :
    ∃ sourceState targetState distance cost,
      self.collateralTokens.get source = some sourceState ∧
      self.collateralTokens.get target = some targetState ∧
      paths.labels.distances targetState.ix = some distance ∧
      rate = some (exp (-distance)) ∧
      path.length ≤ self.config.maxSteps ∧
      self.SwapWalk sourceState.ix path targetState.ix cost ∧
      cost ≤ distance ∧
      (Monotone exp → exp (-distance) ≤ exp (-cost)) := by
  rw [bestSwapPathTo] at hbest
  cases htarget : self.collateralTokens.get target with
  | none =>
      rw [htarget] at hbest
      exact absurd (Prod.mk.inj hbest).2.symm hpath
  | some targetState =>
      rw [htarget] at hbest
      simp only [if_neg hother] at hbest
      cases hfollow : followPredecessors paths.labels.predecessors self.config.maxSteps
          (paths.labels.predecessors targetState.ix) [] with
      | none =>
          rw [hfollow] at hbest
          exact absurd (Prod.mk.inj hbest).2.symm hpath
      | some steps =>
          rw [hfollow] at hbest
          obtain ⟨hrate, rfl⟩ := Prod.mk.inj hbest
          have hsteps : steps ≠ [] := fun hnil => hpath (by rw [hnil, List.reverse_nil])
          obtain ⟨state, hknown, hlabeled⟩ :=
            bestSwapPaths_labeled hpaths (pos_of_followPredecessors hfollow hsteps)
          obtain ⟨distance, hdistance⟩ := hlabeled.distance_of_followPredecessors hfollow hsteps
          obtain ⟨walked, cost, hwalked, hlength, hwalk, hcost⟩ :=
            hlabeled.followPredecessors hdistance hfollow
          rw [List.nil_append] at hwalked
          subst hwalked
          refine ⟨state, targetState, distance, cost, hknown, rfl, hdistance, ?_, ?_, hwalk,
            hcost, fun hmonotone => hmonotone (neg_le_neg hcost)⟩
          · rw [← hrate, hdistance, if_neg]
            · rfl
            · rw [List.isEmpty_iff]
              exact hpath
          · rw [List.length_reverse]
            exact hlength

/-- In the graph of a priced market, its token leads from one collateral token to the
other. -/
theorem bestSwapPathTo_sound_priced :
    ∃ self latest paths rate path sourceState targetState distance cost,
      @run _ _ storeNumbers lnExample (withConfig configExample) (fun _ => none)
        pricedCalls = some (self, latest) ∧
      self.bestSwapPaths 1 true = .ok paths ∧
      self.bestSwapPathTo (1 + ·) paths 2 = (rate, path) ∧ path = [10] ∧
      self.collateralTokens.get 1 = some sourceState ∧
      self.collateralTokens.get 2 = some targetState ∧
      paths.labels.distances targetState.ix = some distance ∧
      rate = some (1 + -distance) ∧
      self.SwapWalk sourceState.ix path targetState.ix cost ∧ cost ≤ distance := by
  have hany : (@run _ _ storeNumbers lnExample (withConfig configExample)
      (fun _ => none) pricedCalls).any (fun result => decide
        ((result.1.bestSwapPaths 1 true).toOption.any (fun paths => decide
          (paths.source = 1 ∧
            (result.1.bestSwapPathTo (1 + ·) paths 2).2 = [10])) = true)) = true := by
    decide +kernel
  obtain ⟨⟨self, latest⟩, hrun, hpaths⟩ := exists_of_any hany
  obtain ⟨paths, hpaths, hsource, hpath⟩ := exists_ok_iff_any.mpr hpaths
  obtain ⟨sourceState, targetState, distance, cost, hknown, htarget, hdistance, hrate, _,
      hwalk, hcost, _⟩ :=
    bestSwapPathTo_sound hpaths
      (show self.bestSwapPathTo (1 + ·) paths 2 = _ from Prod.mk.eta.symm)
      (by rw [hsource]; decide) (by rw [hpath]; decide)
  exact ⟨self, latest, paths, _, _, sourceState, targetState, distance, cost, hrun, hpaths,
    Prod.mk.eta.symm, hpath, hknown, htarget, hdistance, hrate, hwalk, hcost⟩

end MarketGraph

end Gmsol.Sdk
