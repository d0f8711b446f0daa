import Gmsol.MarketGraph.Paths
import Gmsol.MarketGraph.Runs

/-!
# References to nodes

Every edge leads from node to node, and every collateral token has a node.  The
nodes are never removed, so this holds of every graph that was built by calls.
-/

namespace Gmsol.Sdk

open Gmsol.Model

variable {Token : Type} [DecidableEq Token]

namespace MarketGraph

variable {self after : MarketGraph Token} {token marketToken : Token} {ix : ℕ}

/-- Edges lead from node to node, and the collateral tokens have nodes. -/
structure Bounded (whole : MarketGraph Token) : Prop where
  edges : ∀ edge ∈ whole.graph.edges,
    edge.source < whole.nodeCount ∧ edge.target < whole.nodeCount
  nodes : ∀ {token state}, whole.collateralTokens.get token = some state →
    state.ix < whole.nodeCount

/-- Where the edges end and which nodes the tokens have stays the same. -/
structure SameEnds (before after : MarketGraph Token) : Prop where
  nodeCount : after.nodeCount = before.nodeCount
  collateralTokens : after.collateralTokens = before.collateralTokens
  edges : after.graph.edges.map (fun edge => (edge.source, edge.target)) =
    before.graph.edges.map fun edge => (edge.source, edge.target)

omit [DecidableEq Token] in
theorem SameEnds.refl (self : MarketGraph Token) : SameEnds self self :=
  ⟨rfl, rfl, rfl⟩

omit [DecidableEq Token] in
theorem SameEnds.trans {last : MarketGraph Token} (hfirst : SameEnds self after)
    (hsecond : SameEnds after last) : SameEnds self last where
  nodeCount := hsecond.nodeCount.trans hfirst.nodeCount
  collateralTokens := hsecond.collateralTokens.trans hfirst.collateralTokens
  edges := hsecond.edges.trans hfirst.edges

theorem SameEnds.bounded (hsame : SameEnds self after) (hbounded : self.Bounded) :
    after.Bounded where
  edges edge hmem := by
    have hends : (edge.source, edge.target) ∈
        after.graph.edges.map fun edge => (edge.source, edge.target) :=
      List.mem_map.mpr ⟨edge, hmem, rfl⟩
    rw [hsame.edges] at hends
    obtain ⟨old, hold, hsameEnds⟩ := List.mem_map.mp hends
    obtain ⟨hsource, htarget⟩ := Prod.mk.inj hsameEnds
    rw [hsame.nodeCount, ← hsource, ← htarget]
    exact hbounded.edges old hold
  nodes hget := by
    rw [hsame.nodeCount]
    exact hbounded.nodes (hsame.collateralTokens ▸ hget)

theorem bounded_withConfig (config : MarketGraphConfig) :
    (withConfig config : MarketGraph Token).Bounded where
  edges _ hmem := absurd hmem List.not_mem_nil
  nodes hget := absurd hget (by simp [withConfig])

/-! ## Tokens and markets -/

/-- A collateral token gets a node, which is one of the nodes from then on. -/
theorem insertCollateralToken_bounded (hbounded : self.Bounded)
    (token marketToken : Token) :
    (self.insertCollateralToken token marketToken).1.Bounded ∧
      (self.insertCollateralToken token marketToken).2 <
        (self.insertCollateralToken token marketToken).1.nodeCount ∧
      self.nodeCount ≤ (self.insertCollateralToken token marketToken).1.nodeCount := by
  cases hget : self.collateralTokens.get token with
  | none =>
      rw [insertCollateralToken_of_none hget]
      have hcount : ({ self with
          graph := { self.graph with nodes := self.graph.nodes ++ [.new token] }
          collateralTokens := self.collateralTokens.insert token
            ⟨self.graph.nodes.length, [marketToken]⟩ } : MarketGraph Token).nodeCount =
          self.nodeCount + 1 := by
        rw [nodeCount, nodeCount, List.length_append, List.length_singleton]
      refine ⟨⟨?_, ?_⟩, ?_, ?_⟩
      · intro edge hmem
        rw [hcount]
        exact (hbounded.edges edge hmem).imp Nat.lt_succ_of_lt Nat.lt_succ_of_lt
      · intro other state hfound
        rw [hcount]
        rw [IndexMap.get_insert] at hfound
        split at hfound
        · obtain rfl := Option.some.inj hfound
          exact Nat.lt_succ_self _
        · exact Nat.lt_succ_of_lt (hbounded.nodes hfound)
      · rw [hcount]
        exact Nat.lt_succ_self _
      · rw [hcount]
        exact Nat.le_succ _
  | some state =>
      rw [insertCollateralToken_of_some hget]
      refine ⟨⟨hbounded.edges, ?_⟩, hbounded.nodes hget, le_rfl⟩
      intro other found hfound
      rw [IndexMap.get_insert] at hfound
      split at hfound
      · obtain rfl := Option.some.inj hfound
        have hold : state.ix < self.nodeCount := hbounded.nodes hget
        exact hold
      · exact hbounded.nodes hfound

theorem insertTokensWithMeta_bounded (hbounded : self.Bounded) (info : MarketMeta Token) :
    (self.insertTokensWithMeta info).1.Bounded ∧
      (self.insertTokensWithMeta info).2.1 < (self.insertTokensWithMeta info).1.nodeCount ∧
      (self.insertTokensWithMeta info).2.2 <
        (self.insertTokensWithMeta info).1.nodeCount := by
  have hindex : (self.insertIndexToken info.indexTokenMint info.marketTokenMint).Bounded :=
    ⟨hbounded.edges, hbounded.nodes⟩
  obtain ⟨hlong, hlongIx, _⟩ :=
    insertCollateralToken_bounded hindex info.longTokenMint info.marketTokenMint
  obtain ⟨hshort, hshortIx, hgrows⟩ :=
    insertCollateralToken_bounded hlong info.shortTokenMint info.marketTokenMint
  exact ⟨hshort, hlongIx.trans_le hgrows, hshortIx⟩

theorem insertEdges_bounded (hbounded : self.Bounded) (model : MarketModel Token)
    {longTokenIx shortTokenIx : ℕ} (hlong : longTokenIx < self.nodeCount)
    (hshort : shortTokenIx < self.nodeCount) :
    (self.insertEdges model longTokenIx shortTokenIx).Bounded where
  edges edge hmem := by
    rw [insertEdges_edges, List.mem_append] at hmem
    rcases hmem with hold | hnew
    · exact hbounded.edges edge hold
    · rcases List.mem_pair.mp hnew with rfl | rfl
      · exact ⟨hlong, hshort⟩
      · exact ⟨hshort, hlong⟩
  nodes hget := hbounded.nodes hget

/-! ## Estimations and prices -/

omit [DecidableEq Token] in
theorem setEstimated_sameEnds {estimated : Option SwapEstimation}
    (hset : self.setEstimated ix estimated = some after) : SameEnds self after := by
  obtain ⟨graph, hgraph, rfl⟩ := Option.map_eq_some_iff.mp hset
  rw [Graph.setEstimated] at hgraph
  split_ifs at hgraph with hix
  obtain rfl := Option.some.inj hgraph
  refine ⟨rfl, rfl, List.ext_getElem? fun other => ?_⟩
  rw [List.getElem?_map, List.getElem?_map, List.getElem?_modify]
  cases self.graph.edges[other]? with
  | none => rfl
  | some edge => by_cases hsame : ix = other <;> simp [hsame]

theorem setNodePrice_sameEnds {price : Price}
    (hset : self.setNodePrice token price = some after) : SameEnds self after := by
  rw [setNodePrice] at hset
  split at hset
  · obtain rfl := Option.some.inj hset
    exact .refl self
  · obtain ⟨graph, hgraph, rfl⟩ := Option.map_eq_some_iff.mp hset
    rw [Graph.setPrice] at hgraph
    split_ifs at hgraph with hix
    obtain rfl := Option.some.inj hgraph
    refine ⟨?_, rfl, rfl⟩
    rw [nodeCount, nodeCount, List.length_modify]

omit [DecidableEq Token] in
/-- A fold of steps each of which keeps the ends keeps them. -/
theorem foldlM_sameEnds {α : Type} {step : MarketGraph Token → α → Option (MarketGraph Token)}
    (hstep : ∀ {before after item}, step before item = some after → SameEnds before after)
    {items : List α} (hfold : items.foldlM step self = some after) :
    SameEnds self after := by
  induction items generalizing self with
  | nil =>
      obtain rfl := Option.some.inj hfold
      exact .refl self
  | cons item rest ih =>
      rw [List.foldlM_cons] at hfold
      obtain ⟨middle, hmiddle, hrest⟩ := Option.bind_eq_some_iff.mp hfold
      exact (hstep hmiddle).trans (ih hrest)

section Updates

variable [MarketNum] {checkedLn : Decimal → Option Decimal}

theorem estimateMarket_sameEnds {state : MarketState Token}
    (hestimate : self.estimateMarket checkedLn state = some after) :
    SameEnds self after := by
  rw [estimateMarket] at hestimate
  obtain ⟨middle, hlong, hshort⟩ := Option.bind_eq_some_iff.mp hestimate
  exact (setEstimated_sameEnds hlong).trans (setEstimated_sameEnds hshort)

theorem updateEstimation_sameEnds {only : Option Token}
    (hupdate : self.updateEstimation checkedLn only = some after) :
    SameEnds self after :=
  foldlM_sameEnds estimateMarket_sameEnds hupdate

theorem insertMarket_bounded {model : MarketModel Token} {isNew : Bool}
    (hbounded : self.Bounded)
    (hinsert : self.insertMarket checkedLn model = some (after, isNew)) :
    after.Bounded := by
  obtain ⟨htokens, hlong, hshort⟩ := insertTokensWithMeta_bounded hbounded model.info
  rw [insertMarket] at hinsert
  dsimp only at hinsert
  split at hinsert
  · obtain ⟨updated, hupdate, hpair⟩ := Option.map_eq_some_iff.mp hinsert
    obtain ⟨rfl, _⟩ := Prod.mk.inj hpair
    exact (updateEstimation_sameEnds hupdate).bounded
      (insertEdges_bounded htokens model hlong hshort)
  · obtain ⟨updated, hupdate, hpair⟩ := Option.map_eq_some_iff.mp hinsert
    obtain ⟨rfl, _⟩ := Prod.mk.inj hpair
    exact (updateEstimation_sameEnds hupdate).bounded ⟨htokens.edges, htokens.nodes⟩

theorem updateTokenPrice_bounded {price : Price} (hbounded : self.Bounded)
    (hupdate : self.updateTokenPrice checkedLn token price = some after) :
    after.Bounded := by
  rw [updateTokenPrice] at hupdate
  obtain ⟨priced, hpriced, hfold⟩ := Option.bind_eq_some_iff.mp hupdate
  obtain ⟨_, hgraph, _, hcollateral⟩ := setIndexPrice_frame self token price
  have hindex : SameEnds self (self.setIndexPrice token price) := by
    refine ⟨?_, hcollateral, ?_⟩
    · rw [nodeCount, nodeCount, hgraph]
    · rw [hgraph]
  have hsame := (hindex.trans (setNodePrice_sameEnds hpriced)).trans
    (foldlM_sameEnds (fun hstep => updateEstimation_sameEnds hstep) hfold)
  exact hsame.bounded hbounded

theorem updateConfig_bounded {config : MarketGraphConfig} {shouldUpdateEstimation : Bool}
    (hbounded : self.Bounded)
    (hupdate : self.updateConfig checkedLn config shouldUpdateEstimation = some after) :
    after.Bounded := by
  have hconfig : ({ self with config } : MarketGraph Token).Bounded :=
    ⟨hbounded.edges, hbounded.nodes⟩
  rw [updateConfig] at hupdate
  split_ifs at hupdate
  · exact (updateEstimation_sameEnds hupdate).bounded hconfig
  · obtain rfl := Option.some.inj hupdate
    exact hconfig

/-! ## Calls -/

theorem perform_bounded {call : Call Token} (hbounded : self.Bounded)
    (hperform : self.perform checkedLn call = some after) : after.Bounded := by
  cases call with
  | insertMarket model =>
      obtain ⟨⟨updated, isNew⟩, hinsert, rfl⟩ := Option.map_eq_some_iff.mp hperform
      exact insertMarket_bounded hbounded hinsert
  | updateTokenPrice token price => exact updateTokenPrice_bounded hbounded hperform
  | updateValue value =>
      rw [perform, updateValue] at hperform
      exact updateConfig_bounded hbounded hperform
  | updateBaseCost baseCost =>
      rw [perform, updateBaseCost] at hperform
      exact updateConfig_bounded hbounded hperform
  | updateMaxSteps maxSteps =>
      rw [perform, updateMaxSteps] at hperform
      exact updateConfig_bounded hbounded hperform

theorem run_bounded {calls : List (Call Token)} {latest final : Token → Option Price}
    (hbounded : self.Bounded)
    (hrun : run checkedLn self latest calls = some (after, final)) : after.Bounded := by
  induction calls generalizing self latest with
  | nil =>
      obtain ⟨rfl, _⟩ := Prod.mk.inj (Option.some.inj hrun)
      exact hbounded
  | cons call calls ih =>
      rw [run] at hrun
      obtain ⟨middle, hmiddle, hrest⟩ := Option.bind_eq_some_iff.mp hrun
      exact ih (perform_bounded hbounded hmiddle) hrest

/-- The graph was built by calls from an empty one. -/
def Reached (checkedLn : Decimal → Option Decimal) (whole : MarketGraph Token) : Prop :=
  ∃ config calls latest,
    run checkedLn (withConfig config) (fun _ => none) calls = some (whole, latest)

theorem Reached.bounded (hreached : self.Reached checkedLn) : self.Bounded := by
  obtain ⟨config, calls, latest, hrun⟩ := hreached
  exact run_bounded (bounded_withConfig config) hrun

/-! ## Distinct nodes -/

omit [MarketNum] in
/-- No two tokens share a node. -/
def Distinct (self : MarketGraph Token) : Prop :=
  ∀ ⦃token other : Token⦄ ⦃state found : CollateralTokenState Token⦄,
    self.collateralTokens.get token = some state →
    self.collateralTokens.get other = some found → state.ix = found.ix → token = other

omit [MarketNum] in
theorem SameEnds.distinct (hsame : SameEnds self after) (hdistinct : self.Distinct) :
    after.Distinct := by
  intro token other state found hget hother
  rw [hsame.collateralTokens] at hget hother
  exact hdistinct hget hother

omit [MarketNum] in
theorem insertCollateralToken_distinct (hbounded : self.Bounded) (hdistinct : self.Distinct)
    (token marketToken : Token) :
    (self.insertCollateralToken token marketToken).1.Distinct := by
  cases hget : self.collateralTokens.get token with
  | none =>
      rw [insertCollateralToken_of_none hget]
      intro first second state found hfirst hsecond hix
      rw [IndexMap.get_insert] at hfirst hsecond
      split at hfirst <;> split at hsecond
      · rename_i hfirstToken hsecondToken
        exact hfirstToken.trans hsecondToken.symm
      · obtain rfl := Option.some.inj hfirst
        exact absurd (hbounded.nodes hsecond) (by rw [← hix]; exact lt_irrefl _)
      · obtain rfl := Option.some.inj hsecond
        exact absurd (hbounded.nodes hfirst) (by rw [hix]; exact lt_irrefl _)
      · exact hdistinct hfirst hsecond hix
  | some known =>
      rw [insertCollateralToken_of_some hget]
      intro first second state found hfirst hsecond hix
      rw [IndexMap.get_insert] at hfirst hsecond
      split at hfirst <;> split at hsecond
      · rename_i hfirstToken hsecondToken
        exact hfirstToken.trans hsecondToken.symm
      · rename_i hfirstToken _
        obtain rfl := Option.some.inj hfirst
        exact hfirstToken.trans (hdistinct hget hsecond hix)
      · rename_i _ hsecondToken
        obtain rfl := Option.some.inj hsecond
        exact (hdistinct hfirst hget hix).trans hsecondToken.symm
      · exact hdistinct hfirst hsecond hix

omit [MarketNum] in
theorem insertTokensWithMeta_distinct (hbounded : self.Bounded) (hdistinct : self.Distinct)
    (info : MarketMeta Token) : (self.insertTokensWithMeta info).1.Distinct := by
  have hindex : (self.insertIndexToken info.indexTokenMint info.marketTokenMint).Bounded :=
    ⟨hbounded.edges, hbounded.nodes⟩
  have hlong := (insertCollateralToken_bounded hindex info.longTokenMint
    info.marketTokenMint).1
  exact insertCollateralToken_distinct hlong
    (insertCollateralToken_distinct hindex hdistinct _ _) _ _

theorem perform_distinct {call : Call Token} (hbounded : self.Bounded)
    (hdistinct : self.Distinct) (hperform : self.perform checkedLn call = some after) :
    after.Distinct := by
  have hconfig {config : MarketGraphConfig} {shouldUpdateEstimation : Bool}
      (hupdate : self.updateConfig checkedLn config shouldUpdateEstimation = some after) :
      after.Distinct := by
    rw [updateConfig] at hupdate
    split_ifs at hupdate
    · exact (updateEstimation_sameEnds hupdate).distinct hdistinct
    · obtain rfl := Option.some.inj hupdate
      exact hdistinct
  cases call with
  | insertMarket model =>
      obtain ⟨⟨updated, isNew⟩, hinsert, rfl⟩ := Option.map_eq_some_iff.mp hperform
      have htokens := insertTokensWithMeta_distinct hbounded hdistinct model.info
      rw [insertMarket] at hinsert
      dsimp only at hinsert
      split at hinsert
      all_goals
        obtain ⟨changed, hupdate, hpair⟩ := Option.map_eq_some_iff.mp hinsert
        obtain ⟨rfl, _⟩ := Prod.mk.inj hpair
        exact (updateEstimation_sameEnds hupdate).distinct htokens
  | updateTokenPrice token price =>
      rw [perform, updateTokenPrice] at hperform
      obtain ⟨priced, hpriced, hfold⟩ := Option.bind_eq_some_iff.mp hperform
      have hindex : (self.setIndexPrice token price).Distinct := by
        intro first second state found hfirst hsecond
        rw [(setIndexPrice_frame self token price).2.2.2] at hfirst hsecond
        exact hdistinct hfirst hsecond
      exact ((setNodePrice_sameEnds hpriced).trans
        (foldlM_sameEnds (fun hstep => updateEstimation_sameEnds hstep) hfold)).distinct hindex
  | updateValue value =>
      rw [perform, updateValue] at hperform
      exact hconfig hperform
  | updateBaseCost baseCost =>
      rw [perform, updateBaseCost] at hperform
      exact hconfig hperform
  | updateMaxSteps maxSteps =>
      rw [perform, updateMaxSteps] at hperform
      exact hconfig hperform

theorem run_distinct {calls : List (Call Token)} {latest final : Token → Option Price}
    (hbounded : self.Bounded) (hdistinct : self.Distinct)
    (hrun : run checkedLn self latest calls = some (after, final)) : after.Distinct := by
  induction calls generalizing self latest with
  | nil =>
      obtain ⟨rfl, _⟩ := Prod.mk.inj (Option.some.inj hrun)
      exact hdistinct
  | cons call calls ih =>
      rw [run] at hrun
      obtain ⟨middle, hmiddle, hrest⟩ := Option.bind_eq_some_iff.mp hrun
      exact ih (perform_bounded hbounded hmiddle)
        (perform_distinct hbounded hdistinct hmiddle) hrest

theorem Reached.distinct (hreached : self.Reached checkedLn) : self.Distinct := by
  obtain ⟨config, calls, latest, hrun⟩ := hreached
  apply run_distinct (bounded_withConfig config) _ hrun
  intro token other state found hget
  exact absurd hget (by simp [withConfig])

end Updates

end MarketGraph

end Gmsol.Sdk
