import Gmsol.MarketGraph.Graph

/-!
# Consistency of the market graph

Tokens, nodes, markets and edges refer to each other by index.  This module
states that the references are right, and that what changes prices and
estimations only keeps them right.
-/

namespace Gmsol.Sdk

open Gmsol.Model

variable {Token : Type} [DecidableEq Token]

namespace MarketMeta

omit [DecidableEq Token] in
/-- The tokens whose prices a market needs. -/
def tokens (info : MarketMeta Token) : List Token :=
  [info.indexTokenMint, info.longTokenMint, info.shortTokenMint]

end MarketMeta

namespace MarketGraph

variable {self after last : MarketGraph Token} {token key : Token}
  {state : MarketState Token}

omit [DecidableEq Token] in
/-- The prices of a market depend on its tokens alone. -/
theorem pricesBy_congr {price other : Token → Option Price} {info : MarketMeta Token}
    (hsame : ∀ token ∈ info.tokens, price token = other token) :
    pricesBy price info = pricesBy other info := by
  have hindex := hsame info.indexTokenMint (by simp [MarketMeta.tokens])
  have hlong := hsame info.longTokenMint (by simp [MarketMeta.tokens])
  have hshort := hsame info.shortTokenMint (by simp [MarketMeta.tokens])
  rw [pricesBy, pricesBy, hindex, hlong, hshort]

/-- A market in which a token is known to have a role. -/
def Related (self : MarketGraph Token) (token key : Token) : Prop :=
  (∃ state, self.indexTokens.get token = some state ∧ key ∈ state.markets) ∨
    ∃ state, self.collateralTokens.get token = some state ∧ key ∈ state.markets

theorem mem_relatedMarkets :
    key ∈ self.relatedMarkets token ↔ self.Related token key := by
  rw [relatedMarkets, List.mem_dedup, List.mem_append, Related]
  apply or_congr
  · cases self.indexTokens.get token with
    | none => simp
    | some state => simp
  · cases self.collateralTokens.get token with
    | none => simp
    | some state => simp

/-- The nodes of the collateral tokens are theirs. -/
def NodesOf (self : MarketGraph Token) : Prop :=
  ∀ {token state}, self.collateralTokens.get token = some state →
    ∃ node, self.graph.nodes[state.ix]? = some node ∧ node.token = token

/-- The edges of the markets are theirs. -/
structure EdgesOf (whole : MarketGraph Token) : Prop where
  market_key : ∀ {key state}, whole.markets.get key = some state →
    state.model.info.marketTokenMint = key
  edge_market : ∀ {key state}, whole.markets.get key = some state → ∀ side,
    ∃ edge, whole.graph.edges[state.edge side]? = some edge ∧ edge.marketToken = key
  sides_ne : ∀ {key state}, whole.markets.get key = some state →
    state.longEdge ≠ state.shortEdge
  market_edge : ∀ {ix edge}, whole.graph.edges[ix]? = some edge → ∃ state side,
    whole.markets.get edge.marketToken = some state ∧ state.edge side = ix

structure Consistent (whole : MarketGraph Token) : Prop where
  nodes : whole.NodesOf
  edges : whole.EdgesOf
  related : ∀ {key state}, whole.markets.get key = some state →
    ∀ token ∈ state.model.info.tokens, whole.Related token key

theorem consistent_withConfig (config : MarketGraphConfig) :
    (withConfig config : MarketGraph Token).Consistent where
  nodes hget := absurd hget (by simp [withConfig])
  edges :=
    { market_key := fun hget => absurd hget (by simp [withConfig])
      edge_market := fun hget => absurd hget (by simp [withConfig])
      sides_ne := fun hget => absurd hget (by simp [withConfig])
      market_edge := fun hget => absurd hget (by simp [withConfig, Graph.empty]) }
  related hget := absurd hget (by simp [withConfig])

/-- Two markets share no edge. -/
theorem EdgesOf.edge_inj (hedges : self.EdgesOf) {other : Token}
    {second : MarketState Token} {side secondSide : Bool}
    (hget : self.markets.get key = some state)
    (hother : self.markets.get other = some second)
    (hsame : state.edge side = second.edge secondSide) : key = other := by
  obtain ⟨edge, hedge, hkey⟩ := hedges.edge_market hget side
  obtain ⟨found, hfound, hfoundKey⟩ := hedges.edge_market hother secondSide
  rw [← hsame, hedge] at hfound
  obtain rfl := Option.some.inj hfound
  exact hkey.symm.trans hfoundKey

/-! ## Changes of the estimations -/

/-- The graphs differ in their estimations at most. -/
structure SameMarkets (before after : MarketGraph Token) : Prop where
  indexTokens : after.indexTokens = before.indexTokens
  collateralTokens : after.collateralTokens = before.collateralTokens
  markets : after.markets = before.markets
  nodes : after.graph.nodes = before.graph.nodes
  config : after.config = before.config
  edges : ∀ ix : ℕ, after.graph.edges[ix]?.map Edge.marketToken =
    before.graph.edges[ix]?.map Edge.marketToken

omit [DecidableEq Token] in
theorem SameMarkets.refl (self : MarketGraph Token) : SameMarkets self self :=
  ⟨rfl, rfl, rfl, rfl, rfl, fun _ => rfl⟩

omit [DecidableEq Token] in
theorem SameMarkets.trans (hfirst : SameMarkets self after)
    (hsecond : SameMarkets after last) : SameMarkets self last where
  indexTokens := hsecond.indexTokens.trans hfirst.indexTokens
  collateralTokens := hsecond.collateralTokens.trans hfirst.collateralTokens
  markets := hsecond.markets.trans hfirst.markets
  nodes := hsecond.nodes.trans hfirst.nodes
  config := hsecond.config.trans hfirst.config
  edges ix := (hsecond.edges ix).trans (hfirst.edges ix)

theorem SameMarkets.getPrice (hsame : SameMarkets self after) (token : Token) :
    after.getPrice token = self.getPrice token := by
  rw [MarketGraph.getPrice, MarketGraph.getPrice, getTokenNode, getTokenNode,
    hsame.indexTokens, hsame.collateralTokens, hsame.nodes]

theorem SameMarkets.getPrices (hsame : SameMarkets self after)
    (info : MarketMeta Token) : after.getPrices info = self.getPrices info :=
  pricesBy_congr fun token _ => hsame.getPrice token

theorem SameMarkets.consistent (hsame : SameMarkets self after)
    (hcons : self.Consistent) : after.Consistent where
  nodes hget := by
    rw [hsame.collateralTokens] at hget
    rw [hsame.nodes]
    exact hcons.nodes hget
  edges :=
    { market_key := fun hget => hcons.edges.market_key (hsame.markets ▸ hget)
      edge_market := fun {key state} hget side => by
        obtain ⟨edge, hedge, hkey⟩ :=
          hcons.edges.edge_market (hsame.markets ▸ hget) side
        have hmap := hsame.edges (state.edge side)
        rw [hedge, Option.map_some, hkey] at hmap
        exact Option.map_eq_some_iff.mp hmap
      sides_ne := fun hget => hcons.edges.sides_ne (hsame.markets ▸ hget)
      market_edge := fun {ix edge} hedge => by
        have hmap := hsame.edges ix
        rw [hedge, Option.map_some] at hmap
        obtain ⟨old, hold, hkey⟩ := Option.map_eq_some_iff.mp hmap.symm
        rw [hsame.markets, ← hkey]
        exact hcons.edges.market_edge hold }
  related hget token htoken := by
    rw [hsame.markets] at hget
    rw [Related, hsame.indexTokens, hsame.collateralTokens]
    exact hcons.related hget token htoken

omit [DecidableEq Token] in
theorem setEstimated_spec {ix : ℕ} (hix : ix < self.graph.edges.length)
    (estimated : Option SwapEstimation) :
    ∃ after, self.setEstimated ix estimated = some after ∧ SameMarkets self after ∧
      ∀ other : ℕ, after.graph.edges[other]? =
        if ix = other then
          self.graph.edges[other]?.map fun edge => { edge with estimated }
        else self.graph.edges[other]? := by
  have hget : ∀ other : ℕ,
      (self.graph.edges.modify ix fun edge => { edge with estimated })[other]? =
        if ix = other then
          self.graph.edges[other]?.map fun edge => { edge with estimated }
        else self.graph.edges[other]? := by
    intro other
    rw [List.getElem?_modify]
    by_cases hsame : ix = other
    · simp only [hsame, if_true, Option.map_eq_map]
    · simp only [hsame, if_false, Option.map_eq_map, Option.map_id']
  refine ⟨{ self with graph := { self.graph with
    edges := self.graph.edges.modify ix fun edge => { edge with estimated } } },
    ?_, ⟨rfl, rfl, rfl, rfl, rfl, ?_⟩, hget⟩
  · rw [setEstimated, Graph.setEstimated, if_pos hix]
    rfl
  · intro other
    rw [hget other]
    split
    · rw [Option.map_map]
      rfl
    · rfl

/-! ## Fresh estimations -/

section Fresh

variable [MarketNum] {checkedLn : Decimal → Option Decimal}

/-- The estimations of a market are those at the prices of the graph. -/
def FreshAt (checkedLn : Decimal → Option Decimal) (self : MarketGraph Token)
    (key : Token) : Prop :=
  ∀ state side edge, self.markets.get key = some state →
    self.graph.edges[state.edge side]? = some edge →
    edge.estimated = self.config.estimate checkedLn state.model side
      (self.getPrices state.model.info)

/-- Nothing but estimations changes, those of the given markets are fresh
afterwards, and those that were fresh still are. -/
structure Refreshes (checkedLn : Decimal → Option Decimal)
    (before after : MarketGraph Token) (keys : Token → Prop) : Prop where
  same : SameMarkets before after
  fresh : ∀ key, keys key → FreshAt checkedLn after key
  keep : ∀ key, FreshAt checkedLn before key → FreshAt checkedLn after key

theorem Refreshes.refl (self : MarketGraph Token) :
    Refreshes checkedLn self self fun _ => False where
  same := .refl self
  fresh _ hfalse := hfalse.elim
  keep _ hfresh := hfresh

theorem Refreshes.trans {keys more : Token → Prop}
    (hfirst : Refreshes checkedLn self after keys)
    (hsecond : Refreshes checkedLn after last more) :
    Refreshes checkedLn self last fun key => keys key ∨ more key where
  same := hfirst.same.trans hsecond.same
  fresh key hkey := by
    rcases hkey with hkeys | hmore
    · exact hsecond.keep key (hfirst.fresh key hkeys)
    · exact hsecond.fresh key hmore
  keep key hfresh := hsecond.keep key (hfirst.keep key hfresh)

theorem estimateMarket_spec (hcons : self.Consistent)
    (hget : self.markets.get key = some state) :
    ∃ after, self.estimateMarket checkedLn state = some after ∧
      Refreshes checkedLn self after fun other => other = key := by
  obtain ⟨longEdge, hlong, -⟩ := hcons.edges.edge_market hget true
  obtain ⟨middle, hmiddle, hsameMiddle, hmiddleEdges⟩ := setEstimated_spec
    (List.getElem?_eq_some_iff.mp hlong).1
    (self.config.estimate checkedLn state.model true
      (self.getPrices state.model.info))
  obtain ⟨shortEdge, hshort, -⟩ := (hsameMiddle.consistent hcons).edges.edge_market
    (hsameMiddle.markets ▸ hget) false
  obtain ⟨after, hafter, hsameAfter, hafterEdges⟩ := setEstimated_spec
    (List.getElem?_eq_some_iff.mp hshort).1
    (middle.config.estimate checkedLn state.model false
      (self.getPrices state.model.info))
  have hsame := hsameMiddle.trans hsameAfter
  have hne := hcons.edges.sides_ne hget
  have hkey : FreshAt checkedLn after key := by
    intro found side edge hfound hedge
    rw [hsame.markets, hget] at hfound
    obtain rfl := Option.some.inj hfound
    rw [hsame.config, hsame.getPrices]
    rw [hafterEdges, hmiddleEdges] at hedge
    cases side with
    | true =>
        rw [if_neg (show state.edge false ≠ state.edge true from hne.symm),
          if_pos rfl] at hedge
        obtain ⟨old, -, rfl⟩ := Option.map_eq_some_iff.mp hedge
        rfl
    | false =>
        rw [if_pos rfl] at hedge
        obtain ⟨old, -, rfl⟩ := Option.map_eq_some_iff.mp hedge
        rw [← hsameMiddle.config]
  refine ⟨after, ?_, hsame, ?_, ?_⟩
  · rw [estimateMarket]
    exact Option.bind_eq_some_iff.mpr ⟨middle, hmiddle, hafter⟩
  · rintro other rfl
    exact hkey
  · intro other hfresh
    by_cases hother : other = key
    · rw [hother]
      exact hkey
    · -- another market has other edges, which are left alone
      intro found side edge hfound hedge
      rw [hsame.markets] at hfound
      have hapart : ∀ own, state.edge own ≠ found.edge side := fun own hedges =>
        hother (hcons.edges.edge_inj hget hfound hedges).symm
      rw [hafterEdges, hmiddleEdges, if_neg (hapart false),
        if_neg (hapart true)] at hedge
      rw [hsame.config, hsame.getPrices]
      exact hfresh found side edge hfound hedge

theorem estimateMarkets_spec {states : List (MarketState Token)}
    (hcons : self.Consistent)
    (hstates : ∀ state ∈ states, ∃ key, self.markets.get key = some state) :
    ∃ after, states.foldlM (estimateMarket checkedLn) self = some after ∧
      Refreshes checkedLn self after fun key =>
        ∃ state ∈ states, self.markets.get key = some state := by
  induction states generalizing self with
  | nil =>
      refine ⟨self, rfl, .refl self, ?_, fun _ hfresh => hfresh⟩
      rintro key ⟨state, hmem, -⟩
      exact absurd hmem (by simp)
  | cons state states ih =>
      obtain ⟨key, hget⟩ := hstates state List.mem_cons_self
      obtain ⟨middle, hmiddle, hfirst⟩ :=
        @estimateMarket_spec _ _ _ _ _ _ checkedLn hcons hget
      obtain ⟨after, hafter, hrest⟩ := ih (hfirst.same.consistent hcons)
        fun other hother => by
          rw [hfirst.same.markets]
          exact hstates other (List.mem_cons_of_mem state hother)
      have hboth := hfirst.trans hrest
      refine ⟨after, ?_, hboth.same, ?_, hboth.keep⟩
      · rw [List.foldlM_cons]
        exact Option.bind_eq_some_iff.mpr ⟨middle, hmiddle, hafter⟩
      · rintro other ⟨found, hmem, hfound⟩
        rcases List.mem_cons.mp hmem with rfl | hrestMem
        · -- a state is that of its market token
          apply hboth.fresh
          left
          rw [← hcons.edges.market_key hfound, hcons.edges.market_key hget]
        · apply hboth.fresh
          right
          exact ⟨found, hrestMem, hfirst.same.markets ▸ hfound⟩

theorem updateEstimation_spec (hcons : self.Consistent) (key : Token) :
    ∃ after, self.updateEstimation checkedLn (some key) = some after ∧
      Refreshes checkedLn self after fun other => other = key := by
  have hstates : ∀ state ∈ (self.markets.get key).toList, ∃ key,
      self.markets.get key = some state := by
    intro state hmem
    rw [Option.mem_toList] at hmem
    exact ⟨key, hmem⟩
  obtain ⟨after, hafter, hrefresh⟩ := estimateMarkets_spec hcons hstates
  refine ⟨after, hafter, hrefresh.same, ?_, hrefresh.keep⟩
  rintro other rfl state side edge hget hedge
  rw [hrefresh.same.markets] at hget
  exact hrefresh.fresh other ⟨state, Option.mem_toList.mpr hget, hget⟩ state side
    edge (hrefresh.same.markets ▸ hget) hedge

/-- All estimations are fresh after an update of all markets. -/
theorem updateEstimation_all_spec (hcons : self.Consistent) :
    ∃ after, self.updateEstimation checkedLn none = some after ∧
      Refreshes checkedLn self after fun _ => True := by
  have hstates : ∀ state ∈ self.markets.entries.map Prod.snd, ∃ key,
      self.markets.get key = some state := by
    intro state hmem
    obtain ⟨entry, hentry, rfl⟩ := List.mem_map.mp hmem
    exact ⟨entry.1, IndexMap.get_of_mem hentry⟩
  obtain ⟨after, hafter, hrefresh⟩ := estimateMarkets_spec hcons hstates
  refine ⟨after, hafter, hrefresh.same, ?_, hrefresh.keep⟩
  intro key _ state side edge hget hedge
  rw [hrefresh.same.markets] at hget
  exact hrefresh.fresh key ⟨state, IndexMap.mem_values_of_get hget, hget⟩ state side
    edge (hrefresh.same.markets ▸ hget) hedge

theorem updateEstimations_spec {keys : List Token} (hcons : self.Consistent) :
    ∃ after, keys.foldlM
        (fun self key => self.updateEstimation checkedLn (some key)) self =
          some after ∧
      Refreshes checkedLn self after fun key => key ∈ keys := by
  induction keys generalizing self with
  | nil =>
      refine ⟨self, rfl, .refl self, ?_, fun _ hfresh => hfresh⟩
      intro key hmem
      exact absurd hmem (by simp)
  | cons key keys ih =>
      obtain ⟨middle, hmiddle, hfirst⟩ := updateEstimation_spec hcons key
      obtain ⟨after, hafter, hrest⟩ := ih (hfirst.same.consistent hcons)
      have hboth := hfirst.trans hrest
      refine ⟨after, ?_, hboth.same, ?_, hboth.keep⟩
      · rw [List.foldlM_cons]
        exact Option.bind_eq_some_iff.mpr ⟨middle, hmiddle, hafter⟩
      · intro other hmem
        exact hboth.fresh other (List.mem_cons.mp hmem)

end Fresh

end MarketGraph

end Gmsol.Sdk
