import Gmsol.Library.IndexMap
import Gmsol.MarketGraph.Estimation

/-!
# The market graph

The nodes of the graph are the collateral tokens, and every market is a pair of
edges between its two tokens.  The price of a token is kept with the index
tokens, with the nodes, or with both; the estimations are computed from the
prices when a market or a price arrives.
-/

namespace Gmsol.Sdk

open Gmsol.Model

structure Node (Token : Type) where
  token : Token
  price : Option Price
  deriving DecidableEq, Repr

def Node.new {Token : Type} (token : Token) : Node Token := ⟨token, none⟩

structure Edge (Token : Type) where
  source : ℕ
  target : ℕ
  marketToken : Token
  estimated : Option SwapEstimation
  deriving DecidableEq, Repr

def Edge.cost {Token : Type} (edge : Edge Token) : Option Decimal :=
  edge.estimated.map fun estimated => -estimated.lnExchangeRate

/-! ## The directed graph -/

/-- Nodes and edges by their indices; none is ever removed. -/
structure Graph (Token : Type) where
  nodes : List (Node Token)
  edges : List (Edge Token)
  deriving DecidableEq, Repr

namespace Graph

variable {Token : Type}

def empty : Graph Token := ⟨[], []⟩

def addNode (graph : Graph Token) (node : Node Token) : Graph Token × ℕ :=
  ({ graph with nodes := graph.nodes ++ [node] }, graph.nodes.length)

def addEdge (graph : Graph Token) (source target : ℕ) (marketToken : Token) :
    Graph Token × ℕ :=
  ({ graph with edges := graph.edges ++ [⟨source, target, marketToken, none⟩] },
    graph.edges.length)

/-- The program stops where there is no such node. -/
def setPrice (graph : Graph Token) (ix : ℕ) (price : Price) : Option (Graph Token) :=
  if ix < graph.nodes.length then
    some { graph with
      nodes := graph.nodes.modify ix fun node => { node with price := some price } }
  else none

/-- The program stops where there is no such edge. -/
def setEstimated (graph : Graph Token) (ix : ℕ)
    (estimated : Option SwapEstimation) : Option (Graph Token) :=
  if ix < graph.edges.length then
    some { graph with
      edges := graph.edges.modify ix fun edge => { edge with estimated } }
  else none

/-- The edges that leave a node, the latest first. -/
def outgoing (graph : Graph Token) (node : ℕ) : List (ℕ × Edge Token) :=
  (graph.edges.zipIdx.map Prod.swap).reverse.filter fun edge =>
    edge.2.source = node

end Graph

structure IndexTokenState (Token : Type) where
  node : Node Token
  markets : List Token

structure CollateralTokenState (Token : Type) where
  ix : ℕ
  markets : List Token

structure MarketState (Token : Type) where
  model : MarketModel Token
  longEdge : ℕ
  shortEdge : ℕ

/-- The edge that swaps from the given side of the market. -/
def MarketState.edge {Token : Type} (state : MarketState Token)
    (isFromLongSide : Bool) : ℕ :=
  if isFromLongSide then state.longEdge else state.shortEdge

structure MarketGraph (Token : Type) where
  indexTokens : IndexMap Token (IndexTokenState Token)
  collateralTokens : IndexMap Token (CollateralTokenState Token)
  markets : IndexMap Token (MarketState Token)
  graph : Graph Token
  config : MarketGraphConfig

namespace MarketGraph

variable {Token : Type} [DecidableEq Token]

omit [DecidableEq Token] in
def withConfig (config : MarketGraphConfig) : MarketGraph Token :=
  ⟨.empty, .empty, .empty, .empty, config⟩

/-! ## Prices -/

def getTokenNode (self : MarketGraph Token) (token : Token) :
    Option (Node Token) :=
  match self.indexTokens.get token with
  | some state => some state.node
  | none => do
      let state ← self.collateralTokens.get token
      self.graph.nodes[state.ix]?

def getPrice (self : MarketGraph Token) (token : Token) : Option Price :=
  (self.getTokenNode token).bind Node.price

/-- The prices of the tokens of a market, by any source of prices. -/
def pricesBy (price : Token → Option Price) (info : MarketMeta Token) :
    Option Prices := do
  let indexTokenPrice ← price info.indexTokenMint
  let longTokenPrice ← price info.longTokenMint
  let shortTokenPrice ← price info.shortTokenMint
  some ⟨indexTokenPrice, longTokenPrice, shortTokenPrice⟩

def getPrices (self : MarketGraph Token) (info : MarketMeta Token) :
    Option Prices :=
  pricesBy self.getPrice info

/-! ## Tokens -/

def insertIndexToken (self : MarketGraph Token) (indexToken marketToken : Token) :
    MarketGraph Token :=
  let state := (self.indexTokens.get indexToken).getD ⟨.new indexToken, []⟩
  let state := { state with markets := state.markets.insert marketToken }
  { self with indexTokens := self.indexTokens.insert indexToken state }

def insertCollateralToken (self : MarketGraph Token) (token marketToken : Token) :
    MarketGraph Token × ℕ :=
  match self.collateralTokens.get token with
  | none =>
      let (graph, ix) := self.graph.addNode (.new token)
      ({ self with
          graph
          collateralTokens :=
            self.collateralTokens.insert token ⟨ix, [marketToken]⟩ }, ix)
  | some state =>
      let state := { state with markets := state.markets.insert marketToken }
      ({ self with
          collateralTokens := self.collateralTokens.insert token state }, state.ix)

def insertTokensWithMeta (self : MarketGraph Token) (info : MarketMeta Token) :
    MarketGraph Token × ℕ × ℕ :=
  let self := self.insertIndexToken info.indexTokenMint info.marketTokenMint
  let (self, longTokenIx) :=
    self.insertCollateralToken info.longTokenMint info.marketTokenMint
  let (self, shortTokenIx) :=
    self.insertCollateralToken info.shortTokenMint info.marketTokenMint
  (self, longTokenIx, shortTokenIx)

/-! ## Updates -/

section Updates

variable [MarketNum] (checkedLn : Decimal → Option Decimal)

def setEstimated (self : MarketGraph Token) (ix : ℕ)
    (estimated : Option SwapEstimation) : Option (MarketGraph Token) :=
  (self.graph.setEstimated ix estimated).map fun graph => { self with graph }

/-- Estimates the two edges of one market. -/
def estimateMarket (self : MarketGraph Token) (state : MarketState Token) :
    Option (MarketGraph Token) := do
  let prices := self.getPrices state.model.info
  let self ← self.setEstimated state.longEdge
    (self.config.estimate checkedLn state.model true prices)
  self.setEstimated state.shortEdge
    (self.config.estimate checkedLn state.model false prices)

def updateEstimation (self : MarketGraph Token) (only : Option Token) :
    Option (MarketGraph Token) :=
  let states := match only with
    | some token => (self.markets.get token).toList
    | none => self.markets.entries.map Prod.snd
  states.foldlM (estimateMarket checkedLn) self

/-- The edges of a market that is new. -/
def insertEdges (self : MarketGraph Token) (model : MarketModel Token)
    (longTokenIx shortTokenIx : ℕ) : MarketGraph Token :=
  let key := model.info.marketTokenMint
  let (graph, longEdge) := self.graph.addEdge longTokenIx shortTokenIx key
  let (graph, shortEdge) := graph.addEdge shortTokenIx longTokenIx key
  { self with
    graph
    markets := self.markets.insert key ⟨model, longEdge, shortEdge⟩ }

/-- The market graph with the market, and whether the market is new. -/
def insertMarket (self : MarketGraph Token) (model : MarketModel Token) :
    Option (MarketGraph Token × Bool) :=
  let key := model.info.marketTokenMint
  let (self, longTokenIx, shortTokenIx) := self.insertTokensWithMeta model.info
  match self.markets.get key with
  | none =>
      ((self.insertEdges model longTokenIx shortTokenIx).updateEstimation
        checkedLn (some key)).map fun self => (self, true)
  | some state =>
      let state := { state with model }
      ({ self with markets := self.markets.insert key state }.updateEstimation
        checkedLn (some key)).map fun self => (self, false)

def setIndexPrice (self : MarketGraph Token) (token : Token) (price : Price) :
    MarketGraph Token :=
  match self.indexTokens.get token with
  | none => self
  | some state =>
      let state := { state with node := { state.node with price := some price } }
      { self with indexTokens := self.indexTokens.insert token state }

def setNodePrice (self : MarketGraph Token) (token : Token) (price : Price) :
    Option (MarketGraph Token) :=
  match self.collateralTokens.get token with
  | none => some self
  | some state =>
      (self.graph.setPrice state.ix price).map fun graph => { self with graph }

/-- The markets in which a token has a role. -/
def relatedMarkets (self : MarketGraph Token) (token : Token) : List Token :=
  (((self.indexTokens.get token).map IndexTokenState.markets).getD [] ++
    ((self.collateralTokens.get token).map
      CollateralTokenState.markets).getD []).dedup

def updateTokenPrice (self : MarketGraph Token) (token : Token) (price : Price) :
    Option (MarketGraph Token) := do
  let self ← (self.setIndexPrice token price).setNodePrice token price
  (self.relatedMarkets token).foldlM
    (fun self marketToken => self.updateEstimation checkedLn (some marketToken))
    self

def updateConfig (self : MarketGraph Token) (config : MarketGraphConfig)
    (shouldUpdateEstimation : Bool) : Option (MarketGraph Token) :=
  let self := { self with config }
  if shouldUpdateEstimation then self.updateEstimation checkedLn none
  else some self

def updateValue (self : MarketGraph Token) (value : ℕ) :
    Option (MarketGraph Token) :=
  self.updateConfig checkedLn { self.config with
    swapEstimationParams := { self.config.swapEstimationParams with value } } true

def updateBaseCost (self : MarketGraph Token) (baseCost : ℕ) :
    Option (MarketGraph Token) :=
  self.updateConfig checkedLn { self.config with
    swapEstimationParams := { self.config.swapEstimationParams with baseCost } }
    true

def updateMaxSteps (self : MarketGraph Token) (maxSteps : ℕ) :
    Option (MarketGraph Token) :=
  self.updateConfig checkedLn { self.config with maxSteps } false

end Updates

end MarketGraph

end Gmsol.Sdk
