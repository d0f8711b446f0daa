import Gmsol.Library.BellmanFord
import Gmsol.MarketGraph.Consistency

/-!
# Best swap paths

The best path from a token is searched for with one of two algorithms: the
relaxation of all edges in rounds, which also finds out whether an arbitrage is
possible, or a search in depth.  Only paths of a limited number of steps count.
-/

namespace Gmsol.Sdk

open Gmsol.Model

/-- The distances of the nodes, and the edges by which they were reached. -/
structure Labels (Token : Type) where
  distances : ℕ → Option Decimal
  predecessors : ℕ → Option (ℕ × Token)

inductive MarketGraphError
  | unknownSource
  | negativeCycle
  deriving DecidableEq, Repr

namespace MarketGraph

variable {Token : Type} [DecidableEq Token]

def nodeCount (self : MarketGraph Token) : ℕ := self.graph.nodes.length

def nodeIdentifiers (self : MarketGraph Token) : List ℕ := List.range self.nodeCount

/-- The node of the source, which has to be a collateral token. -/
def sourceNode (self : MarketGraph Token) (source : Token) : Except MarketGraphError ℕ :=
  match self.collateralTokens.get source with
  | some state => .ok state.ix
  | none => .error .unknownSource

/-! ## Relaxation -/

omit [DecidableEq Token] in
/-- The labels at the beginning: only the source has a distance. -/
def initialLabels (source : ℕ) : Labels Token where
  distances := Function.update (fun _ => none) source (some 0)
  predecessors _ := none

omit [DecidableEq Token] in
/-- Relaxes one edge that leaves node `i`, and records whether a distance changed.
Predecessors are only recorded within the limit of the steps. -/
def relaxEdge (withinLimit : Bool) (i : ℕ) (state : Labels Token × Bool)
    (edge : Edge Token) : Labels Token × Bool :=
  let labels := state.1
  let j := edge.target
  match edge.cost, labels.distances i with
  | some w, some d =>
    if (labels.distances j).all (fun current => d + w < current) then
      ({ distances := Function.update labels.distances j (some (d + w))
         predecessors :=
          if withinLimit then
            Function.update labels.predecessors j (some (i, edge.marketToken))
          else labels.predecessors }, true)
    else state
  | _, _ => state

def relaxNode (self : MarketGraph Token) (withinLimit : Bool)
    (state : Labels Token × Bool) (i : ℕ) : Labels Token × Bool :=
  ((self.graph.outgoing i).map Prod.snd).foldl (relaxEdge withinLimit i) state

/-- One round over all edges. -/
def relaxAll (self : MarketGraph Token) (withinLimit : Bool) (labels : Labels Token) :
    Labels Token × Bool :=
  self.nodeIdentifiers.foldl (self.relaxNode withinLimit) (labels, false)

/-- The rounds from `steps` on, with the distances that are cached when the steps reach
their limit. -/
def relaxRounds (self : MarketGraph Token) :
    ℕ → ℕ → Labels Token → Option (ℕ → Option Decimal) →
      Labels Token × Option (ℕ → Option Decimal)
  | 0, _, labels, cached => (labels, cached)
  | remaining + 1, steps, labels, cached =>
    let round := self.relaxAll (steps ≤ self.config.maxSteps) labels
    if round.2 then
      self.relaxRounds remaining (steps + 1) round.1
        (if steps = self.config.maxSteps then some round.1.distances else cached)
    else (round.1, cached)

omit [DecidableEq Token] in
/-- The edge still offers a lower distance. -/
def canRelax (distances : ℕ → Option Decimal) (i : ℕ) (edge : Edge Token) : Bool :=
  match edge.cost, distances i with
  | some w, some d => (distances edge.target).all fun current => d + w < current
  | _, _ => false

def hasNegativeCycle (self : MarketGraph Token) (distances : ℕ → Option Decimal) : Bool :=
  self.nodeIdentifiers.any fun i =>
    ((self.graph.outgoing i).map Prod.snd).any (canRelax distances i)

def bellmanFord (self : MarketGraph Token) (source : Token) :
    Except MarketGraphError (Labels Token) := do
  let source ← self.sourceNode source
  let (labels, cached) :=
    self.relaxRounds (self.nodeCount - 1) 1 (initialLabels source) none
  if self.hasNegativeCycle labels.distances then .error .negativeCycle
  else return { labels with distances := cached.getD labels.distances }

/-! ## Search in depth -/

/-- Visits a node with `remaining` steps left, one for the node itself.  No edge is
taken twice on one path. -/
def dfsRecursive (self : MarketGraph Token) :
    ℕ → ℕ → Option Decimal → Option (ℕ × Token) → List ℕ → Labels Token → Labels Token
  | 0, _, _, _, _, labels => labels
  | remaining + 1, i, distance, predecessor, visited, labels =>
    match distance with
    | none => labels
    | some d =>
      if (labels.distances i).any (fun best => best ≤ d) then labels
      else
        let labels : Labels Token :=
          { distances := Function.update labels.distances i (some d)
            predecessors := Function.update labels.predecessors i predecessor }
        (self.graph.outgoing i).foldl (fun labels edge =>
          if edge.1 ∈ visited then labels
          else self.dfsRecursive remaining edge.2.target
            (edge.2.cost.map fun w => w + d) (some (i, edge.2.marketToken))
            (edge.1 :: visited) labels) labels

def dfs (self : MarketGraph Token) (source : Token) :
    Except MarketGraphError (Labels Token) := do
  let source ← self.sourceNode source
  return self.dfsRecursive (self.config.maxSteps + 1) source (some 0) none []
    ⟨fun _ => none, fun _ => none⟩

/-! ## The result -/

structure BestSwapPaths (Token : Type) where
  source : Token
  labels : Labels Token
  arbitrageExists : Option Bool

/-- A negative cycle makes the first algorithm fall back to the second. -/
def bestSwapPaths (self : MarketGraph Token) (source : Token) (skipBellmanFord : Bool) :
    Except MarketGraphError (BestSwapPaths Token) :=
  if skipBellmanFord then do
    let labels ← self.dfs source
    return ⟨source, labels, none⟩
  else
    match self.bellmanFord source with
    | .ok labels => .ok ⟨source, labels, some false⟩
    | .error .negativeCycle => do
      let labels ← self.dfs source
      return ⟨source, labels, some true⟩
    | .error error => .error error

end MarketGraph

end Gmsol.Sdk
