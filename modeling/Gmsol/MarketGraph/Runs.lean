import Gmsol.MarketGraph.Freshness

/-!
# Runs of the market graph

Prices arrive for tokens that are known or not; markets arrive and are replaced;
the parameters of the estimation change.  The latest price of a token is the last
one that arrived while the token was known.
-/

namespace Gmsol.Sdk

open Gmsol.Model

variable {Token : Type} [DecidableEq Token]

namespace MarketGraph

variable {self after : MarketGraph Token} {token : Token} {price : Price}

/-! ## Prices -/

/-- The graph knows a token as an index or a collateral token. -/
def Knows (self : MarketGraph Token) (token : Token) : Prop :=
  token ∈ self.indexTokens.keys ∨ token ∈ self.collateralTokens.keys

instance (self : MarketGraph Token) (token : Token) : Decidable (self.Knows token) :=
  inferInstanceAs (Decidable (_ ∨ _))

/-- What a new price changes. -/
structure Priced (before after : MarketGraph Token) (token : Token) (price : Price) :
    Prop where
  markets : after.markets = before.markets
  edges : after.graph.edges = before.graph.edges
  config : after.config = before.config
  nodes : after.NodesOf
  related : ∀ other key, after.Related other key ↔ before.Related other key
  getPrice : ∀ other, after.getPrice other =
    if other = token ∧ before.Knows token then some price else before.getPrice other

/-- The new price of an index token is kept with the index tokens. -/
theorem setIndexPrice_getPrice (self : MarketGraph Token) (token : Token)
    (price : Price) (other : Token) :
    (self.setIndexPrice token price).getPrice other =
      if other = token ∧ token ∈ self.indexTokens.keys then some price
      else self.getPrice other := by
  rw [setIndexPrice]
  cases hget : self.indexTokens.get token with
  | none =>
      rw [if_neg fun hboth => IndexMap.get_eq_none.mp hget hboth.2]
  | some state =>
      by_cases hsame : other = token
      · rw [if_pos ⟨hsame, IndexMap.mem_keys_of_get hget⟩, getPrice, getTokenNode,
          IndexMap.get_insert, if_pos hsame]
        rfl
      · rw [if_neg fun hboth => hsame hboth.1, getPrice, getTokenNode,
          IndexMap.get_insert, if_neg hsame]
        rfl

theorem setIndexPrice_keys (self : MarketGraph Token) (token : Token)
    (price : Price) (other : Token) :
    other ∈ (self.setIndexPrice token price).indexTokens.keys ↔
      other ∈ self.indexTokens.keys := by
  rw [setIndexPrice]
  cases hget : self.indexTokens.get token with
  | none => exact Iff.rfl
  | some state =>
      rw [IndexMap.mem_keys_iff, IndexMap.mem_keys_iff, IndexMap.get_insert]
      split
      · rename_i hsame
        rw [hsame, hget]
        exact ⟨fun _ => ⟨_, rfl⟩, fun _ => ⟨_, rfl⟩⟩
      · exact Iff.rfl

theorem setIndexPrice_related (self : MarketGraph Token) (token : Token)
    (price : Price) (other key : Token) :
    (self.setIndexPrice token price).Related other key ↔
      self.Related other key := by
  rw [setIndexPrice]
  cases hget : self.indexTokens.get token with
  | none => exact Iff.rfl
  | some state =>
      apply or_congr _ Iff.rfl
      rw [IndexMap.get_insert]
      split
      · rename_i hsame
        rw [hsame, hget]
        constructor
        · rintro ⟨found, hfound, hmem⟩
          obtain rfl := Option.some.inj hfound
          exact ⟨state, rfl, hmem⟩
        · rintro ⟨found, hfound, hmem⟩
          obtain rfl := Option.some.inj hfound
          exact ⟨_, rfl, hmem⟩
      · exact Iff.rfl

/-- What `setIndexPrice` leaves alone. -/
theorem setIndexPrice_frame (self : MarketGraph Token) (token : Token)
    (price : Price) :
    (self.setIndexPrice token price).markets = self.markets ∧
      (self.setIndexPrice token price).graph = self.graph ∧
      (self.setIndexPrice token price).config = self.config ∧
      (self.setIndexPrice token price).collateralTokens = self.collateralTokens := by
  rw [setIndexPrice]
  cases self.indexTokens.get token <;> exact ⟨rfl, rfl, rfl, rfl⟩

/-- The new price of a collateral token is kept with its node. -/
theorem setNodePrice_spec (hnodes : self.NodesOf) (token : Token) (price : Price) :
    ∃ after, self.setNodePrice token price = some after ∧
      after.markets = self.markets ∧ after.graph.edges = self.graph.edges ∧
      after.config = self.config ∧ after.indexTokens = self.indexTokens ∧
      after.collateralTokens = self.collateralTokens ∧ after.NodesOf ∧
      ∀ other, after.getPrice other =
        if other = token ∧ token ∉ self.indexTokens.keys ∧
          token ∈ self.collateralTokens.keys then some price
        else self.getPrice other := by
  rw [setNodePrice]
  cases hget : self.collateralTokens.get token with
  | none =>
      refine ⟨self, rfl, rfl, rfl, rfl, rfl, rfl, hnodes, ?_⟩
      intro other
      rw [if_neg fun hall => IndexMap.get_eq_none.mp hget hall.2.2]
  | some state =>
      obtain ⟨node, hnode, hnodeToken⟩ := hnodes hget
      have hix := (List.getElem?_eq_some_iff.mp hnode).1
      refine ⟨{ self with graph := { self.graph with
        nodes := self.graph.nodes.modify state.ix
          fun node => { node with price := some price } } }, ?_, rfl, rfl, rfl, rfl,
        rfl, ?_, ?_⟩
      · simp only [Graph.setPrice, if_pos hix, Option.map_some]
      · intro other found hfound
        obtain ⟨old, hold, htoken⟩ := hnodes hfound
        rw [List.getElem?_modify, hold]
        by_cases hsame : state.ix = found.ix
        · exact ⟨{ old with price := some price }, by simp [hsame], htoken⟩
        · exact ⟨old, by simp [hsame], htoken⟩
      · intro other
        by_cases hsame : other = token
        · subst hsame
          cases hindex : self.indexTokens.get other with
          | some found =>
              rw [if_neg fun hall => hall.2.1 (IndexMap.mem_keys_of_get hindex),
                getPrice_of_index hindex]
              exact getPrice_of_index hindex
          | none =>
              rw [if_pos ⟨rfl, IndexMap.get_eq_none.mp hindex,
                IndexMap.mem_keys_of_get hget⟩]
              have hafter : (self.graph.nodes.modify state.ix
                  fun node => { node with price := some price })[state.ix]? =
                    some { node with price := some price } := by
                rw [List.getElem?_modify, hnode]
                simp
              rw [getPrice, getTokenNode]
              simp only [hindex, hget, Option.bind_eq_bind, Option.bind_some, hafter]
        · rw [if_neg fun hall => hsame hall.1]
          refine getPrice_congr rfl fun _ => ?_
          cases hfound : self.collateralTokens.get other with
          | none => rfl
          | some found =>
              obtain ⟨old, hold, htoken⟩ := hnodes hfound
              -- the nodes of different tokens are different
              have hapart : state.ix ≠ found.ix := by
                intro hsameIx
                rw [← hsameIx, hnode] at hold
                obtain rfl := Option.some.inj hold
                exact hsame (htoken.symm.trans hnodeToken)
              simp only [Option.bind_some, List.getElem?_modify, hold, hapart,
                if_false, Option.map_eq_map, Option.map_some]

theorem setPrice_spec (hnodes : self.NodesOf) (token : Token) (price : Price) :
    ∃ after, (self.setIndexPrice token price).setNodePrice token price =
      some after ∧ Priced self after token price := by
  obtain ⟨hmarkets, hgraph, hconfig, hcollateral⟩ :=
    setIndexPrice_frame self token price
  have hmiddle : (self.setIndexPrice token price).NodesOf := by
    intro other state hget
    rw [hgraph]
    exact hnodes (hcollateral ▸ hget)
  obtain ⟨after, hafter, hafterMarkets, hafterEdges, hafterConfig, hafterIndex,
    hafterCollateral, hafterNodes, hafterPrice⟩ :=
      setNodePrice_spec hmiddle token price
  refine ⟨after, hafter, ?_, ?_, ?_, hafterNodes, ?_, ?_⟩
  · rw [hafterMarkets, hmarkets]
  · rw [hafterEdges, hgraph]
  · rw [hafterConfig, hconfig]
  · intro other key
    rw [← setIndexPrice_related self token price other key, Related, Related,
      hafterIndex, hafterCollateral]
  · intro other
    rw [hafterPrice, setIndexPrice_getPrice, hcollateral]
    by_cases hsame : other = token
    · by_cases hindex : token ∈ self.indexTokens.keys
      · simp [hsame, hindex, setIndexPrice_keys, Knows]
      · simp [hsame, hindex, setIndexPrice_keys, Knows]
    · simp [hsame]

section Updates

variable [MarketNum] {checkedLn : Decimal → Option Decimal}

/-- A new price reaches all markets of its token. -/
theorem updateTokenPrice_spec (hcons : self.Consistent)
    (hfresh : ∀ key, FreshAt checkedLn self key) (token : Token) (price : Price) :
    ∃ after, self.updateTokenPrice checkedLn token price = some after ∧
      after.Consistent ∧ (∀ key, FreshAt checkedLn after key) ∧
      ∀ other, after.getPrice other =
        if other = token ∧ self.Knows token then some price
        else self.getPrice other := by
  obtain ⟨middle, hset, hpriced⟩ := setPrice_spec hcons.nodes token price
  have hmiddle : middle.Consistent :=
    { nodes := hpriced.nodes
      edges :=
        { market_key := fun hget => hcons.edges.market_key (hpriced.markets ▸ hget)
          edge_market := fun hget => by
            rw [hpriced.edges]
            exact hcons.edges.edge_market (hpriced.markets ▸ hget)
          sides_ne := fun hget => hcons.edges.sides_ne (hpriced.markets ▸ hget)
          market_edge := fun hedge => by
            rw [hpriced.markets]
            exact hcons.edges.market_edge (hpriced.edges ▸ hedge) }
      related := fun hget other hother =>
        (hpriced.related _ _).mpr
          (hcons.related (hpriced.markets ▸ hget) other hother) }
  obtain ⟨after, hafter, hrefresh⟩ :=
    @updateEstimations_spec _ _ _ _ checkedLn (middle.relatedMarkets token) hmiddle
  refine ⟨after, ?_, hrefresh.same.consistent hmiddle, ?_, ?_⟩
  · rw [updateTokenPrice]
    exact Option.bind_eq_some_iff.mpr ⟨middle, hset, hafter⟩
  · intro key
    by_cases hrelated : key ∈ middle.relatedMarkets token
    · exact hrefresh.fresh key hrelated
    · -- the price of the token is not one of the market's prices
      apply hrefresh.keep
      intro state side edge hget hedge
      have hprices : middle.getPrices state.model.info =
          self.getPrices state.model.info := by
        apply pricesBy_congr
        intro other hother
        rw [hpriced.getPrice, if_neg]
        rintro ⟨rfl, -⟩
        exact hrelated (mem_relatedMarkets.mpr (hmiddle.related hget other hother))
      rw [hpriced.config, hprices]
      rw [hpriced.markets] at hget
      rw [hpriced.edges] at hedge
      exact hfresh key state side edge hget hedge
  · intro other
    rw [hrefresh.same.getPrice, hpriced.getPrice]

/-- New parameters keep the prices, and all estimations follow them. -/
theorem updateConfig_spec (hcons : self.Consistent) (config : MarketGraphConfig) :
    ∃ after, self.updateConfig checkedLn config true = some after ∧
      after.Consistent ∧ (∀ key, FreshAt checkedLn after key) ∧
      ∀ token, after.getPrice token = self.getPrice token := by
  have hconfig : ({ self with config } : MarketGraph Token).Consistent :=
    ⟨hcons.nodes, ⟨hcons.edges.market_key, hcons.edges.edge_market,
      hcons.edges.sides_ne, hcons.edges.market_edge⟩, hcons.related⟩
  obtain ⟨after, hafter, hrefresh⟩ :=
    @updateEstimation_all_spec _ _ _ _ checkedLn hconfig
  refine ⟨after, ?_, hrefresh.same.consistent hconfig, ?_, ?_⟩
  · rw [updateConfig, if_pos rfl]
    exact hafter
  · exact fun key => hrefresh.fresh key trivial
  · exact fun token => hrefresh.same.getPrice token

/-- The step limit is no parameter of the estimations. -/
theorem updateMaxSteps_spec (hcons : self.Consistent)
    (hfresh : ∀ key, FreshAt checkedLn self key) (maxSteps : ℕ) :
    ∃ after, self.updateMaxSteps checkedLn maxSteps = some after ∧
      after.Consistent ∧ (∀ key, FreshAt checkedLn after key) ∧
      ∀ token, after.getPrice token = self.getPrice token := by
  refine ⟨_, rfl, ?_, ?_, fun _ => rfl⟩
  · exact ⟨hcons.nodes, ⟨hcons.edges.market_key, hcons.edges.edge_market,
      hcons.edges.sides_ne, hcons.edges.market_edge⟩, hcons.related⟩
  · exact fun key state side edge hget hedge => hfresh key state side edge hget hedge

/-! ## Calls -/

inductive Call (Token : Type)
  | insertMarket (model : MarketModel Token)
  | updateTokenPrice (token : Token) (price : Price)
  | updateValue (value : ℕ)
  | updateBaseCost (baseCost : ℕ)
  | updateMaxSteps (maxSteps : ℕ)

def perform (checkedLn : Decimal → Option Decimal) (self : MarketGraph Token) :
    Call Token → Option (MarketGraph Token)
  | .insertMarket model => (self.insertMarket checkedLn model).map Prod.fst
  | .updateTokenPrice token price => self.updateTokenPrice checkedLn token price
  | .updateValue value => self.updateValue checkedLn value
  | .updateBaseCost baseCost => self.updateBaseCost checkedLn baseCost
  | .updateMaxSteps maxSteps => self.updateMaxSteps checkedLn maxSteps

/-- The latest prices after a call: a price counts when its token is known. -/
def latestAfter (self : MarketGraph Token) (latest : Token → Option Price) :
    Call Token → Token → Option Price
  | .updateTokenPrice token price =>
      if self.Knows token then Function.update latest token (some price) else latest
  | _ => latest

/-- The graph and the latest prices after all calls, unless the program stops. -/
def run (checkedLn : Decimal → Option Decimal) :
    MarketGraph Token → (Token → Option Price) → List (Call Token) →
    Option (MarketGraph Token × (Token → Option Price))
  | self, latest, [] => some (self, latest)
  | self, latest, call :: calls => do
      let after ← self.perform checkedLn call
      run checkedLn after (self.latestAfter latest call) calls

/-- A market does not bring a collateral token that has a price in the new role
of an index token. -/
def CallKeepsPrice (self : MarketGraph Token) : Call Token → Prop
  | .insertMarket model => self.KeepsPrice model.info.indexTokenMint
  | _ => True

/-- Every call of the run keeps the prices. -/
def RunKeepsPrices (checkedLn : Decimal → Option Decimal) :
    MarketGraph Token → List (Call Token) → Prop
  | _, [] => True
  | self, call :: calls => self.CallKeepsPrice call ∧
      ∀ after, self.perform checkedLn call = some after →
        RunKeepsPrices checkedLn after calls

/-- The state of a run: the prices of the graph are the latest ones, and all
estimations are those at these prices. -/
structure Current (checkedLn : Decimal → Option Decimal) (graph : MarketGraph Token)
    (latest : Token → Option Price) : Prop where
  consistent : graph.Consistent
  fresh : ∀ key, FreshAt checkedLn graph key
  getPrice : ∀ token, graph.getPrice token = latest token

theorem current_withConfig (config : MarketGraphConfig) :
    Current checkedLn (withConfig config : MarketGraph Token) fun _ => none where
  consistent := consistent_withConfig config
  fresh key state side edge hget := absurd hget (by simp [withConfig])
  getPrice _ := rfl

variable {latest : Token → Option Price}

theorem Current.perform (hcurrent : Current checkedLn self latest)
    {call : Call Token} (hkeeps : self.CallKeepsPrice call) :
    ∃ after, self.perform checkedLn call = some after ∧
      Current checkedLn after (self.latestAfter latest call) := by
  obtain ⟨hcons, hfresh, hprice⟩ := hcurrent
  cases call with
  | insertMarket model =>
      obtain ⟨after, isNew, hinsert, hafter, hafterFresh, hkept⟩ :=
        insertMarket_spec hcons hfresh hkeeps
      refine ⟨after, ?_, hafter, hafterFresh, fun token => ?_⟩
      · rw [MarketGraph.perform, hinsert]
        rfl
      · exact (hkept token).trans (hprice token)
  | updateTokenPrice token price =>
      obtain ⟨after, hupdate, hafter, hafterFresh, hnew⟩ :=
        updateTokenPrice_spec hcons hfresh token price
      refine ⟨after, hupdate, hafter, hafterFresh, fun other => ?_⟩
      rw [hnew, latestAfter]
      by_cases hknows : self.Knows token
      · by_cases hsame : other = token
        · simp [hsame, hknows]
        · simp [hsame, hknows, hprice]
      · simp [hknows, hprice]
  | updateValue value =>
      obtain ⟨after, hupdate, hafter, hafterFresh, hkept⟩ := updateConfig_spec hcons _
      exact ⟨after, hupdate, hafter, hafterFresh,
        fun token => (hkept token).trans (hprice token)⟩
  | updateBaseCost baseCost =>
      obtain ⟨after, hupdate, hafter, hafterFresh, hkept⟩ := updateConfig_spec hcons _
      exact ⟨after, hupdate, hafter, hafterFresh,
        fun token => (hkept token).trans (hprice token)⟩
  | updateMaxSteps maxSteps =>
      obtain ⟨after, hupdate, hafter, hafterFresh, hkept⟩ :=
        updateMaxSteps_spec hcons hfresh maxSteps
      exact ⟨after, hupdate, hafter, hafterFresh,
        fun token => (hkept token).trans (hprice token)⟩

theorem Current.run {calls : List (Call Token)}
    (hcurrent : Current checkedLn self latest)
    (hkeeps : RunKeepsPrices checkedLn self calls) :
    ∃ after latestAfter, run checkedLn self latest calls = some (after, latestAfter) ∧
      Current checkedLn after latestAfter := by
  induction calls generalizing self latest with
  | nil => exact ⟨self, latest, rfl, hcurrent⟩
  | cons call calls ih =>
      obtain ⟨hcall, hrest⟩ := hkeeps
      obtain ⟨middle, hmiddle, hmiddleCurrent⟩ := hcurrent.perform hcall
      obtain ⟨after, final, hrun, hafter⟩ := ih hmiddleCurrent (hrest middle hmiddle)
      refine ⟨after, final, ?_, hafter⟩
      rw [MarketGraph.run]
      exact Option.bind_eq_some_iff.mpr ⟨middle, hmiddle, hrun⟩

/-- In a run in which no market takes a priced collateral token as a new index
token, every edge carries the estimation of its market and its side at the latest
prices. -/
theorem run_estimationsFresh (checkedLn : Decimal → Option Decimal)
    (config : MarketGraphConfig) (calls : List (Call Token))
    (hkeeps : RunKeepsPrices checkedLn (withConfig config) calls) :
    ∃ self latest,
      run checkedLn (withConfig config) (fun _ => none) calls = some (self, latest) ∧
      ∀ (ix : ℕ) (edge : Edge Token), self.graph.edges[ix]? = some edge →
        ∃ state side, self.markets.get edge.marketToken = some state ∧
          state.edge side = ix ∧
          edge.estimated = self.config.estimate checkedLn state.model side
            (pricesBy latest state.model.info) := by
  obtain ⟨self, latest, hrun, hcurrent⟩ :=
    (@current_withConfig _ _ _ checkedLn config).run hkeeps
  refine ⟨self, latest, hrun, ?_⟩
  intro ix edge hedge
  obtain ⟨state, side, hget, hix⟩ := hcurrent.consistent.edges.market_edge hedge
  refine ⟨state, side, hget, hix, ?_⟩
  rw [← pricesBy_congr fun token _ => hcurrent.getPrice token]
  exact hcurrent.fresh _ state side edge hget (hix ▸ hedge)

instance (self : MarketGraph Token) (token : Token) :
    Decidable (self.KeepsPrice token) :=
  inferInstanceAs (Decidable (_ ∨ _))

instance decidableCallKeepsPrice (self : MarketGraph Token) :
    (call : Call Token) → Decidable (self.CallKeepsPrice call)
  | .insertMarket model =>
      inferInstanceAs (Decidable (self.KeepsPrice model.info.indexTokenMint))
  | .updateTokenPrice _ _ => .isTrue trivial
  | .updateValue _ => .isTrue trivial
  | .updateBaseCost _ => .isTrue trivial
  | .updateMaxSteps _ => .isTrue trivial

/-- Whether every call of a run keeps the prices. -/
def runKeepsPrices (checkedLn : Decimal → Option Decimal) :
    MarketGraph Token → List (Call Token) → Bool
  | _, [] => true
  | self, call :: calls => decide (self.CallKeepsPrice call) &&
      (self.perform checkedLn call).all fun after =>
        runKeepsPrices checkedLn after calls

theorem runKeepsPrices_iff {calls : List (Call Token)} :
    runKeepsPrices checkedLn self calls = true ↔
      RunKeepsPrices checkedLn self calls := by
  induction calls generalizing self with
  | nil => exact iff_of_true rfl trivial
  | cons call calls ih =>
      rw [runKeepsPrices, RunKeepsPrices, Bool.and_eq_true, decide_eq_true_iff,
        Option.all_eq_true]
      apply and_congr Iff.rfl
      exact forall_congr' fun after => imp_congr Iff.rfl ih

end Updates

/-! ## A price that is lost -/

/-- The logarithm of the rate of a market without fees and price impact. -/
def lnExample (rate : Decimal) : Option Decimal :=
  if rate = 1 then some 0 else none

/-- A market of the tokens 1 and 2 with an index token. -/
def marketExample (marketTokenMint indexTokenMint : ℕ) : MarketModel ℕ where
  isPure := false
  info := ⟨marketTokenMint, indexTokenMint, 1, 2⟩
  market := { Market.init false .unrestricted true ⟨0, 0⟩ with
    primary := ⟨100, 100⟩ }

def configExample : MarketGraphConfig := ⟨⟨10 ^ 21, 0⟩, 5⟩

/-- A market of the index token 3 whose prices have arrived. -/
def pricedCalls : List (Call ℕ) :=
  [.insertMarket (marketExample 10 3), .updateTokenPrice 1 ⟨10 ^ 20, 10 ^ 20⟩,
    .updateTokenPrice 2 ⟨10 ^ 20, 10 ^ 20⟩, .updateTokenPrice 3 ⟨10 ^ 20, 10 ^ 20⟩]

theorem run_estimationsFresh_priced :
    ∃ self latest,
      @run _ _ storeNumbers lnExample (withConfig configExample) (fun _ => none)
        pricedCalls = some (self, latest) ∧
      ∀ (ix : ℕ) (edge : Edge ℕ), self.graph.edges[ix]? = some edge →
        ∃ state side, self.markets.get edge.marketToken = some state ∧
          state.edge side = ix ∧
          edge.estimated = @MarketGraphConfig.estimate storeNumbers _ lnExample
            self.config state.model side (pricesBy latest state.model.info) :=
  @run_estimationsFresh _ _ storeNumbers lnExample configExample pricedCalls
    ((@runKeepsPrices_iff _ _ _ storeNumbers _ _).mp (by decide +kernel))

/-- A second market takes the token 1, which has a price as a collateral token,
as its index token: the edges of that market are without an estimation, although
all prices that it needs have arrived. -/
theorem run_estimationsStale :
    ∃ self latest edge state,
      @run _ _ storeNumbers lnExample (withConfig configExample) (fun _ => none)
        (pricedCalls ++ [.insertMarket (marketExample 11 1)]) =
          some (self, latest) ∧
      self.graph.edges[2]? = some edge ∧
      self.markets.get edge.marketToken = some state ∧ state.edge true = 2 ∧
      edge.estimated ≠ @MarketGraphConfig.estimate storeNumbers _ lnExample
        self.config state.model true (pricesBy latest state.model.info) := by
  have hany : (@run _ _ storeNumbers lnExample (withConfig configExample)
      (fun _ => none) (pricedCalls ++ [.insertMarket (marketExample 11 1)])).any
      (fun result => decide (
        result.1.graph.edges[2]?.map (fun edge => (edge.marketToken, edge.estimated)) =
          some (11, none) ∧
        (result.1.markets.get 11).map (fun state => (state.edge true,
          @MarketGraphConfig.estimate storeNumbers _ lnExample result.1.config
            state.model true (pricesBy result.2 state.model.info))) =
          some (2, some ⟨0⟩))) = true := by
    decide +kernel
  obtain ⟨⟨self, latest⟩, hrun, hedge, hstate⟩ := Fallible.exists_of_any hany
  obtain ⟨edge, hedge, hfound⟩ := Option.map_eq_some_iff.mp hedge
  obtain ⟨hkey, hnone⟩ := Prod.mk.inj hfound
  obtain ⟨state, hget, hestimate⟩ := Option.map_eq_some_iff.mp hstate
  obtain ⟨hix, hsome⟩ := Prod.mk.inj hestimate
  refine ⟨self, latest, edge, state, hrun, hedge, hkey ▸ hget, hix, ?_⟩
  rw [hnone, hsome]
  exact (Option.some_ne_none _).symm

end MarketGraph

end Gmsol.Sdk
