import Gmsol.MarketGraph.Consistency

/-!
# Freshness of the estimations

The price of a token is the latest one that arrived while the token was known,
unless a market brings a collateral token that has a price in the new role of an
index token: then the price is lost.  In every run without such a step all
estimations are those at the latest prices.
-/

namespace Gmsol.Sdk

open Gmsol.Model

variable {Token : Type} [DecidableEq Token]

namespace MarketGraph

variable {self after : MarketGraph Token} {token other key marketToken : Token}

/-! ## New tokens -/

theorem getPrice_of_index {state : IndexTokenState Token}
    (hget : self.indexTokens.get token = some state) :
    self.getPrice token = state.node.price := by
  rw [getPrice, getTokenNode, hget]
  rfl

/-- The market keeps the price of its index token: it is one already, or it has
no price to lose. -/
def KeepsPrice (self : MarketGraph Token) (indexToken : Token) : Prop :=
  indexToken ∈ self.indexTokens.keys ∨ self.getPrice indexToken = none

/-- What a new role of a token changes. -/
structure Inserted (before after : MarketGraph Token) (token marketToken : Token) :
    Prop where
  markets : after.markets = before.markets
  edges : after.graph.edges = before.graph.edges
  config : after.config = before.config
  nodes : after.NodesOf
  related : ∀ other key, before.Related other key → after.Related other key
  added : after.Related token marketToken

theorem insertIndexToken_spec (hnodes : self.NodesOf) (token marketToken : Token) :
    Inserted self (self.insertIndexToken token marketToken) token marketToken where
  markets := rfl
  edges := rfl
  config := rfl
  nodes := hnodes
  related other key hrelated := by
    rcases hrelated with ⟨state, hget, hmem⟩ | hcollateral
    · left
      rw [insertIndexToken, IndexMap.get_insert]
      by_cases hsame : other = token
      · rw [if_pos hsame]
        refine ⟨_, rfl, ?_⟩
        rw [← hsame, hget]
        exact List.mem_insert_of_mem hmem
      · rw [if_neg hsame]
        exact ⟨state, hget, hmem⟩
    · exact .inr hcollateral
  added := by
    left
    rw [insertIndexToken, IndexMap.get_insert, if_pos rfl]
    exact ⟨_, rfl, List.mem_insert_self⟩

/-- A token that becomes an index token loses its price. -/
theorem getPrice_insertIndexToken (self : MarketGraph Token)
    (token marketToken other : Token) :
    (self.insertIndexToken token marketToken).getPrice other =
      if other = token ∧ token ∉ self.indexTokens.keys then none
      else self.getPrice other := by
  by_cases hsame : other = token
  · subst hsame
    rw [getPrice_of_index (show (self.insertIndexToken other
      marketToken).indexTokens.get other = some _ by
        rw [insertIndexToken, IndexMap.get_insert, if_pos rfl])]
    cases hget : self.indexTokens.get other with
    | none =>
        rw [if_pos ⟨rfl, IndexMap.get_eq_none.mp hget⟩]
        rfl
    | some state =>
        rw [if_neg fun hboth => hboth.2 (IndexMap.mem_keys_of_get hget),
          getPrice_of_index hget]
        rfl
  · rw [if_neg fun hboth => hsame hboth.1, getPrice, getPrice, getTokenNode,
      getTokenNode, insertIndexToken, IndexMap.get_insert, if_neg hsame]

theorem getPrice_insertIndexToken_of_keeps (hkeeps : self.KeepsPrice token)
    (marketToken other : Token) :
    (self.insertIndexToken token marketToken).getPrice other =
      self.getPrice other := by
  rw [getPrice_insertIndexToken]
  split
  · rename_i hboth
    obtain ⟨rfl, hnew⟩ := hboth
    exact (hkeeps.resolve_left hnew).symm
  · rfl

/-- Graphs whose nodes and collateral tokens give every token the same price
give it the same price where the index tokens are the same. -/
theorem getPrice_congr (hindex : after.indexTokens = self.indexTokens)
    (hnode : self.indexTokens.get token = none →
      ((after.collateralTokens.get token).bind fun state =>
        after.graph.nodes[state.ix]?.bind Node.price) =
      (self.collateralTokens.get token).bind fun state =>
        self.graph.nodes[state.ix]?.bind Node.price) :
    after.getPrice token = self.getPrice token := by
  rw [getPrice, getPrice, getTokenNode, getTokenNode, hindex]
  cases hget : self.indexTokens.get token with
  | some state => rfl
  | none =>
      simp only [Option.bind_eq_bind, Option.bind_assoc]
      exact hnode hget

theorem insertCollateralToken_of_none
    (hget : self.collateralTokens.get token = none) (marketToken : Token) :
    self.insertCollateralToken token marketToken =
      ({ self with
          graph := { self.graph with nodes := self.graph.nodes ++ [.new token] }
          collateralTokens := self.collateralTokens.insert token
            ⟨self.graph.nodes.length, [marketToken]⟩ },
        self.graph.nodes.length) := by
  rw [insertCollateralToken, hget]
  rfl

theorem insertCollateralToken_of_some {state : CollateralTokenState Token}
    (hget : self.collateralTokens.get token = some state) (marketToken : Token) :
    self.insertCollateralToken token marketToken =
      ({ self with
          collateralTokens := self.collateralTokens.insert token
            ⟨state.ix, state.markets.insert marketToken⟩ }, state.ix) := by
  rw [insertCollateralToken, hget]

theorem insertCollateralToken_spec (hnodes : self.NodesOf)
    (token marketToken : Token) :
    Inserted self (self.insertCollateralToken token marketToken).1 token
        marketToken ∧
      ∀ other, (self.insertCollateralToken token marketToken).1.getPrice other =
        self.getPrice other := by
  cases hget : self.collateralTokens.get token with
  | none =>
      rw [insertCollateralToken_of_none hget]
      refine ⟨⟨rfl, rfl, rfl, ?_, ?_, ?_⟩, ?_⟩
      · intro found state hfound
        rw [IndexMap.get_insert] at hfound
        split at hfound
        · rename_i hsame
          obtain rfl := Option.some.inj hfound
          exact ⟨.new token, List.getElem?_concat_length, hsame.symm⟩
        · obtain ⟨node, hnode, htoken⟩ := hnodes hfound
          refine ⟨node, ?_, htoken⟩
          rw [← hnode]
          exact List.getElem?_append_left (List.getElem?_eq_some_iff.mp hnode).1
      · rintro found key (hindex | ⟨state, hfound, hmem⟩)
        · exact .inl hindex
        · right
          rw [IndexMap.get_insert]
          split
          · rename_i hsame
            rw [hsame, hget] at hfound
            exact absurd hfound (by simp)
          · exact ⟨state, hfound, hmem⟩
      · right
        rw [IndexMap.get_insert, if_pos rfl]
        exact ⟨_, rfl, List.mem_singleton_self _⟩
      · intro found
        refine getPrice_congr rfl fun _ => ?_
        rw [IndexMap.get_insert]
        split
        · -- a token that was unknown has no price, and its node has none either
          rename_i hsame
          rw [hsame, hget]
          simp only [Option.bind_some, Option.bind_none]
          rw [List.getElem?_concat_length]
          rfl
        · cases hfound : self.collateralTokens.get found with
          | none => rfl
          | some state =>
              obtain ⟨node, hnode, -⟩ := hnodes hfound
              simp only [Option.bind_some]
              rw [List.getElem?_append_left (List.getElem?_eq_some_iff.mp hnode).1]
  | some state =>
      rw [insertCollateralToken_of_some hget]
      have hix : ∀ found, ((self.collateralTokens.insert token
          ⟨state.ix, state.markets.insert marketToken⟩).get
            found).map CollateralTokenState.ix =
          (self.collateralTokens.get found).map CollateralTokenState.ix := by
        intro found
        rw [IndexMap.get_insert]
        split
        · rename_i hsame
          rw [hsame, hget]
          rfl
        · rfl
      refine ⟨⟨rfl, rfl, rfl, ?_, ?_, ?_⟩, ?_⟩
      · intro found written hfound
        have hmap := hix found
        rw [hfound, Option.map_some] at hmap
        obtain ⟨old, hold, hsame⟩ := Option.map_eq_some_iff.mp hmap.symm
        rw [← hsame]
        exact hnodes hold
      · rintro found key (hindex | ⟨old, hfound, hmem⟩)
        · exact .inl hindex
        · right
          rw [IndexMap.get_insert]
          split
          · rename_i hsame
            rw [hsame, hget] at hfound
            obtain rfl := Option.some.inj hfound
            exact ⟨_, rfl, List.mem_insert_of_mem hmem⟩
          · exact ⟨old, hfound, hmem⟩
      · right
        rw [IndexMap.get_insert, if_pos rfl]
        exact ⟨_, rfl, List.mem_insert_self⟩
      · intro found
        refine getPrice_congr rfl fun _ => ?_
        rw [IndexMap.get_insert]
        split
        · rename_i hsame
          rw [hsame, hget]
          rfl
        · rfl

/-- The tokens of a market get their roles without a change of prices. -/
theorem insertTokensWithMeta_spec (hnodes : self.NodesOf) {info : MarketMeta Token}
    (hkeeps : self.KeepsPrice info.indexTokenMint) :
    ∃ after longTokenIx shortTokenIx,
      self.insertTokensWithMeta info = (after, longTokenIx, shortTokenIx) ∧
      (∀ token ∈ info.tokens, Inserted self after token info.marketTokenMint) ∧
      ∀ token, after.getPrice token = self.getPrice token := by
  have hindex := insertIndexToken_spec hnodes info.indexTokenMint
    info.marketTokenMint
  obtain ⟨hlong, hlongPrice⟩ := insertCollateralToken_spec hindex.nodes
    info.longTokenMint info.marketTokenMint
  obtain ⟨hshort, hshortPrice⟩ := insertCollateralToken_spec hlong.nodes
    info.shortTokenMint info.marketTokenMint
  refine ⟨(((self.insertIndexToken info.indexTokenMint
    info.marketTokenMint).insertCollateralToken info.longTokenMint
    info.marketTokenMint).1.insertCollateralToken info.shortTokenMint
    info.marketTokenMint).1, _, _, rfl, ?_, ?_⟩
  · intro token htoken
    refine ⟨?_, ?_, ?_, hshort.nodes, ?_, ?_⟩
    · rw [hshort.markets, hlong.markets, hindex.markets]
    · rw [hshort.edges, hlong.edges, hindex.edges]
    · rw [hshort.config, hlong.config, hindex.config]
    · intro other key hrelated
      exact hshort.related _ _ (hlong.related _ _ (hindex.related _ _ hrelated))
    · simp only [MarketMeta.tokens, List.mem_cons, List.not_mem_nil, or_false]
        at htoken
      rcases htoken with rfl | rfl | rfl
      · exact hshort.related _ _ (hlong.related _ _ hindex.added)
      · exact hshort.related _ _ hlong.added
      · exact hshort.added
  · intro token
    rw [hshortPrice, hlongPrice, getPrice_insertIndexToken_of_keeps hkeeps]

/-! ## New markets -/

section Markets

variable [MarketNum] {checkedLn : Decimal → Option Decimal}
  {model : MarketModel Token} {state : MarketState Token}

omit [MarketNum] in
theorem insertEdges_get (model : MarketModel Token) (longTokenIx shortTokenIx : ℕ)
    (key : Token) :
    (self.insertEdges model longTokenIx shortTokenIx).markets.get key =
      if key = model.info.marketTokenMint then
        some ⟨model, self.graph.edges.length, self.graph.edges.length + 1⟩
      else self.markets.get key := by
  rw [insertEdges, IndexMap.get_insert]
  split
  · simp [Graph.addEdge]
  · rfl

omit [MarketNum] in
theorem insertEdges_edges (model : MarketModel Token) (longTokenIx shortTokenIx : ℕ) :
    (self.insertEdges model longTokenIx shortTokenIx).graph.edges =
      self.graph.edges ++
        [⟨longTokenIx, shortTokenIx, model.info.marketTokenMint, none⟩,
          ⟨shortTokenIx, longTokenIx, model.info.marketTokenMint, none⟩] := by
  simp [insertEdges, Graph.addEdge]

omit [MarketNum] in
theorem insertEdges_edgesOf (hedges : self.EdgesOf)
    (hnew : self.markets.get model.info.marketTokenMint = none)
    (longTokenIx shortTokenIx : ℕ) :
    (self.insertEdges model longTokenIx shortTokenIx).EdgesOf where
  market_key := by
    intro key state hget
    rw [insertEdges_get] at hget
    split at hget
    · rename_i hsame
      obtain rfl := Option.some.inj hget
      exact hsame.symm
    · exact hedges.market_key hget
  edge_market := by
    intro key state hget side
    rw [insertEdges_get] at hget
    rw [insertEdges_edges]
    split at hget
    · rename_i hsame
      obtain rfl := Option.some.inj hget
      cases side with
      | true =>
          refine ⟨⟨longTokenIx, shortTokenIx, model.info.marketTokenMint, none⟩, ?_,
            hsame.symm⟩
          rw [MarketState.edge, if_pos rfl, List.getElem?_append_right le_rfl,
            Nat.sub_self, List.getElem?_cons_zero]
      | false =>
          refine ⟨⟨shortTokenIx, longTokenIx, model.info.marketTokenMint, none⟩, ?_,
            hsame.symm⟩
          rw [MarketState.edge, if_neg Bool.false_ne_true,
            List.getElem?_append_right (Nat.le_add_right _ 1), Nat.add_sub_cancel_left,
            List.getElem?_cons_succ, List.getElem?_cons_zero]
    · obtain ⟨edge, hedge, hkey⟩ := hedges.edge_market hget side
      refine ⟨edge, ?_, hkey⟩
      rw [List.getElem?_append_left (List.getElem?_eq_some_iff.mp hedge).1, hedge]
  sides_ne := by
    intro key state hget
    rw [insertEdges_get] at hget
    split at hget
    · obtain rfl := Option.some.inj hget
      exact (Nat.succ_ne_self _).symm
    · exact hedges.sides_ne hget
  market_edge := by
    intro ix edge hedge
    rw [insertEdges_edges] at hedge
    rcases lt_or_ge ix self.graph.edges.length with hold | hge
    · rw [List.getElem?_append_left hold] at hedge
      obtain ⟨state, side, hget, hix⟩ := hedges.market_edge hedge
      refine ⟨state, side, ?_, hix⟩
      rw [insertEdges_get, if_neg]
      · exact hget
      · intro hsame
        rw [hsame, hnew] at hget
        exact absurd hget (by simp)
    · rw [List.getElem?_append_right hge] at hedge
      obtain hfirst | hsecond | hbeyond : ix - self.graph.edges.length = 0 ∨
          ix - self.graph.edges.length = 1 ∨ 2 ≤ ix - self.graph.edges.length := by
        omega
      · rw [hfirst, List.getElem?_cons_zero] at hedge
        obtain rfl := Option.some.inj hedge
        rw [insertEdges_get, if_pos rfl]
        refine ⟨_, true, rfl, ?_⟩
        show self.graph.edges.length = ix
        omega
      · rw [hsecond, List.getElem?_cons_succ, List.getElem?_cons_zero] at hedge
        obtain rfl := Option.some.inj hedge
        rw [insertEdges_get, if_pos rfl]
        refine ⟨_, false, rfl, ?_⟩
        show self.graph.edges.length + 1 = ix
        omega
      · rw [List.getElem?_eq_none (by simpa using hbeyond)] at hedge
        exact absurd hedge (by simp)

/-- The model of a market, new or replaced, is in place: its estimations are
next. -/
structure Placed (checkedLn : Decimal → Option Decimal)
    (before after : MarketGraph Token) (key : Token) : Prop where
  consistent : after.Consistent
  config : after.config = before.config
  getPrice : ∀ token, after.getPrice token = before.getPrice token
  keep : ∀ other, other ≠ key → FreshAt checkedLn before other →
    FreshAt checkedLn after other

theorem placed_insertEdges (hcons : self.Consistent)
    (hnew : self.markets.get model.info.marketTokenMint = none)
    (hrelated : ∀ token ∈ model.info.tokens,
      self.Related token model.info.marketTokenMint) (longTokenIx shortTokenIx : ℕ) :
    Placed checkedLn self (self.insertEdges model longTokenIx shortTokenIx)
      model.info.marketTokenMint where
  consistent :=
    { nodes := hcons.nodes
      edges := insertEdges_edgesOf hcons.edges hnew longTokenIx shortTokenIx
      related := by
        intro key state hget token htoken
        rw [insertEdges_get] at hget
        split at hget
        · rename_i hsame
          obtain rfl := Option.some.inj hget
          rw [hsame]
          exact hrelated token htoken
        · exact hcons.related hget token htoken }
  config := rfl
  getPrice _ := rfl
  keep := by
    intro other hother hfresh state side edge hget hedge
    rw [insertEdges_get, if_neg hother] at hget
    obtain ⟨old, hold, -⟩ := hcons.edges.edge_market hget side
    rw [insertEdges_edges, List.getElem?_append_left
      (List.getElem?_eq_some_iff.mp hold).1] at hedge
    exact hfresh state side edge hget hedge

theorem placed_replace (hcons : self.Consistent)
    (hold : self.markets.get model.info.marketTokenMint = some state)
    (hrelated : ∀ token ∈ model.info.tokens,
      self.Related token model.info.marketTokenMint) :
    Placed checkedLn self
      { self with
        markets := self.markets.insert model.info.marketTokenMint
          ⟨model, state.longEdge, state.shortEdge⟩ } model.info.marketTokenMint where
  consistent :=
    { nodes := hcons.nodes
      edges :=
        { market_key := by
            intro key found hget
            rw [IndexMap.get_insert] at hget
            split at hget
            · rename_i hsame
              obtain rfl := Option.some.inj hget
              exact hsame.symm
            · exact hcons.edges.market_key hget
          edge_market := by
            intro key found hget side
            rw [IndexMap.get_insert] at hget
            split at hget
            · rename_i hsame
              obtain rfl := Option.some.inj hget
              rw [hsame]
              exact hcons.edges.edge_market hold side
            · exact hcons.edges.edge_market hget side
          sides_ne := by
            intro key found hget
            rw [IndexMap.get_insert] at hget
            split at hget
            · obtain rfl := Option.some.inj hget
              have hne := hcons.edges.sides_ne hold
              exact hne
            · exact hcons.edges.sides_ne hget
          market_edge := by
            intro ix edge hedge
            obtain ⟨found, side, hget, hix⟩ := hcons.edges.market_edge hedge
            rw [IndexMap.get_insert]
            split
            · rename_i hsame
              rw [hsame, hold] at hget
              obtain rfl := Option.some.inj hget
              exact ⟨_, side, rfl, hix⟩
            · exact ⟨found, side, hget, hix⟩ }
      related := by
        intro key found hget token htoken
        rw [IndexMap.get_insert] at hget
        split at hget
        · rename_i hsame
          obtain rfl := Option.some.inj hget
          rw [hsame]
          exact hrelated token htoken
        · exact hcons.related hget token htoken }
  config := rfl
  getPrice _ := rfl
  keep := by
    intro other hother hfresh found side edge hget hedge
    rw [IndexMap.get_insert, if_neg hother] at hget
    exact hfresh found side edge hget hedge

/-- Inserting a market keeps all prices and makes all estimations fresh. -/
theorem insertMarket_spec (hcons : self.Consistent)
    (hfresh : ∀ key, FreshAt checkedLn self key)
    (hkeeps : self.KeepsPrice model.info.indexTokenMint) :
    ∃ after isNew, self.insertMarket checkedLn model = some (after, isNew) ∧
      after.Consistent ∧ (∀ key, FreshAt checkedLn after key) ∧
      ∀ token, after.getPrice token = self.getPrice token := by
  obtain ⟨middle, longTokenIx, shortTokenIx, hinsert, hinserted, hprice⟩ :=
    insertTokensWithMeta_spec hcons.nodes hkeeps
  have hany := hinserted model.info.indexTokenMint (by simp [MarketMeta.tokens])
  have hmiddle : middle.Consistent :=
    { nodes := hany.nodes
      edges :=
        { market_key := fun hget => hcons.edges.market_key (hany.markets ▸ hget)
          edge_market := fun hget => by
            rw [hany.edges]
            exact hcons.edges.edge_market (hany.markets ▸ hget)
          sides_ne := fun hget => hcons.edges.sides_ne (hany.markets ▸ hget)
          market_edge := fun hedge => by
            rw [hany.markets]
            exact hcons.edges.market_edge (hany.edges ▸ hedge) }
      related := fun hget token htoken =>
        hany.related _ _ (hcons.related (hany.markets ▸ hget) token htoken) }
  have hmiddleFresh : ∀ key, FreshAt checkedLn middle key := by
    intro key state side edge hget hedge
    rw [hany.markets] at hget
    rw [hany.edges] at hedge
    rw [hany.config, getPrices, pricesBy_congr fun token _ => hprice token]
    exact hfresh key state side edge hget hedge
  have hrelated := fun token htoken => (hinserted token htoken).added
  -- the last step is the same for a new and for a known market
  have hfinish : ∀ placed, Placed checkedLn middle placed
      model.info.marketTokenMint → ∃ after,
      placed.updateEstimation checkedLn (some model.info.marketTokenMint) =
        some after ∧ after.Consistent ∧ (∀ key, FreshAt checkedLn after key) ∧
      ∀ token, after.getPrice token = self.getPrice token := by
    intro placed hplaced
    obtain ⟨after, hafter, hrefresh⟩ :=
      updateEstimation_spec hplaced.consistent model.info.marketTokenMint
    refine ⟨after, hafter, hrefresh.same.consistent hplaced.consistent, ?_, ?_⟩
    · intro key
      by_cases hkey : key = model.info.marketTokenMint
      · exact hrefresh.fresh key hkey
      · exact hrefresh.keep key (hplaced.keep key hkey (hmiddleFresh key))
    · intro token
      rw [hrefresh.same.getPrice, hplaced.getPrice, hprice]
  unfold insertMarket
  simp only [hinsert]
  cases hget : middle.markets.get model.info.marketTokenMint with
  | none =>
      obtain ⟨after, hafter, hdone⟩ := hfinish _
        (placed_insertEdges hmiddle hget hrelated longTokenIx shortTokenIx)
      refine ⟨after, true, ?_, hdone⟩
      simp only [hafter, Option.map_some]
  | some state =>
      obtain ⟨after, hafter, hdone⟩ := hfinish _
        (placed_replace hmiddle hget hrelated)
      refine ⟨after, false, ?_, hdone⟩
      simp only [hafter, Option.map_some]

end Markets

end MarketGraph

end Gmsol.Sdk
