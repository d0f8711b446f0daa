import Gmsol.Store.RevertibleBuffer

/-!
# The buffer as a transaction

Abstractly an operation works on a copy of the market's contents that replaces
them when the operation is committed.  The caches show the same contents,
because the tag of a cache never exceeds the revision of the buffer: whatever
earlier operations left behind is not of the revision that has just started.
-/

namespace Gmsol.Store

/-- The values of all components, without the revision tags. -/
structure Contents where
  pools : PoolKind → Pool
  clocks : ClockTimes
  other : OtherValues

def State.contents (state : State) : Contents where
  pools kind := (state.pools kind).value
  clocks := state.clocks.value
  other := state.other.value

/-- The parts of the state that are written independently of each other. -/
inductive Component
  | pool (kind : PoolKind)
  | clocks
  | other
deriving DecidableEq, Repr

/-- Two states agree on a component, revision tag included. -/
def State.SameAt (left right : State) : Component → Prop
  | .pool kind => left.pools kind = right.pools kind
  | .clocks => left.clocks = right.clocks
  | .other => left.other = right.other

namespace Contents

/-- A step of a transaction that began with the contents `committed` and has
changed them to `view`. -/
def access (committed view : Contents) : Access → Contents × Reading
  | .pool kind => (view, .pool (view.pools kind))
  | .clocks => (view, .clocks view.clocks)
  | .other => (view, .other view.other)
  | .poolMut kind write =>
    ({ view with pools :=
        Function.update view.pools kind (write (view.pools kind)) }, .written)
  | .clocksMut write => ({ view with clocks := write view.clocks }, .written)
  | .otherMut write => ({ view with other := write view.other }, .written)
  | .nextTradeId =>
    let next := committed.other.tradeCount + 1
    if next < counterRange then
      ({ view with other := { view.other with tradeCount := next } },
        .tradeId (some next))
    else (view, .tradeId none)

def accessAll (committed view : Contents) :
    List Access → Contents × List Reading
  | [] => (view, [])
  | access :: accesses =>
    let first := committed.access view access
    let rest := accessAll committed first.1 accesses
    (rest.1, first.2 :: rest.2)

/-- The transaction of a whole operation. -/
def perform (committed : Contents) (operation : Operation) :
    Contents × List Reading :=
  let result := committed.accessAll committed operation.accesses
  (if operation.isCommitted then result.1 else committed, result.2)

def performAll (committed : Contents) :
    List Operation → Contents × List (List Reading)
  | [] => (committed, [])
  | operation :: operations =>
    let next := committed.perform operation
    let rest := performAll next.1 operations
    (rest.1, next.2 :: rest.2)

end Contents

/-- A step writes to a component. -/
def Access.Writes (committed : Contents) : Access → Component → Prop
  | .poolMut kind _, component => component = .pool kind
  | .clocksMut _, component => component = .clocks
  | .otherMut _, component => component = .other
  | .nextTradeId, component => component = .other ∧
      committed.other.tradeCount + 1 < counterRange
  | .pool _, _ | .clocks, _ | .other, _ => False

/-- Contents agree on a component. -/
def Contents.SameAt (left right : Contents) : Component → Prop
  | .pool kind => left.pools kind = right.pools kind
  | .clocks => left.clocks = right.clocks
  | .other => left.other = right.other

/-- A step that does not write to a component leaves its value alone. -/
theorem Contents.access_sameAt (committed view : Contents) (access : Access)
    (component : Component) (hwrites : ¬access.Writes committed component) :
    (committed.access view access).1.SameAt view component := by
  cases access with
  | poolMut kind write =>
      cases component with
      | pool other =>
          have hne : other ≠ kind := fun hsame =>
            hwrites (congrArg Component.pool hsame)
          exact Function.update_of_ne hne (write (view.pools kind)) view.pools
      | clocks => rfl
      | other => rfl
  | nextTradeId =>
      simp only [Contents.access]
      split_ifs with hrange
      · cases component with
        | other => exact absurd ⟨rfl, hrange⟩ hwrites
        | pool kind => rfl
        | clocks => rfl
      · cases component <;> rfl
  | clocksMut write =>
      cases component with
      | clocks => exact absurd rfl hwrites
      | pool kind => rfl
      | other => rfl
  | otherMut write =>
      cases component with
      | other => exact absurd rfl hwrites
      | pool kind => rfl
      | clocks => rfl
  | pool kind | clocks | other => cases component <;> rfl

/-- A component that no step has written still has its committed value. -/
theorem Contents.accessAll_sameAt (committed view : Contents)
    (accesses : List Access) (component : Component)
    (hwrites : ∀ access ∈ accesses, ¬access.Writes committed component) :
    (committed.accessAll view accesses).1.SameAt view component := by
  induction accesses generalizing view with
  | nil => cases component <;> rfl
  | cons access accesses ih =>
      have hfirst := committed.access_sameAt view access component
        (hwrites access List.mem_cons_self)
      have hrest := ih (committed.access view access).1 fun later hmem =>
        hwrites later (List.mem_cons_of_mem access hmem)
      cases component with
      | pool kind => exact hrest.trans hfirst
      | clocks => exact hrest.trans hfirst
      | other => exact hrest.trans hfirst

/-! ## Caches and contents -/

namespace RevertibleBuffer

/-- The contents that an operation sees. -/
def view (buffer : RevertibleBuffer) (storage : State) : Contents where
  pools kind := buffer.pool kind storage
  clocks := buffer.clocks storage
  other := buffer.other storage

/-- The cache of a component was written in the revision of the buffer. -/
def DirtyAt (buffer : RevertibleBuffer) : Component → Prop
  | .pool kind => (buffer.state.pools kind).rev = buffer.rev
  | .clocks => buffer.state.clocks.rev = buffer.rev
  | .other => buffer.state.other.rev = buffer.rev

/-- No cache is ahead of the buffer. -/
structure Tagged (buffer : RevertibleBuffer) : Prop where
  pools : ∀ kind, (buffer.state.pools kind).rev ≤ buffer.rev
  clocks : buffer.state.clocks.rev ≤ buffer.rev
  other : buffer.state.other.rev ≤ buffer.rev

theorem tagged_init : init.Tagged :=
  ⟨fun _ => Nat.zero_le 1, Nat.zero_le 1, Nat.zero_le 1⟩

variable {buffer started : RevertibleBuffer}

/-- No cache is dirty when an operation has started. -/
theorem start_clean (htagged : buffer.Tagged)
    (hstart : buffer.startRevertibleOperation = some started) :
    started.Tagged ∧ (∀ component, ¬started.DirtyAt component) ∧
      ∀ storage, started.view storage = storage.contents := by
  unfold startRevertibleOperation at hstart
  split_ifs at hstart
  obtain rfl := Option.some.inj hstart
  have hpools := fun kind => Nat.lt_succ_of_le (htagged.pools kind)
  have hclocks := Nat.lt_succ_of_le htagged.clocks
  have hother := Nat.lt_succ_of_le htagged.other
  refine ⟨⟨fun kind => (hpools kind).le, hclocks.le, hother.le⟩, ?_, ?_⟩
  · intro component
    cases component with
    | pool kind => exact (hpools kind).ne
    | clocks => exact hclocks.ne
    | other => exact hother.ne
  · intro storage
    simp only [view, pool, clocks, other, State.contents]
    congr 1
    · funext kind
      rw [Cached.cacheGetWith_of_lt (hpools kind)]
    · rw [Cached.cacheGetWith_of_lt hclocks]
    · rw [Cached.cacheGetWith_of_lt hother]

end RevertibleBuffer

/-! ## Steps of an operation -/

/-- What a step of an operation does to the market: the view is the one of the
transaction, tags stay behind the revision, and only components that the step
writes become dirty. -/
structure Follows (market after : Market) (view : Contents)
    (written : Component → Prop) : Prop where
  state : after.state = market.state
  tagged : after.buffer.Tagged
  view : after.buffer.view market.state = view
  dirty : ∀ component, after.buffer.DirtyAt component →
    market.buffer.DirtyAt component ∨ written component

namespace Market

variable {market : Market}

theorem poolMut_follows (htagged : market.buffer.Tagged) (kind : PoolKind)
    (write : Pool → Pool) :
    Follows market
      { market with buffer := market.buffer.poolMut kind market.state write }
      { market.buffer.view market.state with
        pools := Function.update (market.buffer.view market.state).pools kind
          (write (market.buffer.pool kind market.state)) }
      (· = .pool kind) where
  state := rfl
  tagged := by
    refine ⟨fun other => ?_, htagged.clocks, htagged.other⟩
    by_cases hsame : other = kind
    · subst hsame
      simp [RevertibleBuffer.poolMut, Cached.modify]
    · simpa [RevertibleBuffer.poolMut, hsame] using htagged.pools other
  view := by
    simp only [RevertibleBuffer.view]
    congr 1
    funext other
    by_cases hsame : other = kind
    · subst hsame
      simp only [RevertibleBuffer.pool, RevertibleBuffer.poolMut,
        Function.update_self, Cached.cacheGetWith_modify]
    · simp [RevertibleBuffer.pool, RevertibleBuffer.poolMut, hsame]
  dirty := by
    intro component hdirty
    cases component with
    | pool other =>
        by_cases hsame : other = kind
        · exact .inr (congrArg Component.pool hsame)
        · left
          simpa [RevertibleBuffer.DirtyAt, RevertibleBuffer.poolMut, hsame] using
            hdirty
    | clocks => exact .inl hdirty
    | other => exact .inl hdirty

theorem clocksMut_follows (htagged : market.buffer.Tagged)
    (write : ClockTimes → ClockTimes) :
    Follows market
      { market with buffer := market.buffer.clocksMut market.state write }
      { market.buffer.view market.state with
        clocks := write (market.buffer.clocks market.state) }
      (· = .clocks) where
  state := rfl
  tagged := by
    refine ⟨htagged.pools, ?_, htagged.other⟩
    simp [RevertibleBuffer.clocksMut, Cached.modify]
  view := by
    simp only [RevertibleBuffer.view]
    congr 1
    simp only [RevertibleBuffer.clocks, RevertibleBuffer.clocksMut,
      Cached.cacheGetWith_modify]
  dirty := by
    intro component hdirty
    cases component with
    | clocks => exact .inr rfl
    | pool kind => exact .inl hdirty
    | other => exact .inl hdirty

theorem otherMut_follows (htagged : market.buffer.Tagged)
    (write : OtherValues → OtherValues) :
    Follows market
      { market with buffer := market.buffer.otherMut market.state write }
      { market.buffer.view market.state with
        other := write (market.buffer.other market.state) }
      (· = .other) where
  state := rfl
  tagged := by
    refine ⟨htagged.pools, htagged.clocks, ?_⟩
    simp [RevertibleBuffer.otherMut, Cached.modify]
  view := by
    simp only [RevertibleBuffer.view]
    congr 1
    simp only [RevertibleBuffer.other, RevertibleBuffer.otherMut,
      Cached.cacheGetWith_modify]
  dirty := by
    intro component hdirty
    cases component with
    | other => exact .inr rfl
    | pool kind => exact .inl hdirty
    | clocks => exact .inl hdirty

/-- A step that writes nothing. -/
theorem unchanged_follows (htagged : market.buffer.Tagged)
    (written : Component → Prop) :
    Follows market market (market.buffer.view market.state) written :=
  ⟨rfl, htagged, rfl, fun _ hdirty => .inl hdirty⟩

theorem access_follows (htagged : market.buffer.Tagged) (access : Access) :
    let expected := market.state.contents.access
      (market.buffer.view market.state) access
    Follows market (market.access access).1 expected.1
        (access.Writes market.state.contents) ∧
      (market.access access).2 = expected.2 := by
  cases access with
  | pool kind => exact ⟨unchanged_follows htagged _, rfl⟩
  | clocks => exact ⟨unchanged_follows htagged _, rfl⟩
  | other => exact ⟨unchanged_follows htagged _, rfl⟩
  | poolMut kind write => exact ⟨poolMut_follows htagged kind write, rfl⟩
  | clocksMut write => exact ⟨clocksMut_follows htagged write, rfl⟩
  | otherMut write => exact ⟨otherMut_follows htagged write, rfl⟩
  | nextTradeId =>
      by_cases hrange : market.state.other.value.tradeCount + 1 < counterRange
      · have hfollows := otherMut_follows htagged fun other =>
          { other with tradeCount := market.state.other.value.tradeCount + 1 }
        simp only [access, nextTradeId, Contents.access, State.contents, hrange,
          ↓reduceIte]
        exact ⟨⟨hfollows.state, hfollows.tagged, hfollows.view,
          fun component hdirty =>
            (hfollows.dirty component hdirty).imp_right (⟨·, hrange⟩)⟩, trivial⟩
      · simp only [access, nextTradeId, Contents.access, State.contents, hrange,
          ↓reduceIte]
        exact ⟨unchanged_follows htagged _, trivial⟩

theorem accessAll_follows (htagged : market.buffer.Tagged)
    (accesses : List Access) :
    let expected := market.state.contents.accessAll
      (market.buffer.view market.state) accesses
    Follows market (market.accessAll accesses).1 expected.1
        (fun component => ∃ access ∈ accesses,
          access.Writes market.state.contents component) ∧
      (market.accessAll accesses).2 = expected.2 := by
  induction accesses generalizing market with
  | nil => exact ⟨unchanged_follows htagged _, rfl⟩
  | cons access accesses ih =>
      obtain ⟨hfirst, hreading⟩ := access_follows htagged access
      obtain ⟨hrest, hreadings⟩ := ih hfirst.tagged
      rw [hfirst.state, hfirst.view] at hrest hreadings
      simp only [accessAll, Contents.accessAll]
      refine ⟨⟨hrest.state.trans hfirst.state, hrest.tagged, ?_, ?_⟩, ?_⟩
      · rw [← hrest.view, hfirst.state]
      · intro component hdirty
        rcases hrest.dirty component hdirty with hbefore | ⟨later, hmem, hwrites⟩
        · exact (hfirst.dirty component hbefore).imp_right fun hwrites =>
            ⟨access, List.mem_cons_self, hwrites⟩
        · exact .inr ⟨later, List.mem_cons_of_mem access hmem, hwrites⟩
      · rw [hreading, hreadings]

/-! ## Whole operations -/

/-- A commit makes the storage equal to the view. -/
theorem commit_contents (market : Market) :
    market.commit.state.contents = market.buffer.view market.state := by
  simp only [commit, RevertibleBuffer.commitToStorage, State.contents,
    RevertibleBuffer.view, RevertibleBuffer.pool, RevertibleBuffer.clocks,
    RevertibleBuffer.other, Cached.cacheGetWith]

/-- A commit leaves a component alone whose cache is not dirty. -/
theorem commit_sameAt (market : Market) (component : Component)
    (hclean : ¬market.buffer.DirtyAt component) :
    market.commit.state.SameAt market.state component := by
  cases component with
  | pool kind =>
      apply if_neg
      simpa [Cached.isDirty, RevertibleBuffer.DirtyAt] using hclean
  | clocks =>
      apply if_neg
      simpa [Cached.isDirty, RevertibleBuffer.DirtyAt] using hclean
  | other =>
      apply if_neg
      simpa [Cached.isDirty, RevertibleBuffer.DirtyAt] using hclean

/-- An operation does to the storage what the transaction does to the
contents, and it changes no component that none of its steps writes. -/
structure Refines (market after : Market) (operation : Operation) : Prop where
  tagged : after.buffer.Tagged
  contents : after.state.contents =
    (market.state.contents.perform operation).1
  committed_sameAt : ∀ component, operation.isCommitted →
    (∀ access ∈ operation.accesses,
      ¬access.Writes market.state.contents component) →
    after.state.SameAt market.state component
  dropped_state : operation.isCommitted = false → after.state = market.state

theorem perform_refines {after : Market} {operation : Operation}
    {readings : List Reading} (htagged : market.buffer.Tagged)
    (hperform : market.perform operation = some (after, readings)) :
    Refines market after operation ∧
      readings = (market.state.contents.perform operation).2 := by
  simp only [perform, new, Option.bind_eq_bind, Option.bind_eq_some_iff,
    Option.some.injEq] at hperform
  obtain ⟨started, ⟨buffer, hstart, rfl⟩, hdone⟩ := hperform
  obtain ⟨htagged', hclean, hview⟩ :=
    RevertibleBuffer.start_clean htagged hstart
  obtain ⟨hfollows, hreadings⟩ :=
    @accessAll_follows { market with buffer } htagged' operation.accesses
  dsimp only at hfollows hreadings
  rw [hview market.state] at hfollows hreadings
  obtain ⟨rfl, rfl⟩ := Prod.mk.inj hdone
  refine ⟨?_, hreadings⟩
  cases hcommitted : operation.isCommitted with
  | false =>
      refine ⟨hfollows.tagged, ?_, ?_, fun _ => hfollows.state⟩
      · simp [Contents.perform, hcommitted, hfollows.state]
      · simp [hcommitted]
  | true =>
      refine ⟨hfollows.tagged, ?_, ?_, by simp [hcommitted]⟩
      · simp only [if_true, commit_contents, Contents.perform, hcommitted]
        rw [hfollows.state]
        exact hfollows.view
      · intro component _ hwrites
        have hsame := commit_sameAt _ component fun hdirty => by
          rcases hfollows.dirty component hdirty with hbefore |
            ⟨access, hmem, hwritten⟩
          · exact hclean component hbefore
          · exact hwrites access hmem hwritten
        rw [hfollows.state] at hsame
        exact hsame

/-- A sequence of operations is the sequence of their transactions. -/
theorem performAll_refines {last : Market} {operations : List Operation}
    {readings : List (List Reading)} (htagged : market.buffer.Tagged)
    (hperform : market.performAll operations = some (last, readings)) :
    last.buffer.Tagged ∧
      last.state.contents = (market.state.contents.performAll operations).1 ∧
      readings = (market.state.contents.performAll operations).2 := by
  induction operations generalizing market readings with
  | nil =>
      obtain ⟨rfl, rfl⟩ := Prod.mk.inj (Option.some.inj hperform)
      exact ⟨htagged, rfl, rfl⟩
  | cons operation operations ih =>
      simp only [performAll, Option.bind_eq_bind,
        Option.bind_eq_some_iff] at hperform
      obtain ⟨⟨next, first⟩, hnext, ⟨reached, rest⟩, hrest, hdone⟩ := hperform
      obtain ⟨rfl, rfl⟩ := Prod.mk.inj (Option.some.inj hdone)
      obtain ⟨hrefines, rfl⟩ := perform_refines htagged hnext
      obtain ⟨htagged', hcontents, rfl⟩ := ih hrefines.tagged hrest
      rw [hrefines.contents] at hcontents ⊢
      exact ⟨htagged', hcontents, rfl⟩

/-- Every operation, after any history of committed and dropped operations,
reads what its transaction reads.  A commit installs the final view and touches
only the components that were written; a dropped operation leaves the storage
alone and is invisible to every later operation. -/
theorem operation_refines_transaction (storage : State)
    (history : List Operation) (operation : Operation) {market after : Market}
    {past : List (List Reading)} {readings : List Reading}
    (hhistory : performAll ⟨storage, .init⟩ history = some (market, past))
    (hperform : market.perform operation = some (after, readings)) :
    let committed := market.state.contents
    let view := committed.accessAll committed operation.accesses
    let unwritten := fun component => ∀ access ∈ operation.accesses,
      ¬access.Writes committed component
    readings = view.2 ∧
      (∀ component, unwritten component → view.1.SameAt committed component) ∧
      (operation.isCommitted = true → after.state.contents = view.1 ∧
        ∀ component, unwritten component →
          after.state.SameAt market.state component) ∧
      (operation.isCommitted = false → after.state = market.state ∧
        ∀ later afterLast last afterReadings readings,
          after.performAll later = some (afterLast, afterReadings) →
          market.performAll later = some (last, readings) →
          afterReadings = readings ∧
            afterLast.state.contents = last.state.contents) := by
  intro committed view unwritten
  have htagged := (performAll_refines RevertibleBuffer.tagged_init hhistory).1
  obtain ⟨hrefines, hreadings⟩ := perform_refines htagged hperform
  refine ⟨hreadings, ?_, fun hcommitted => ⟨?_, ?_⟩, fun hdropped => ⟨?_, ?_⟩⟩
  · exact fun component hunwritten =>
      committed.accessAll_sameAt committed operation.accesses component hunwritten
  · have hcontents := hrefines.contents
    simp only [Contents.perform, hcommitted, if_true] at hcontents
    exact hcontents
  · exact fun component => hrefines.committed_sameAt component hcommitted
  · exact hrefines.dropped_state hdropped
  · intro later afterLast last afterReadings lastReadings hafter hmarket
    obtain ⟨-, hafterContents, rfl⟩ := performAll_refines hrefines.tagged hafter
    obtain ⟨-, hcontents, rfl⟩ := performAll_refines htagged hmarket
    rw [hrefines.dropped_state hdropped] at hafterContents ⊢
    exact ⟨rfl, hafterContents.trans hcontents.symm⟩

/-- A market whose first operation wrote a pool and was dropped. -/
theorem operation_after_dropped_write :
    let storage : State := ⟨fun _ => ⟨0, ⟨false, 5, 7⟩⟩, ⟨0, ⟨0, 0, 0, 0, 0⟩⟩,
      ⟨0, ⟨0, 0, 0, 0⟩⟩⟩
    let dropped : Operation :=
      ⟨[.poolMut .primary fun _ => ⟨false, 1, 1⟩], false⟩
    let operation : Operation := ⟨[.pool .primary], true⟩
    ∃ market past after readings,
      performAll ⟨storage, .init⟩ [dropped] = some (market, past) ∧
      market.perform operation = some (after, readings) ∧
      readings = [.pool ⟨false, 5, 7⟩] := by
  intro storage dropped operation
  refine ⟨_, _, _, _, rfl, rfl, ?_⟩
  exact (operation_refines_transaction storage [dropped] operation rfl rfl).1

end Market

end Gmsol.Store
