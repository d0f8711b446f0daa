import Gmsol.Library.LimitedWalks

/-!
# Followed walks

A search tries walks in some order, and follows those that reach their end cheaper than
all walks that it followed before.  It compares costs alone, so a longer walk can take the
place of one that a limit allows.  A cheapest walk within the limit is read off the
predecessors exactly when no vertex on it was reached cheaper.
-/

namespace Gmsol.BellmanFord

variable {V α : Type*} [AddCommGroup α] {arcs : List (Arc V α)}

/-! ## Orders of search -/

/-- The walks of fewer than `count` arcs from a vertex, each of them before its
continuations. -/
def inDepth (leaving : V → List (Step V α)) : ℕ → V → List (List (Step V α))
  | 0, _ => []
  | count + 1, vertex =>
    [] :: (leaving vertex).flatMap fun step =>
      (inDepth leaving count step.2.target).map (step :: ·)

/-- The walks that end where the arc leaves, continued along it. -/
def continuations [DecidableEq V] (source : V) (tried : List (List (Step V α)))
    (step : Step V α) : List (List (Step V α)) :=
  (tried.filter fun path => endOf source path = step.2.source).map (· ++ [step])

/-- The walks that come about when every arc in turn continues all walks before it. -/
def inRounds [DecidableEq V] (source : V) (steps : List (Step V α)) :
    List (List (Step V α)) :=
  steps.foldl (fun tried step => tried ++ continuations source tried step) [[]]

section Search

variable [DecidableEq V] [LinearOrder α]

/-- A walk is followed if the one before its last arc was followed, and none that was
followed so far reaches its end as cheaply. -/
def follow (source : V) (kept : List (List (Step V α))) (path : List (Step V α)) :
    List (List (Step V α)) :=
  if (path = [] ∨ path.dropLast ∈ kept) ∧
      ∀ other ∈ kept, endOf source other = endOf source path → costOf path < costOf other then
    kept ++ [path]
  else kept

/-- The walks that a search follows, of those that it tries. -/
def followed (source : V) (tried : List (List (Step V α))) : List (List (Step V α)) :=
  tried.foldl (follow source) []

/-- No followed walk to its end costs less. -/
def IsLowest (source : V) (kept : List (List (Step V α))) (path : List (Step V α)) : Prop :=
  path ∈ kept ∧ ∀ other ∈ kept, endOf source other = endOf source path →
    costOf path ≤ costOf other

/-- To no vertex on the walk is a followed walk cheaper. -/
def Unbeaten (source : V) (kept : List (List (Step V α))) (path : List (Step V α)) : Prop :=
  ∀ before ∈ path.inits, IsLowest source kept before

instance (source : V) (kept : List (List (Step V α))) (path : List (Step V α)) :
    Decidable (Unbeaten source kept path) :=
  inferInstanceAs (Decidable (∀ before ∈ path.inits, before ∈ kept ∧ ∀ other ∈ kept,
    endOf source other = endOf source before → costOf before ≤ costOf other))

/-- The followed walk to a vertex that was found last. -/
def found (source : V) (kept : List (List (Step V α))) (vertex : V) :
    Option (List (Step V α)) :=
  (kept.filter fun path => endOf source path = vertex).getLast?

def labelOf (source : V) (kept : List (List (Step V α))) (vertex : V) : Option α :=
  (found source kept vertex).map costOf

/-- The vertex before the last step of the walk that was found last. -/
def previous (source : V) (kept : List (List (Step V α))) (vertex : V) : Option V :=
  (found source kept vertex).bind fun path => path.getLast?.map fun step => step.2.source

variable {source vertex : V} {kept tried : List (List (Step V α))}
  {path other : List (Step V α)} {step : Step V α}

/-- What holds of the walks that a search follows. -/
structure Follows (arcs : List (Arc V α)) (source : V) (kept : List (List (Step V α))) :
    Prop where
  paths : ∀ path ∈ kept, IsPath arcs source path
  closed : ∀ path step, path ++ [step] ∈ kept → path ∈ kept
  descending : kept.Pairwise fun first second =>
    endOf source first = endOf source second → costOf second < costOf first

omit [DecidableEq V] in
theorem follows_nil : Follows arcs source [] where
  paths _ hmem := absurd hmem List.not_mem_nil
  closed _ _ hmem := absurd hmem List.not_mem_nil
  descending := .nil

theorem follow_eq_self (hother : other ∈ kept)
    (hend : endOf source other = endOf source path) (hle : costOf other ≤ costOf path) :
    follow source kept path = kept :=
  if_neg fun hfollowed => absurd (hfollowed.2 other hother hend) (not_lt.mpr hle)

theorem subset_follow (source : V) (kept : List (List (Step V α))) (path : List (Step V α)) :
    kept ⊆ follow source kept path := by
  rw [follow]
  split_ifs
  · exact List.subset_append_left ..
  · exact List.Subset.refl _

theorem subset_foldl_follow (source : V) (kept tried : List (List (Step V α))) :
    kept ⊆ tried.foldl (follow source) kept := by
  induction tried generalizing kept with
  | nil => exact List.Subset.refl _
  | cons path rest ih => exact fun _ hmem => ih _ (subset_follow source kept path hmem)

theorem Follows.follow (hfollows : Follows arcs source kept)
    (hpath : IsPath arcs source path) :
    Follows arcs source (BellmanFord.follow source kept path) := by
  rw [BellmanFord.follow]
  split_ifs with hfollowed
  · obtain ⟨hbefore, hcheaper⟩ := hfollowed
    refine ⟨fun other hother => ?_, fun before step hmem => ?_, ?_⟩
    · rcases List.mem_append.mp hother with hkept | hlast
      · exact hfollows.paths other hkept
      · exact List.mem_singleton.mp hlast ▸ hpath
    · apply List.mem_append_left
      rcases List.mem_append.mp hmem with hkept | hlast
      · exact hfollows.closed before step hkept
      · obtain rfl := List.mem_singleton.mp hlast
        rw [List.dropLast_concat] at hbefore
        exact hbefore.resolve_left (by simp)
    · refine List.pairwise_append.mpr ⟨hfollows.descending, List.pairwise_singleton .., ?_⟩
      intro other hother last hlast
      obtain rfl := List.mem_singleton.mp hlast
      exact hcheaper other hother
  · exact hfollows

theorem Follows.foldl (hfollows : Follows arcs source kept)
    (hpaths : ∀ path ∈ tried, IsPath arcs source path) :
    Follows arcs source (tried.foldl (BellmanFord.follow source) kept) := by
  induction tried generalizing kept with
  | nil => exact hfollows
  | cons path rest ih =>
      exact ih (hfollows.follow (hpaths path List.mem_cons_self)) fun other hother =>
        hpaths other (List.mem_cons_of_mem _ hother)

/-- To the end of every walk that was tried, one as cheap is followed. -/
theorem foldl_follow_covers (hmem : path ∈ tried) (hbefore : path.dropLast ∈ kept) :
    ∃ other ∈ tried.foldl (follow source) kept,
      endOf source other = endOf source path ∧ costOf other ≤ costOf path := by
  induction tried generalizing kept with
  | nil => exact absurd hmem List.not_mem_nil
  | cons head rest ih =>
      rcases List.mem_cons.mp hmem with rfl | hrest
      · rw [List.foldl_cons]
        by_cases hcheaper : ∀ other ∈ kept, endOf source other = endOf source path →
            costOf path < costOf other
        · refine ⟨path, subset_foldl_follow _ _ _ ?_, rfl, le_rfl⟩
          rw [follow, if_pos ⟨.inr hbefore, hcheaper⟩]
          exact List.mem_append_right _ (List.mem_singleton_self _)
        · push Not at hcheaper
          obtain ⟨other, hother, hend, hle⟩ := hcheaper
          exact ⟨other, subset_foldl_follow _ _ _ (subset_follow _ _ _ hother), hend, hle⟩
      · exact ih hrest (subset_follow _ _ _ hbefore)

/-! ## The walk to a vertex -/

omit [AddCommGroup α] [LinearOrder α] in
theorem found_concat :
    found source (kept ++ [path]) vertex =
      if endOf source path = vertex then some path else found source kept vertex := by
  rw [found, List.filter_append, List.filter_singleton]
  split_ifs with hend
  · simp [hend]
  · simp [hend, found]

theorem found_eq_some_iff (hfollows : Follows arcs source kept) :
    found source kept vertex = some path ↔
      IsLowest source kept path ∧ endOf source path = vertex := by
  obtain ⟨-, -, hdescending⟩ := hfollows
  induction kept using List.reverseRecOn with
  | nil => simp [found, IsLowest]
  | append_singleton kept last ih =>
      obtain ⟨hkept, _, hlast⟩ := List.pairwise_append.mp hdescending
      have hcheaper (other : List (Step V α)) (hother : other ∈ kept) :=
        hlast other hother last (List.mem_singleton_self _)
      rw [found_concat]
      split_ifs with hend
      · rw [Option.some_inj]
        constructor
        · rintro rfl
          refine ⟨⟨List.mem_append_right _ (List.mem_singleton_self _), ?_⟩, hend⟩
          intro other hother hsame
          rcases List.mem_append.mp hother with hbefore | hequal
          · exact (hcheaper other hbefore hsame).le
          · rw [List.mem_singleton.mp hequal]
        · rintro ⟨⟨hmem, hlowest⟩, hpath⟩
          rcases List.mem_append.mp hmem with hbefore | hequal
          · have hless := hcheaper path hbefore (hpath.trans hend.symm)
            have hle := hlowest last (List.mem_append_right _ (List.mem_singleton_self _))
              (hend.trans hpath.symm)
            exact absurd hle (not_le.mpr hless)
          · exact (List.mem_singleton.mp hequal).symm
      · rw [ih hkept]
        refine and_congr_left fun hpath => ⟨fun hlowest => ?_, fun hlowest => ?_⟩
        · refine ⟨List.mem_append_left _ hlowest.1, fun other hother hsame => ?_⟩
          rcases List.mem_append.mp hother with hbefore | hequal
          · exact hlowest.2 other hbefore hsame
          · rw [List.mem_singleton.mp hequal] at hsame
            exact absurd (hsame.trans hpath) hend
        · refine ⟨?_, fun other hother => hlowest.2 other (List.mem_append_left _ hother)⟩
          rcases List.mem_append.mp hlowest.1 with hbefore | hequal
          · exact hbefore
          · rw [List.mem_singleton.mp hequal] at hpath
            exact absurd hpath hend

omit [AddCommGroup α] [LinearOrder α] in
theorem exists_found (hmem : path ∈ kept) :
    ∃ other, found source kept (endOf source path) = some other := by
  rw [← Option.isSome_iff_exists, found, List.getLast?_isSome]
  exact List.ne_nil_of_mem (List.mem_filter.mpr ⟨hmem, decide_eq_true rfl⟩)

/-- As cheap as a walk that was found is only that walk itself. -/
theorem Follows.eq_of_le (hfollows : Follows arcs source kept)
    (hfound : found source kept vertex = some path) (hmem : other ∈ kept)
    (hend : endOf source other = vertex) (hle : costOf other ≤ costOf path) :
    other = path := by
  obtain ⟨hlowest, hpath⟩ := (found_eq_some_iff hfollows).mp hfound
  have hother : found source kept vertex = some other :=
    (found_eq_some_iff hfollows).mpr ⟨⟨hmem, fun third hthird hsame =>
      hle.trans (hlowest.2 third hthird (hsame.trans (hend.trans hpath.symm)))⟩, hend⟩
  exact Option.some.inj (hother.symm.trans hfound)

theorem unbeaten_iff (hfollows : Follows arcs source kept) :
    Unbeaten source kept path ↔
      ∀ before, before <+: path → found source kept (endOf source before) = some before := by
  simp only [Unbeaten, List.mem_inits, found_eq_some_iff hfollows, and_true]

/-! ## Reading off a walk -/

omit [DecidableEq V] in
/-- From the vertex the predecessors come to an end within so many steps. -/
inductive ReadOff (before : V → Option V) : ℕ → V → Prop
  | stop {count : ℕ} {vertex : V} (hnone : before vertex = none) : ReadOff before count vertex
  | back {count : ℕ} {vertex earlier : V} (hsome : before vertex = some earlier)
      (rest : ReadOff before count earlier) : ReadOff before (count + 1) vertex

omit [AddCommGroup α] [LinearOrder α] in
theorem previous_of_found_nil (hfound : found source kept vertex = some []) :
    previous source kept vertex = none := by
  rw [previous, hfound]
  rfl

theorem previous_of_found_concat (hfollows : Follows arcs source kept)
    (hfound : found source kept vertex = some (path ++ [step])) :
    path ∈ kept ∧ step.2 ∈ arcs ∧ step.2.source = endOf source path ∧
      step.2.target = vertex ∧ previous source kept vertex = some (endOf source path) := by
  obtain ⟨⟨hmem, _⟩, hend⟩ := (found_eq_some_iff hfollows).mp hfound
  obtain ⟨_, harc, hleaves⟩ := isPath_concat.mp (hfollows.paths _ hmem)
  refine ⟨hfollows.closed path step hmem, harc, hleaves, ?_, ?_⟩
  · rw [← hend, endOf_concat]
  · rw [previous, hfound, Option.bind_some, List.getLast?_concat, Option.map_some, hleaves]

variable {count : ℕ} [IsOrderedAddMonoid α]

/-- What is read off costs no more than the walk that was found. -/
theorem ReadOff.exists_walk (hfollows : Follows arcs source kept)
    (hread : ReadOff (previous source kept) count vertex)
    (hfound : found source kept vertex = some path) :
    ∃ lower, WalkWithin arcs count source vertex lower ∧ lower ≤ costOf path := by
  induction hread generalizing path with
  | @stop count vertex hnone =>
      cases path using List.reverseRecOn with
      | nil =>
          obtain ⟨_, rfl⟩ := (found_eq_some_iff hfollows).mp hfound
          exact ⟨0, ⟨0, Nat.zero_le _, .nil source⟩, le_rfl⟩
      | append_singleton path step =>
          obtain ⟨_, _, _, _, hprevious⟩ := previous_of_found_concat hfollows hfound
          exact absurd (hnone.symm.trans hprevious) (by simp)
  | @back count vertex earlier hsome rest ih =>
      cases path using List.reverseRecOn with
      | nil =>
          exact absurd (hsome.symm.trans (previous_of_found_nil hfound)) (by simp)
      | append_singleton path step =>
          obtain ⟨hmem, harc, hleaves, rfl, hprevious⟩ :=
            previous_of_found_concat hfollows hfound
          obtain rfl := Option.some.inj (hsome.symm.trans hprevious)
          obtain ⟨other, hother⟩ := exists_found hmem
          obtain ⟨lower, hlower, hle⟩ := ih hother
          obtain ⟨hlowest, hend⟩ := (found_eq_some_iff hfollows).mp hother
          have hother : costOf other ≤ costOf path := hlowest.2 path hmem hend.symm
          rw [← hleaves] at hlower
          refine ⟨lower + step.2.weight, hlower.snoc harc, ?_⟩
          rw [costOf_concat]
          exact add_le_add_left (hle.trans hother) _

/-- Where the walk that was found is a cheapest one within the limit, it is read off
within the limit exactly when no vertex on it is reached cheaper. -/
theorem readOff_iff (hfollows : Follows arcs source kept)
    (hfound : found source kept vertex = some path)
    (hbest : ∀ cost, WalkWithin arcs count source vertex cost → costOf path ≤ cost) :
    ReadOff (previous source kept) count vertex ↔
      Unbeaten source kept path ∧ path.length ≤ count := by
  induction path using List.reverseRecOn generalizing count vertex with
  | nil =>
      refine iff_of_true (.stop (previous_of_found_nil hfound)) ⟨?_, Nat.zero_le _⟩
      intro before hbefore
      obtain rfl := List.mem_singleton.mp hbefore
      exact ((found_eq_some_iff hfollows).mp hfound).1
  | append_singleton path step ih =>
      obtain ⟨hmem, harc, hleaves, rfl, hprevious⟩ := previous_of_found_concat hfollows hfound
      have hshorter {count : ℕ}
          (hall : ∀ cost, WalkWithin arcs (count + 1) source step.2.target cost →
            costOf (path ++ [step]) ≤ cost) (cost : α)
          (hwalk : WalkWithin arcs count source (endOf source path) cost) :
          costOf path ≤ cost := by
        rw [← hleaves] at hwalk
        have hle := hall _ (hwalk.snoc harc)
        rw [costOf_concat] at hle
        exact le_of_add_le_add_right hle
      constructor
      · intro hread
        cases hread with
        | stop hnone => exact absurd (hnone.symm.trans hprevious) (by simp)
        | @back count _ earlier hsome rest =>
            obtain rfl := Option.some.inj (hsome.symm.trans hprevious)
            obtain ⟨other, hother⟩ := exists_found hmem
            obtain ⟨lower, hlower, hle⟩ := rest.exists_walk hfollows hother
            have hcost : costOf path ≤ costOf other :=
              (hshorter hbest lower hlower).trans hle
            obtain rfl := hfollows.eq_of_le hother hmem rfl hcost
            obtain ⟨hunbeaten, hlength⟩ := (ih hother (hshorter hbest)).mp rest
            refine ⟨?_, by simpa using hlength⟩
            rw [unbeaten_iff hfollows] at hunbeaten ⊢
            intro before hprefix
            rcases List.prefix_concat_iff.mp hprefix with rfl | hbefore
            · rw [endOf_concat]
              exact hfound
            · exact hunbeaten before hbefore
      · rintro ⟨hunbeaten, hlength⟩
        rw [List.length_append, List.length_singleton] at hlength
        obtain ⟨count, rfl⟩ := Nat.exists_eq_add_of_le' (Nat.le_of_add_left_le hlength)
        rw [unbeaten_iff hfollows] at hunbeaten
        have hearlier := hunbeaten path (List.prefix_append ..)
        refine .back hprevious ((ih hearlier (hshorter hbest)).mpr ⟨?_, by omega⟩)
        rw [unbeaten_iff hfollows]
        exact fun before hbefore => hunbeaten before (hbefore.trans (List.prefix_append ..))

/-! ## In rounds -/

omit [IsOrderedAddMonoid α] in
theorem foldl_follow_eq_self (hall : ∀ path ∈ tried, follow source kept path = kept) :
    tried.foldl (follow source) kept = kept := by
  induction tried with
  | nil => rfl
  | cons path rest ih =>
      rw [List.foldl_cons, hall path List.mem_cons_self]
      exact ih fun other hother => hall other (List.mem_cons_of_mem _ hother)

omit [IsOrderedAddMonoid α] in
theorem mem_foldl_follow (hmem : path ∈ tried.foldl (follow source) kept) :
    path ∈ kept ∨ path ∈ tried := by
  induction tried generalizing kept with
  | nil => exact .inl hmem
  | cons head rest ih =>
      rcases ih hmem with hfollow | hrest
      · rw [follow] at hfollow
        split_ifs at hfollow
        · rcases List.mem_append.mp hfollow with hkept | hlast
          · exact .inl hkept
          · exact .inr (List.mem_singleton.mp hlast ▸ List.mem_cons_self)
        · exact .inl hfollow
      · exact .inr (List.mem_cons_of_mem _ hrest)

omit [AddCommGroup α] [LinearOrder α] [IsOrderedAddMonoid α] in
theorem mem_continuations :
    path ∈ continuations source tried step ↔
      ∃ before ∈ tried, endOf source before = step.2.source ∧ path = before ++ [step] := by
  simp only [continuations, List.mem_map, List.mem_filter, decide_eq_true_eq, and_assoc]
  simp only [@eq_comm _ path]

/-- An arc that offers no lower cost is not followed. -/
theorem foldl_continuations_of_not (hfollows : Follows arcs source kept)
    (hnot : ∀ path, found source kept step.2.source = some path →
      ∃ other, found source kept step.2.target = some other ∧
        costOf other ≤ costOf path + step.2.weight) :
    (continuations source tried step).foldl (follow source) kept = kept := by
  apply foldl_follow_eq_self
  intro path hpath
  obtain ⟨before, _, hleaves, rfl⟩ := mem_continuations.mp hpath
  by_cases hbefore : before ∈ kept
  · obtain ⟨lowest, hlowest⟩ := exists_found hbefore
    rw [hleaves] at hlowest
    obtain ⟨other, hother, hle⟩ := hnot lowest hlowest
    obtain ⟨hleast, hend⟩ := (found_eq_some_iff hfollows).mp hlowest
    obtain ⟨⟨hmem, _⟩, htarget⟩ := (found_eq_some_iff hfollows).mp hother
    have hcost : costOf lowest ≤ costOf before :=
      hleast.2 before hbefore (hleaves.trans hend.symm)
    apply follow_eq_self hmem
    · rw [htarget, endOf_concat]
    · rw [costOf_concat]
      exact hle.trans (add_le_add_left hcost _)
  · apply if_neg
    rintro ⟨hfirst, _⟩
    rw [List.dropLast_concat] at hfirst
    exact hbefore (hfirst.resolve_left (by simp))

omit [IsOrderedAddMonoid α] in
/-- Only walks that were followed before are continued along an arc to another vertex. -/
theorem mem_foldl_continuations (hother : step.2.source ≠ step.2.target)
    (hmem : path ∈ (continuations source tried step).foldl (follow source) kept) :
    path ∈ kept ∨
      ∃ before ∈ kept, endOf source before = step.2.source ∧ path = before ++ [step] := by
  have hall : ∀ path ∈ continuations source tried step, ∃ before,
      endOf source before = step.2.source ∧ path = before ++ [step] := by
    intro path hpath
    obtain ⟨before, _, hbefore⟩ := mem_continuations.mp hpath
    exact ⟨before, hbefore⟩
  generalize continuations source tried step = trials at hall hmem
  -- The walks that were added so far end at the target of the arc, where it does not leave.
  suffices ∀ current : List (List (Step V α)),
      (∀ path ∈ current, path ∈ kept ∨
        ∃ before ∈ kept, endOf source before = step.2.source ∧ path = before ++ [step]) →
      ∀ path ∈ trials.foldl (follow source) current, path ∈ kept ∨
        ∃ before ∈ kept, endOf source before = step.2.source ∧ path = before ++ [step] from
    this kept (fun _ hkept => .inl hkept) path hmem
  clear hmem
  induction trials with
  | nil => exact fun current hcurrent => hcurrent
  | cons trial rest ih =>
      intro current hcurrent
      apply ih fun other hrest => hall other (List.mem_cons_of_mem _ hrest)
      intro path hpath
      rw [follow] at hpath
      split_ifs at hpath with hfollowed
      · rcases List.mem_append.mp hpath with hbefore | hlast
        · exact hcurrent path hbefore
        · obtain rfl := List.mem_singleton.mp hlast
          obtain ⟨before, hend, rfl⟩ := hall path List.mem_cons_self
          rw [List.dropLast_concat] at hfollowed
          rcases hcurrent before (hfollowed.1.resolve_left (by simp)) with hkept | hnew
          · exact .inr ⟨before, hkept, hend, rfl⟩
          · obtain ⟨_, _, _, rfl⟩ := hnew
            rw [endOf_concat] at hend
            exact absurd hend.symm hother
      · exact hcurrent path hpath

/-- Along an arc that offers a lower cost, the walk that was found is continued. -/
theorem found_continuations (hfollows : Follows arcs source kept) (hsubset : kept ⊆ tried)
    (htried : ∀ path ∈ tried, IsPath arcs source path)
    (hmem : step.2 ∈ arcs) (hother : step.2.source ≠ step.2.target)
    (hfound : found source kept step.2.source = some path)
    (hlower : ∀ other, found source kept step.2.target = some other →
      costOf path + step.2.weight < costOf other) :
    found source ((continuations source tried step).foldl (follow source) kept) vertex =
      if step.2.target = vertex then some (path ++ [step]) else found source kept vertex := by
  have hpaths : ∀ path ∈ continuations source tried step, IsPath arcs source path := by
    intro path hpath
    obtain ⟨before, hbefore, hend, rfl⟩ := mem_continuations.mp hpath
    exact isPath_concat.mpr ⟨htried before hbefore, hmem, hend.symm⟩
  have hafter := hfollows.foldl hpaths
  obtain ⟨⟨hkept, hlowest⟩, hend⟩ := (found_eq_some_iff hfollows).mp hfound
  have hexpensive (other : List (Step V α)) (hold : other ∈ kept)
      (htarget : endOf source other = step.2.target) :
      costOf path + step.2.weight < costOf other := by
    obtain ⟨lowest, hleast⟩ := exists_found hold
    rw [htarget] at hleast
    obtain ⟨⟨_, hle⟩, hlast⟩ := (found_eq_some_iff hfollows).mp hleast
    exact (hlower lowest hleast).trans_le (hle other hold (htarget.trans hlast.symm))
  have hcontinued : path ++ [step] ∈
      (continuations source tried step).foldl (follow source) kept := by
    obtain ⟨other, hfollowed, htarget, hle⟩ := @foldl_follow_covers _ _ _ _ _ source kept
      (continuations source tried step) (path ++ [step])
      (mem_continuations.mpr ⟨path, hsubset hkept, hend, rfl⟩)
      (by rwa [List.dropLast_concat])
    rw [endOf_concat] at htarget
    rw [costOf_concat] at hle
    rcases mem_foldl_continuations hother hfollowed with hold | hnew
    · exact absurd hle (not_le.mpr (hexpensive other hold htarget))
    · obtain ⟨before, hbefore, hsame, rfl⟩ := hnew
      rw [costOf_concat] at hle
      rwa [hfollows.eq_of_le hfound hbefore hsame (le_of_add_le_add_right hle)] at hfollowed
  split_ifs with htarget
  · rw [found_eq_some_iff hafter, endOf_concat]
    refine ⟨⟨hcontinued, fun other hfollowed hsame => ?_⟩, htarget⟩
    rw [endOf_concat] at hsame
    rw [costOf_concat]
    rcases mem_foldl_continuations hother hfollowed with hold | hnew
    · exact (hexpensive other hold hsame).le
    · obtain ⟨before, hbefore, hstart, rfl⟩ := hnew
      rw [costOf_concat]
      exact add_le_add_left (hlowest before hbefore (hstart.trans hend.symm)) _
  · have hiff (other : List (Step V α)) (hvertex : endOf source other = vertex) :
        other ∈ (continuations source tried step).foldl (follow source) kept ↔
          other ∈ kept := by
      refine ⟨fun hfollowed => ?_, fun hold => subset_foldl_follow _ _ _ hold⟩
      rcases mem_foldl_continuations hother hfollowed with hold | hnew
      · exact hold
      · obtain ⟨_, _, _, rfl⟩ := hnew
        rw [endOf_concat] at hvertex
        exact absurd hvertex htarget
    ext other
    rw [found_eq_some_iff hafter, found_eq_some_iff hfollows]
    refine and_congr_left fun hvertex => ?_
    rw [IsLowest, IsLowest, hiff other hvertex]
    refine and_congr_right fun _ => forall_congr' fun third => ?_
    exact ⟨fun hall hthird hsame => hall ((hiff third (hsame.trans hvertex)).mpr hthird) hsame,
      fun hall hthird hsame => hall ((hiff third (hsame.trans hvertex)).mp hthird) hsame⟩

omit [AddCommGroup α] [LinearOrder α] [IsOrderedAddMonoid α] in
/-- The walks of the rounds continue along the given steps. -/
theorem isPath_of_mem_inRounds {steps : List (Step V α)} (hsteps : ∀ step ∈ steps, step.2 ∈ arcs)
    (hmem : path ∈ inRounds source steps) : IsPath arcs source path := by
  induction steps using List.reverseRecOn generalizing path with
  | nil =>
      rw [List.mem_singleton.mp hmem]
      exact isPath_nil
  | append_singleton steps step ih =>
      have hbefore := fun path => @ih path fun other hother =>
        hsteps other (List.mem_append_left _ hother)
      rw [inRounds, List.foldl_append, List.foldl_cons, List.foldl_nil] at hmem
      rcases List.mem_append.mp hmem with hold | hnew
      · exact hbefore path hold
      · obtain ⟨before, hfirst, hend, rfl⟩ := mem_continuations.mp hnew
        have hstep := hsteps step (List.mem_append_right _ (List.mem_singleton_self _))
        exact isPath_concat.mpr ⟨hbefore before hfirst, hstep, hend.symm⟩

/-! ## In depth -/

omit [AddCommGroup α] [DecidableEq V] [LinearOrder α] [IsOrderedAddMonoid α] in
/-- The walks in depth leave from where the walk before them leads. -/
theorem isPath_of_mem_inDepth {leaving : V → List (Step V α)}
    (hleaving : ∀ vertex, ∀ step ∈ leaving vertex, step.2 ∈ arcs ∧ step.2.source = vertex)
    (hpath : IsPath arcs source path)
    (hmem : other ∈ inDepth leaving count (endOf source path)) :
    IsPath arcs source (path ++ other) := by
  induction count generalizing path other with
  | zero => exact absurd hmem List.not_mem_nil
  | succ count ih =>
      rcases List.mem_cons.mp hmem with rfl | hlonger
      · rwa [List.append_nil]
      · obtain ⟨step, hstep, hrest⟩ := List.mem_flatMap.mp hlonger
        obtain ⟨rest, hrest, rfl⟩ := List.mem_map.mp hrest
        have hnext : IsPath arcs source (path ++ [step]) :=
          isPath_concat.mpr ⟨hpath, hleaving _ step hstep⟩
        rw [List.append_cons]
        apply ih hnext
        rwa [endOf_concat]

omit [IsOrderedAddMonoid α] in
/-- Past a walk that is not followed nothing is followed. -/
theorem foldl_inDepth_of_not {leaving : V → List (Step V α)}
    (hnew : ∀ other ∈ kept, ¬path <+: other)
    (hcheap : ∃ other ∈ kept, endOf source other = endOf source path ∧
      costOf other ≤ costOf path) :
    ((inDepth leaving count vertex).map (path ++ ·)).foldl (follow source) kept = kept := by
  apply foldl_follow_eq_self
  intro trial htrial
  obtain ⟨rest, _, rfl⟩ := List.mem_map.mp htrial
  cases rest using List.reverseRecOn with
  | nil =>
      obtain ⟨other, hother, hend, hle⟩ := hcheap
      rw [List.append_nil]
      exact follow_eq_self hother hend hle
  | append_singleton rest step =>
      apply if_neg
      rintro ⟨hbefore, _⟩
      rw [← List.append_assoc, List.dropLast_concat] at hbefore
      exact hnew _ (hbefore.resolve_left (by simp)) (List.prefix_append ..)

omit [IsOrderedAddMonoid α] in
/-- What is followed past a walk begins with it. -/
theorem prefix_of_mem_foldl (tried : List (List (Step V α)))
    (hmem : other ∈ (tried.map (path ++ ·)).foldl (follow source) kept) :
    other ∈ kept ∨ path <+: other := by
  rcases mem_foldl_follow hmem with hold | hnew
  · exact .inl hold
  · obtain ⟨rest, _, rfl⟩ := List.mem_map.mp hnew
    exact .inr (List.prefix_append ..)

end Search

end Gmsol.BellmanFord
