import Gmsol.Library.Layout
import Gmsol.Library.Run
import Gmsol.Oracle.PriceMap

/-!
# The token map

A header with the sorted keys of all tokens, each with the index of its
configuration, and behind it the configurations one after the other.  Tokens are
only ever appended, and the account grows before it takes a new one.
-/

namespace Gmsol.Oracle

open Gmsol.Fallible Gmsol.Container Gmsol.FixedArray Gmsol.Layout

abbrev maxTokens : ℕ := 256

/-- The token map: what its header holds, and the bytes behind the header. -/
structure TokenMap where
  store : Pubkey
  tokens : FixedMap 256 Pubkey (Fin 256)
  configs : List Byte

/-- What is done to the token map.  A closure that changes a configuration may
fail after it has changed it. -/
inductive TokenMapOperation (Config : Type)
  | grow
  | pushNew (token : Pubkey) (update : Config → Config × Except CoreError Unit)
  | pushExisting (token : Pubkey) (update : Config → Config × Except CoreError Unit)
  | getMut (token : Pubkey) (update : Config → Config × Except CoreError Unit)

/-- The token that an operation is about. -/
def TokenMapOperation.token {Config : Type} : TokenMapOperation Config → Option Pubkey
  | .grow => none
  | .pushNew token _ | .pushExisting token _ | .getMut token _ => some token

namespace TokenMap

variable {Config : Type} (pod : Pod Config)

/-- The bytes of the header: version, padding, store, tokens and reserved bytes. -/
def headerSpace : ℕ := 1 + 7 + 32 + (256 * (32 + 1) + 4) + 64

/-- The space of the whole token map, without the discriminator. -/
def space (numConfigs : ℕ) : ℕ := headerSpace + numConfigs * pod.size

def dataLen (map : TokenMap) : ℕ := 8 + headerSpace + map.configs.length

/-- A new token map has no tokens and no room for a configuration. -/
def initializeTokenMap (store : Pubkey) : TokenMap := ⟨store, FixedMap.zeroed, []⟩

/-- The number of configurations is counted in one byte. -/
def spaceAfterPush (map : TokenMap) : Except CoreError ℕ := do
  let numConfigs := map.tokens.len + 1
  ensure (numConfigs < 256) .invalidArgument
  return space pod numConfigs

def grow (map : TokenMap) : Except CoreError TokenMap := do
  let newSpace := 8 + (← map.spaceAfterPush pod)
  return { map with
    configs := map.configs ++ List.replicate (newSpace - map.dataLen) 0 }

def indexOf (map : TokenMap) (token : Pubkey) : Except Panic (Option (Fin 256)) :=
  map.tokens.get id token

def get (map : TokenMap) (token : Pubkey) : Except Panic (Option Config) := do
  match ← map.indexOf token with
  | some index => return pod.get map.configs index
  | none => return none

/-- Changes the configuration at an index in place. -/
def updateAt (map : TokenMap) (index : Fin 256)
    (update : Config → Config × Except CoreError Unit) (missing : CoreError) :
    TokenMap × Except CoreError Unit :=
  match pod.get map.configs index with
  | some config =>
    ({ map with
        configs := (pod.write map.configs index (update config).1).getD map.configs },
      (update config).2)
  | none => (map, .error missing)

def getMut (map : TokenMap) (token : Pubkey)
    (update : Config → Config × Except CoreError Unit) :
    Except Panic (TokenMap × Except CoreError Unit) := do
  match ← map.indexOf token with
  | some index => return map.updateAt pod index update .notFound
  | none => return (map, .error .notFound)

def insertError : GeneralError → CoreError
  | .alreadyExist => .alreadyExist
  | .exceedMaxLengthLimit => .exceedMaxLengthLimit

/-- The index of a new token is the number of tokens before it. -/
def pushIndex (map : TokenMap) (token : Pubkey) (new : Bool) :
    Except Panic (TokenMap × Except CoreError (Fin 256)) :=
  if new then
    if hroom : map.tokens.len < maxTokens then do
      let (tokens, outcome) ←
        map.tokens.insertWithOptions id token ⟨map.tokens.len, hroom⟩ true
      match outcome with
      | .ok _ => return ({ map with tokens }, .ok ⟨map.tokens.len, hroom⟩)
      | .error error => return ({ map with tokens }, .error (insertError error))
    else return (map, .error .exceedMaxLengthLimit)
  else do
    match ← map.indexOf token with
    | some index => return (map, .ok index)
    | none => return (map, .error .notFound)

def pushWith (map : TokenMap) (token : Pubkey)
    (update : Config → Config × Except CoreError Unit) (new : Bool) :
    Except Panic (TokenMap × Except CoreError Unit) := do
  let (map, outcome) ← map.pushIndex token new
  match outcome with
  | .ok index => return map.updateAt pod index update .notEnoughSpace
  | .error error => return (map, .error error)

/-- A new token is pushed after the account has grown. -/
def step (map : TokenMap) :
    TokenMapOperation Config → Except Panic (TokenMap × Except CoreError Unit)
  | .grow =>
    match map.grow pod with
    | .ok map => .ok (map, .ok ())
    | .error error => .ok (map, .error error)
  | .pushNew token update =>
    match map.grow pod with
    | .ok map => map.pushWith pod token update true
    | .error error => .ok (map, .error error)
  | .pushExisting token update => map.pushWith pod token update false
  | .getMut token update => map.getMut pod token update

/-! ## Indices and configurations -/

/-- The header represents a finite map of distinct indices, all below the number
of tokens, with room for all configurations. -/
structure Indexed (map : TokenMap) (model : FiniteMap Pubkey (Fin 256)) : Prop where
  represents : Represents map.tokens model
  below : ∀ token index, model.lookup token = some index →
    index.val < model.keys.card
  distinct : ∀ token other index, model.lookup token = some index →
    model.lookup other = some index → token = other
  room : model.keys.card * pod.size ≤ map.configs.length
  counted : model.keys.card < 256

/-- No index changes, and no configuration but the one of a given token. -/
structure Follows (before : TokenMap) (model : FiniteMap Pubkey (Fin 256))
    (token : Option Pubkey) (after : TokenMap)
    (following : FiniteMap Pubkey (Fin 256)) : Prop where
  index : ∀ other index, model.lookup other = some index →
    following.lookup other = some index
  config : ∀ other index, token ≠ some other → model.lookup other = some index →
    pod.get after.configs index = pod.get before.configs index

variable {pod} {map after : TokenMap} {model : FiniteMap Pubkey (Fin 256)}
  {token : Pubkey} {index : Fin 256}
  {update : Config → Config × Except CoreError Unit}

theorem indexed_initializeTokenMap (store : Pubkey) :
    Indexed pod (initializeTokenMap store) ∅ where
  represents := represents_zeroed
  below token index hlookup := by simp at hlookup
  distinct token other index hlookup := by simp at hlookup
  room := by simp
  counted := by simp

namespace Indexed

theorem len_eq (hindexed : Indexed pod map model) :
    map.tokens.len = model.keys.card :=
  hindexed.represents.card_eq.symm

theorem indexOf_eq (hindexed : Indexed pod map model) (token : Pubkey) :
    map.indexOf token = .ok (model.lookup token) :=
  hindexed.represents.get token

theorem get_eq (hindexed : Indexed pod map model) (token : Pubkey) :
    map.get pod token =
      .ok ((model.lookup token).bind fun index => pod.get map.configs index) := by
  rw [TokenMap.get, hindexed.indexOf_eq]
  cases model.lookup token <;> rfl

theorem fits (hindexed : Indexed pod map model)
    (hlookup : model.lookup token = some index) :
    index.val * pod.size + pod.size ≤ map.configs.length := by
  calc index.val * pod.size + pod.size = (index.val + 1) * pod.size :=
        (Nat.succ_mul _ _).symm
    _ ≤ model.keys.card * pod.size :=
        Nat.mul_le_mul_right _ (hindexed.below token index hlookup)
    _ ≤ map.configs.length := hindexed.room

/-- The account grows up to 255 configurations. -/
theorem grow_eq (hindexed : Indexed pod map model) :
    (map.grow pod = .error .invalidArgument ∧ 255 ≤ model.keys.card) ∨
    ∃ after, map.grow pod = .ok after ∧ model.keys.card < 255 ∧
      Indexed pod after model ∧ Follows pod map model none after model ∧
      (model.keys.card + 1) * pod.size ≤ after.configs.length := by
  by_cases hcount : model.keys.card < 255
  · right
    have hspace : map.spaceAfterPush pod = .ok (space pod (model.keys.card + 1)) := by
      rw [spaceAfterPush, hindexed.len_eq]
      simp only [ensure, if_pos (show model.keys.card + 1 < 256 by omega)]
      rfl
    let bytes := 8 + space pod (model.keys.card + 1) - map.dataLen
    refine ⟨{ map with configs := map.configs ++ List.replicate bytes 0 },
      by rw [grow, hspace]; rfl, hcount, ⟨hindexed.represents, hindexed.below,
      hindexed.distinct, ?_, hindexed.counted⟩, ⟨fun _ _ hlookup => hlookup, ?_⟩, ?_⟩
    · exact hindexed.room.trans (by rw [List.length_append]; omega)
    · intro other index _ hlookup
      exact Pod.get_append _ (hindexed.fits hlookup)
    · simp only [List.length_append, List.length_replicate, bytes, dataLen, space]
      omega
  · left
    have hspace : map.spaceAfterPush pod = .error .invalidArgument := by
      rw [spaceAfterPush, hindexed.len_eq]
      simp only [ensure, if_neg (show ¬model.keys.card + 1 < 256 by omega)]
      rfl
    exact ⟨by rw [grow, hspace]; rfl, by omega⟩

/-- The change of one configuration. -/
theorem updateAt_eq (hindexed : Indexed pod map model)
    (hlookup : model.lookup token = some index)
    (update : Config → Config × Except CoreError Unit) (missing : CoreError) :
    ∃ config after, pod.get map.configs index = some config ∧
      map.updateAt pod index update missing = (after, (update config).2) ∧
      Indexed pod after model ∧ Follows pod map model (some token) after model ∧
      pod.get after.configs index = some (update config).1 := by
  have hfits := hindexed.fits hlookup
  obtain ⟨config, hconfig⟩ := Pod.get_isSome hfits
  obtain ⟨configs, hwrite⟩ := Pod.write_eq_some hfits (update config).1
  refine ⟨config, { map with configs }, hconfig, ?_, ⟨hindexed.represents,
    hindexed.below, hindexed.distinct, ?_, hindexed.counted⟩,
    ⟨fun _ _ hother => hother, ?_⟩, Pod.get_write_same hwrite⟩
  · rw [updateAt, hconfig]
    simp only [hwrite, Option.getD_some]
  · rw [Pod.length_write hwrite]
    exact hindexed.room
  · intro other otherIndex hne hother
    apply Pod.get_write_other hwrite
    intro hsame
    obtain rfl := Fin.ext hsame
    exact hne (congrArg some (hindexed.distinct token other _ hlookup hother))

/-- A token that is present is not pushed as a new one. -/
theorem pushWith_present (hindexed : Indexed pod map model)
    (hlookup : model.lookup token = some index) :
    map.pushWith pod token update true = .ok (map, .error .alreadyExist) := by
  have hroom : map.tokens.len < maxTokens := by
    rw [hindexed.len_eq]
    exact hindexed.counted
  have hmem : token ∈ model := Finmap.mem_iff.mpr ⟨index, hlookup⟩
  obtain ⟨tokens, hinsert, _⟩ := @Represents.insertWithOptions _ _ _ _ _ _ _ _ _ id
    hindexed.represents token ⟨map.tokens.len, hroom⟩ true (.inl hmem)
  simp only [FiniteMap.insertBounded, id, hlookup, ↓reduceIte] at hinsert
  obtain rfl := insertWithOptions_failed hinsert
  rw [pushWith, pushIndex, if_pos rfl, dif_pos hroom, hinsert]
  rfl

theorem card_insert (habsent : model.lookup token = none) (next : Fin 256) :
    (model.insert token next).keys.card = model.keys.card + 1 := by
  rw [FiniteMap.keys_insert, Finset.card_insert_of_notMem]
  rw [Finmap.mem_keys]
  exact Finmap.lookup_eq_none.mp habsent

/-- A new token takes the next index. -/
theorem insert (hindexed : Indexed pod map model) (habsent : model.lookup token = none)
    (hcount : model.keys.card < 255)
    (hroom : (model.keys.card + 1) * pod.size ≤ map.configs.length) :
    ∃ (next : Fin 256) (tokens : FixedMap 256 Pubkey (Fin 256)),
      map.pushIndex token true = .ok ({ map with tokens }, .ok next) ∧
      Indexed pod { map with tokens } (model.insert token next) ∧
      Follows pod map model (some token) { map with tokens }
        (model.insert token next) := by
  have hlen : map.tokens.len < maxTokens := by
    rw [hindexed.len_eq]
    exact hindexed.counted
  obtain ⟨tokens, hinsert, hrep⟩ := @Represents.insertWithOptions _ _ _ _ _ _ _ _ _ id
    hindexed.represents token ⟨map.tokens.len, hlen⟩ true (.inr (.inr (by
      have hrange : (256 : ℕ) < countRange := by decide
      omega)))
  have hfree : ¬256 ≤ model.keys.card := by omega
  simp only [FiniteMap.insertBounded, id, habsent, hfree, ↓reduceIte] at hinsert hrep
  have hcard := card_insert habsent ⟨map.tokens.len, hlen⟩
  have hkept : ∀ other found, model.lookup other = some found →
      (model.insert token (⟨map.tokens.len, hlen⟩ : Fin 256)).lookup other =
        some found := by
    intro other found hlookup
    rw [Finmap.lookup_insert_of_ne _ ?_]
    · exact hlookup
    · rintro rfl
      rw [habsent] at hlookup
      cases hlookup
  have hcases : ∀ other found,
      (model.insert token (⟨map.tokens.len, hlen⟩ : Fin 256)).lookup other = some found →
      (other = token ∧ found.val = model.keys.card) ∨ model.lookup other = some found := by
    intro other found hlookup
    rcases (FiniteMap.lookup_insert_iff _ _ _ _ _).mp hlookup with
      ⟨hsame, rfl⟩ | ⟨_, hother⟩
    · exact .inl ⟨hsame, hindexed.len_eq⟩
    · exact .inr hother
  refine ⟨⟨map.tokens.len, hlen⟩, tokens, ?_, ⟨hrep, ?_, ?_, ?_, ?_⟩,
    ⟨hkept, fun _ _ _ _ => rfl⟩⟩
  · rw [pushIndex, if_pos rfl, dif_pos hlen, hinsert]
    rfl
  · intro other found hlookup
    rw [hcard]
    rcases hcases other found hlookup with ⟨_, hlast⟩ | hother
    · omega
    · exact (hindexed.below other found hother).trans (Nat.lt_succ_self _)
  · intro first second found hfirst hsecond
    rcases hcases first found hfirst with ⟨hfirstToken, hlast⟩ | hfirstOld <;>
      rcases hcases second found hsecond with ⟨hsecondToken, hlast'⟩ | hsecondOld
    · rw [hfirstToken, hsecondToken]
    · have hbelow := hindexed.below second found hsecondOld
      omega
    · have hbelow := hindexed.below first found hfirstOld
      omega
    · exact hindexed.distinct first second found hfirstOld hsecondOld
  · rw [hcard]
    exact hroom
  · omega

end Indexed

theorem Follows.trans {middle : TokenMap} {between following : FiniteMap Pubkey (Fin 256)}
    {first second : Option Pubkey}
    (hfirst : Follows pod map model first middle between)
    (hsecond : Follows pod middle between second after following)
    (hsame : first = none ∨ first = second) :
    Follows pod map model second after following where
  index other index hlookup := hsecond.index other index (hfirst.index other index hlookup)
  config other index hne hlookup := by
    have hneFirst : first ≠ some other := by
      rcases hsame with rfl | rfl
      · exact (Option.some_ne_none other).symm
      · exact hne
    rw [hsecond.config other index hne (hfirst.index other index hlookup),
      hfirst.config other index hneFirst hlookup]

theorem Follows.refl (map : TokenMap) (model : FiniteMap Pubkey (Fin 256))
    (token : Option Pubkey) : Follows pod map model token map model where
  index _ _ hlookup := hlookup
  config _ _ _ _ := rfl

/-- A new push of an absent token, once the account has grown. -/
theorem Indexed.pushWith_absent (hindexed : Indexed pod map model)
    (habsent : model.lookup token = none) (hcount : model.keys.card < 255)
    (hroom : (model.keys.card + 1) * pod.size ≤ map.configs.length)
    (update : Config → Config × Except CoreError Unit) :
    ∃ config after next,
      map.pushWith pod token update true = .ok (after, (update config).2) ∧
      Indexed pod after (model.insert token next) ∧
      Follows pod map model (some token) after (model.insert token next) := by
  obtain ⟨next, tokens, hpush, hinserted, hfollows⟩ :=
    hindexed.insert habsent hcount hroom
  obtain ⟨config, after, _, hupdate, hafter, hupdated, _⟩ :=
    hinserted.updateAt_eq (Finmap.lookup_insert _) update .notEnoughSpace
  refine ⟨config, after, next, ?_, hafter, hfollows.trans hupdated (.inr rfl)⟩
  rw [pushWith, hpush]
  exact congrArg Except.ok hupdate

/-! ## Steps and runs -/

/-- What a step does to a token map with distinct indices. -/
theorem Indexed.step (hindexed : Indexed pod map model)
    (operation : TokenMapOperation Config) :
    ∃ after outcome following, map.step pod operation = .ok (after, outcome) ∧
      Indexed pod after following ∧
      Follows pod map model operation.token after following := by
  cases operation with
  | grow =>
      rcases hindexed.grow_eq with ⟨hgrow, _⟩ | ⟨after, hgrow, _, hafter, hfollows, _⟩
      · exact ⟨map, _, model, by rw [TokenMap.step, hgrow], hindexed, .refl map model _⟩
      · exact ⟨after, _, model, by rw [TokenMap.step, hgrow], hafter, hfollows⟩
  | pushNew token update =>
      rcases hindexed.grow_eq with
        ⟨hgrow, _⟩ | ⟨grown, hgrow, hcount, hgrown, hfollows, hroom⟩
      · exact ⟨map, _, model, by rw [TokenMap.step, hgrow], hindexed, .refl map model _⟩
      · cases hlookup : model.lookup token with
        | some index =>
            refine ⟨grown, .error .alreadyExist, model, ?_, hgrown,
              hfollows.trans (.refl grown model _) (.inl rfl)⟩
            simp only [TokenMap.step, hgrow]
            exact hgrown.pushWith_present hlookup
        | none =>
            obtain ⟨config, after, next, hpush, hafter, hpushed⟩ :=
              hgrown.pushWith_absent hlookup hcount hroom update
            refine ⟨after, (update config).2, model.insert token next, ?_, hafter,
              hfollows.trans hpushed (.inl rfl)⟩
            simp only [TokenMap.step, hgrow]
            exact hpush
  | pushExisting token update =>
      cases hlookup : model.lookup token with
      | some index =>
          obtain ⟨config, after, _, hupdate, hafter, hfollows, _⟩ :=
            hindexed.updateAt_eq hlookup update .notEnoughSpace
          refine ⟨after, (update config).2, model, ?_, hafter, hfollows⟩
          rw [TokenMap.step, pushWith, pushIndex, if_neg Bool.false_ne_true,
            hindexed.indexOf_eq, hlookup]
          exact congrArg Except.ok hupdate
      | none =>
          refine ⟨map, .error .notFound, model, ?_, hindexed, .refl map model _⟩
          rw [TokenMap.step, pushWith, pushIndex, if_neg Bool.false_ne_true,
            hindexed.indexOf_eq, hlookup]
          rfl
  | getMut token update =>
      cases hlookup : model.lookup token with
      | some index =>
          obtain ⟨config, after, _, hupdate, hafter, hfollows, _⟩ :=
            hindexed.updateAt_eq hlookup update .notFound
          refine ⟨after, (update config).2, model, ?_, hafter, hfollows⟩
          rw [TokenMap.step, getMut, hindexed.indexOf_eq, hlookup]
          exact congrArg Except.ok hupdate
      | none =>
          refine ⟨map, .error .notFound, model, ?_, hindexed, .refl map model _⟩
          rw [TokenMap.step, getMut, hindexed.indexOf_eq, hlookup]
          rfl

variable (pod) in
/-- The token maps that operations lead to. -/
def Reached (map : TokenMap) : Prop :=
  ∃ store outputs,
    Run (TokenMap.step pod) (fun _ _ => True) (initializeTokenMap store) outputs map

theorem Reached.indexed (hreached : Reached pod map) :
    ∃ model, Indexed pod map model := by
  obtain ⟨store, outputs, hrun⟩ := hreached
  apply hrun.preserves
  · exact ⟨∅, indexed_initializeTokenMap store⟩
  · rintro before operation after outcome ⟨model, hindexed⟩ _ hstep
    obtain ⟨next, result, following, hnext, hfollowing, _⟩ := hindexed.step operation
    obtain ⟨rfl, _⟩ := Prod.mk.inj (Except.ok.inj (hstep.symm.trans hnext))
    exact ⟨following, hfollowing⟩

/-- An index stays over a whole run. -/
theorem Indexed.run {outputs : List (Except CoreError Unit)}
    (hindexed : Indexed pod map model) (hlookup : model.lookup token = some index)
    (hrun : Run (TokenMap.step pod) (fun _ _ => True) map outputs after) :
    ∃ following, Indexed pod after following ∧
      following.lookup token = some index := by
  apply hrun.preserves
  · exact ⟨model, hindexed, hlookup⟩
  · rintro before operation next outcome ⟨between, hbetween, hfound⟩ _ hstep
    obtain ⟨stepped, result, following, hstepped, hfollowing, hfollows⟩ :=
      hbetween.step operation
    obtain ⟨rfl, _⟩ := Prod.mk.inj (Except.ok.inj (hstep.symm.trans hstepped))
    exact ⟨following, hfollowing, hfollows.index token index hfound⟩

/-- A new push of a token that is present fails and changes no configuration. -/
theorem Indexed.pushNew_present (hindexed : Indexed pod map model)
    (hlookup : model.lookup token = some index)
    (update : Config → Config × Except CoreError Unit) :
    ∃ after error, map.step pod (.pushNew token update) = .ok (after, .error error) ∧
      ∀ other, after.get pod other = map.get pod other := by
  rcases hindexed.grow_eq with
    ⟨hgrow, _⟩ | ⟨grown, hgrow, _, hgrown, hfollows, _⟩
  · exact ⟨map, _, by rw [TokenMap.step, hgrow], fun _ => rfl⟩
  · refine ⟨grown, .alreadyExist, ?_, fun other => ?_⟩
    · simp only [TokenMap.step, hgrow]
      exact hgrown.pushWith_present hlookup
    · rw [hgrown.get_eq, hindexed.get_eq]
      cases hother : model.lookup other with
      | none => rfl
      | some found =>
          exact congrArg Except.ok
            (hfollows.config other found (Option.some_ne_none other).symm hother)

/-- A new push of an absent token fails for want of space exactly when there are
255 tokens. -/
theorem Indexed.pushNew_absent (hindexed : Indexed pod map model)
    (habsent : model.lookup token = none)
    (update : Config → Config × Except CoreError Unit) :
    (model.keys.card = 255 ∧
      map.step pod (.pushNew token update) = .ok (map, .error .invalidArgument)) ∨
    (model.keys.card < 255 ∧ ∃ config after next,
      map.step pod (.pushNew token update) = .ok (after, (update config).2) ∧
        Indexed pod after (model.insert token next)) := by
  have hcounted := hindexed.counted
  rcases hindexed.grow_eq with
    ⟨hgrow, hfull⟩ | ⟨grown, hgrow, hcount, hgrown, _, hroom⟩
  · exact .inl ⟨by omega, by rw [TokenMap.step, hgrow]⟩
  · obtain ⟨config, after, next, hpush, hafter, _⟩ :=
      hgrown.pushWith_absent habsent hcount hroom update
    refine .inr ⟨hcount, config, after, next, ?_, hafter⟩
    simp only [TokenMap.step, hgrow]
    exact hpush

/-- The token map is append-only in every run.  A new token can be pushed whenever
there are fewer tokens than the map can hold, except when it has one vacancy. -/
theorem appendOnly_and_hasRoom_iff (hreached : Reached pod map) :
    (∀ operation : TokenMapOperation Config, ∃ after outcome,
      map.step pod operation = .ok (after, outcome) ∧
      ∀ other index, map.indexOf other = .ok (some index) → operation.token ≠ some other →
        after.get pod other = map.get pod other) ∧
    (∀ outputs after, Run (TokenMap.step pod) (fun _ _ => True) map outputs after →
      ∀ token index, map.indexOf token = .ok (some index) →
        after.indexOf token = .ok (some index)) ∧
    (∀ token other index, map.indexOf token = .ok (some index) →
      map.indexOf other = .ok (some index) → token = other) ∧
    (∀ token index update, map.indexOf token = .ok (some index) →
      ∃ after error, map.step pod (.pushNew token update) = .ok (after, .error error) ∧
        ∀ other, after.get pod other = map.get pod other) ∧
    (∀ token,
      (map.indexOf token = .ok none → map.tokens.len < maxTokens →
        ∀ update : Config → Config × Except CoreError Unit,
          (∀ config, (update config).2 = .ok ()) →
          ∃ after, map.step pod (.pushNew token update) = .ok (after, .ok ())) ↔
      (map.indexOf token ≠ .ok none ∨ map.tokens.len ≠ 255)) := by
  obtain ⟨model, hindexed⟩ := hreached.indexed
  have hfound : ∀ token found, map.indexOf token = .ok found ↔
      model.lookup token = found := by
    intro token found
    rw [hindexed.indexOf_eq, Except.ok.injEq]
  simp only [hfound, ne_eq, hindexed.len_eq]
  refine ⟨?_, ?_, hindexed.distinct, ?_, ?_⟩
  · intro operation
    obtain ⟨after, outcome, following, hstep, hafter, hfollows⟩ := hindexed.step operation
    refine ⟨after, outcome, hstep, fun other index hlookup hne => ?_⟩
    rw [hafter.get_eq, hindexed.get_eq, hfollows.index other index hlookup, hlookup]
    exact congrArg Except.ok (hfollows.config other index hne hlookup)
  · intro outputs after hrun token index hlookup
    obtain ⟨following, hfollowing, hkept⟩ := hindexed.run hlookup hrun
    rw [hfollowing.indexOf_eq, hkept]
  · intro token index update hlookup
    exact hindexed.pushNew_present hlookup update
  · intro token
    have hcounted := hindexed.counted
    constructor
    · intro hpushes
      by_contra hfull
      push Not at hfull
      obtain ⟨habsent, hcount⟩ := hfull
      have hroom : model.keys.card < maxTokens := by omega
      obtain ⟨after, hpush⟩ := hpushes habsent hroom (fun config => (config, .ok ()))
        fun _ => rfl
      rcases hindexed.pushNew_absent habsent fun config => (config, .ok ()) with
        ⟨_, hrefused⟩ | ⟨hfewer, _⟩
      · rw [hrefused] at hpush
        cases hpush
      · omega
    · intro hroom habsent _ update hupdate
      rcases hindexed.pushNew_absent habsent update with
        ⟨hfull, _⟩ | ⟨_, config, after, _, hpush, _⟩
      · exact absurd hfull (hroom.resolve_left (not_not.mpr habsent))
      · rw [hupdate config] at hpush
        exact ⟨after, hpush⟩

/-- Pushing the first tokens, up to 255 of them. -/
theorem exists_reached {count : ℕ} (hcount : count ≤ 255) :
    ∃ map model, Reached Pod.byte map ∧ Indexed Pod.byte map model ∧
      model.keys.card = count ∧ ∀ token ∈ model, token.val < count := by
  induction count with
  | zero =>
      exact ⟨_, ∅, ⟨0, [], .refl⟩, indexed_initializeTokenMap 0, rfl,
        fun token htoken => absurd htoken (Finmap.notMem_empty)⟩
  | succ count ih =>
      obtain ⟨map, model, ⟨store, outputs, hrun⟩, hindexed, hcard, hbelow⟩ := ih (by omega)
      have hvalue : count < 256 ^ 32 := by
        have hlarge : 255 < 256 ^ 32 := by norm_num
        omega
      let token : Pubkey := ⟨count, hvalue⟩
      have habsent : model.lookup token = none := by
        rw [Finmap.lookup_eq_none]
        exact fun hmem => absurd (hbelow token hmem) (lt_irrefl count)
      rcases hindexed.pushNew_absent habsent fun config => (config, .ok ()) with
        ⟨hfull, _⟩ | ⟨_, config, after, next, hpush, hafter⟩
      · omega
      · refine ⟨after, _, ⟨store, _, .tail hrun trivial hpush⟩, hafter, ?_, ?_⟩
        · rw [Indexed.card_insert habsent, hcard]
        · intro other hother
          rcases (Finmap.mem_insert).mp hother with rfl | hold
          · exact Nat.lt_succ_self count
          · exact (hbelow other hold).trans (Nat.lt_succ_self count)

/-- The last vacancy of the token map is never filled. -/
theorem pushNew_lastVacancy :
    ∃ map : TokenMap, Reached Pod.byte map ∧ map.tokens.len = 255 ∧
      map.indexOf 255 = .ok none ∧
      map.step Pod.byte (.pushNew 255 fun config => (config, .ok ())) =
        .ok (map, .error .invalidArgument) := by
  obtain ⟨map, model, hreached, hindexed, hcard, hbelow⟩ := exists_reached le_rfl
  have habsent : model.lookup 255 = none := by
    rw [Finmap.lookup_eq_none]
    exact fun hmem => absurd (hbelow 255 hmem) (by decide)
  refine ⟨map, hreached, hindexed.len_eq.trans hcard,
    (hindexed.indexOf_eq 255).trans (congrArg Except.ok habsent), ?_⟩
  rcases hindexed.pushNew_absent habsent fun config => (config, .ok ()) with
    ⟨_, hrefused⟩ | ⟨hfewer, _⟩
  · exact hrefused
  · omega

/-- A token map that two tokens have been pushed to. -/
theorem appendOnly_and_hasRoom_iff_twoTokens :
    ∃ outputs map,
      Run (TokenMap.step Pod.byte) (fun _ _ => True) (initializeTokenMap 1) outputs map ∧
      map.tokens.len = 2 ∧
      map.indexOf 7 = .ok (some 0) ∧ map.indexOf 8 = .ok (some 1) ∧
      (∀ token, map.indexOf token = .ok (some 1) → token = 8) ∧
      (∃ after outcome, map.step Pod.byte (.getMut 7 fun _ => (5, .ok ())) =
          .ok (after, outcome) ∧
        after.get Pod.byte 7 ≠ map.get Pod.byte 7 ∧
        after.get Pod.byte 8 = map.get Pod.byte 8) ∧
      (∃ error, (map.step Pod.byte (.pushNew 7 fun config => (config, .ok ()))).map
        Prod.snd = .ok (.error error)) ∧
      ∃ after, map.step Pod.byte (.pushNew 9 fun config => (config, .ok ())) =
          .ok (after, .ok ()) ∧
        after.indexOf 7 = .ok (some 0) ∧ after.indexOf 8 = .ok (some 1) := by
  obtain ⟨⟨outputs, map⟩, hperform, hlen, hseven, height, hnine, hgetMut⟩ : ∃ done,
      perform (TokenMap.step Pod.byte) (fun _ _ => True) ([], initializeTokenMap 1)
        [.pushNew 7 fun _ => (3, .ok ()), .pushNew 8 fun _ => (4, .ok ())] = some done ∧
      done.2.tokens.len = 2 ∧
      done.2.indexOf 7 = .ok (some 0) ∧ done.2.indexOf 8 = .ok (some 1) ∧
      done.2.indexOf 9 = .ok none ∧
      (done.2.step Pod.byte (.getMut 7 fun _ => (5, .ok ()))).toOption.any (fun next =>
        decide (next.1.get Pod.byte 7 ≠ done.2.get Pod.byte 7)) = true :=
    exists_of_any (by decide +kernel)
  have hrun := Run.perform .refl hperform
  obtain ⟨hframe, hstays, hdistinct, hrefused, hroom⟩ :=
    @appendOnly_and_hasRoom_iff _ Pod.byte map ⟨1, outputs, hrun⟩
  obtain ⟨after, outcome, hstep, hkept⟩ := hframe (.getMut 7 fun _ => (5, .ok ()))
  obtain ⟨refused, error, hrepeated, -⟩ := hrefused 7 0 (fun config => (config, .ok ())) hseven
  obtain ⟨grown, hpushed⟩ := (hroom 9).mpr (.inr (by rw [hlen]; decide)) hnine
    (by rw [hlen]; decide) (fun config => (config, .ok ())) fun _ => rfl
  have hnext : Run (TokenMap.step Pod.byte) (fun _ _ => True) map [.ok ()] grown :=
    .tail .refl trivial hpushed
  refine ⟨outputs, map, hrun, hlen, hseven, height,
    fun token htoken => hdistinct token 8 1 htoken height, ⟨after, outcome, hstep, ?_, ?_⟩,
    ⟨error, by rw [hrepeated]; rfl⟩, grown, hpushed, hstays _ _ hnext 7 0 hseven,
    hstays _ _ hnext 8 1 height⟩
  · rw [hstep] at hgetMut
    exact of_decide_eq_true hgetMut
  · exact hkept 8 1 height (by decide)

end TokenMap

end Gmsol.Oracle
