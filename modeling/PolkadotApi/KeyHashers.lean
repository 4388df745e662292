import PolkadotApi.MappedKeys

set_option autoImplicit false

namespace PolkadotApi.KeyHashers
open StatefulActions StreamReader MachineModel JsonValues MetadataFormats MetadataFactory
open MetadataLookup ExtrinsicSubmission StorageKeys StorageEntries Subscriptions
open SubscriptionFrames CallSpecifications Connection StepRuns ObjectRuns MappedKeys

section Stored

variable {lib : Libraries} {w w' : World} {e : Event} {F : Metadata → Hasher → Prop}

def ParametersFrom (F : Metadata → Hasher → Prop) (api : Api) : Prop :=
  ∀ prm, api.protocolPrm = some prm → ∃ hasher, api.freeBalanceHasher = some hasher ∧
    F prm.metadata hasher

/-- The stored hasher is the one that the stored metadata gives for Balances FreeBalance. -/
def HasherStored (api : Api) : Prop :=
  ∀ prm, api.protocolPrm = some prm → ∃ hasher, api.freeBalanceHasher = some hasher ∧
    getFuncHasher prm.metadata (lit "Balances") (lit "FreeBalance") = .ok hasher

theorem parametersFrom_quiet : Quiet fun w => ParametersFrom F w.api := by
  refine ⟨fun _ h => h, ?_⟩
  intro w w' id message h hhandle
  rw [(handleWsMessage_handled hhandle).api]
  exact h

theorem parametersFrom_ignores (topic : Topic) :
    Ignores (fun w => ParametersFrom F w.api) topic := by
  cases topic <;>
    exact ⟨⟨fun _ h _ => h, fun _ _ _ h => h, fun _ _ _ h _ _ => h, fun _ h _ => h⟩, fun _ _ h => h⟩

theorem parametersFrom_ignoresBabe : IgnoresBabe fun w => ParametersFrom F w.api := by
  intro w api _ _ _ hprm hhasher h prm hsome
  change api.protocolPrm = some prm at hsome
  obtain ⟨hasher, hstored, hgiven⟩ := h prm (hprm.symm.trans hsome)
  exact ⟨hasher, hhasher.trans hstored, hgiven⟩

theorem connectParameters_metadata {md : Metadata} {genesis : FixedBytes 32}
    {prm : ProtocolParameters} (h : connectParameters md genesis = .ok prm) : prm.metadata = md := by
  obtain ⟨_, -, h⟩ := except_bind_eq_ok h
  obtain ⟨_, -, h⟩ := except_bind_eq_ok h
  obtain ⟨_, -, h⟩ := except_bind_eq_ok h
  cases h
  rfl

theorem deserialize_eq_ok {α : Type} {r : Result α} {a : α} (h : deserialize lib r = .ok a) :
    r = .ok a := by
  cases r with
  | ok a' => exact h
  | error fault => cases fault <;> cases h

theorem getMetadata_triple : Triple (fun w => ParametersFrom F w.api) (getMetadata lib)
    (fun md w => (∃ text, createMetadata text = .ok md) ∧ ParametersFrom F w.api)
    fun _ w => ParametersFrom F w.api := by
  apply (preserves_requested parametersFrom_quiet fun _ _ h => h).bind
  intro response
  exact triple_liftResult (fun _ _ hmd h => ⟨⟨_, deserialize_eq_ok hmd⟩, h⟩) fun _ _ _ h => h

variable (hF : ∀ text md hasher, createMetadata text = .ok md →
  getFuncHasher md (lit "Balances") (lit "FreeBalance") = .ok hasher → F md hasher)

include hF

/-- The parameters are replaced together, and only when all lookups have come back. -/
theorem readParameters_parametersFrom :
    Preserves (fun w => ParametersFrom F w.api) (readParameters lib) := by
  apply Triple.bind (Q := fun _ w => ParametersFrom F w.api)
  · apply (preserves_requested parametersFrom_quiet fun _ _ h => h).bind
    intro response
    exact preserves_liftResult _
  intro hash
  apply Triple.bind (Q := fun _ w => ParametersFrom F w.api)
  · apply triple_modify
    intro w h prm hprm
    obtain ⟨old, hold, rfl⟩ := Option.map_eq_some_iff.1 hprm
    exact h old hold
  intro _
  apply getMetadata_triple.bind
  intro md
  apply triple_assume
  rintro ⟨text, hmd⟩
  apply Triple.bind (Q := fun hasher w =>
    getFuncHasher md (lit "Balances") (lit "FreeBalance") = .ok hasher ∧ ParametersFrom F w.api)
  · exact triple_liftResult (fun _ _ hgiven h => ⟨hgiven, h⟩) fun _ _ _ h => h
  intro hasher
  apply triple_assume
  intro hgiven
  apply Triple.bind (Q := fun prm w =>
    connectParameters md (genesisBlockHash hash) = .ok prm ∧ ParametersFrom F w.api)
  · exact triple_liftResult (fun _ _ hprm h => ⟨hprm, h⟩) fun _ _ _ h => h
  intro prm
  apply triple_assume
  intro hprm
  apply Triple.bind (Q := fun _ w => ParametersFrom F w.api)
  · apply triple_modify
    intro w _ new hnew
    obtain rfl : prm = new := Option.some.inj hnew
    refine ⟨hasher, rfl, ?_⟩
    rw [connectParameters_metadata hprm]
    exact hF text md hasher hmd hgiven
  · intro _
    exact triple_pure fun _ h => h

theorem connect_parametersFrom (code : ℤ) :
    Preserves (fun w => ParametersFrom F w.api) (connect lib code) := by
  apply (readParameters_parametersFrom hF).bind
  intro p
  apply Triple.bind (Q := fun _ w => ParametersFrom F w.api)
  · exact triple_tryCatch (preserves_readBabe parametersFrom_ignoresBabe) preserves_expected
  intro _
  apply Triple.bind (Q := fun _ w => ParametersFrom F w.api)
  · exact triple_modify fun _ h => h
  · intro _
    exact triple_pure fun _ h => h

theorem step_parametersFrom (h : ParametersFrom F w.api) (hstep : step lib w e = some w') :
    ParametersFrom F w'.api := by
  have hpreserves := perform_preserves_of_connect lib e.op parametersFrom_quiet
    (fun _ _ _ _ _ hw => hw) (connect_parametersFrom hF) (fun _ _ hw => hw)
    fun topic _ => parametersFrom_ignores topic
  exact step_of_triple hpreserves (fun _ _ hw => hw) h hstep

theorem reachable_parametersFrom {api : Api} (hnew : api.protocolPrm = none)
    (h : Reachable (step lib) (start api) w) : ParametersFrom F w.api := by
  apply h.invariant (I := fun w => ParametersFrom F w.api) fun _ _ _ hw hstep =>
    step_parametersFrom hF hw hstep
  intro prm hprm
  cases hnew.symm.trans hprm

omit hF

theorem reachable_hasherStored {api : Api} (hnew : api.protocolPrm = none)
    (h : Reachable (step lib) (start api) w) : HasherStored w.api :=
  reachable_parametersFrom (fun _ _ _ _ hgiven => hgiven) hnew h

theorem reachable_created {api : Api} (hnew : api.protocolPrm = none)
    (h : Reachable (step lib) (start api) w) {prm : ProtocolParameters}
    (hprm : w.api.protocolPrm = some prm) : ∃ text, createMetadata text = .ok prm.metadata := by
  have hfrom : ParametersFrom (fun md _ => ∃ text, createMetadata text = .ok md) w.api :=
    reachable_parametersFrom (fun text _ _ hmd _ => ⟨text, hmd⟩) hnew h
  obtain ⟨_, -, hcreated⟩ := hfrom prm hprm
  exact hcreated

end Stored

section Keys

def keysOf (lib : Libraries) (api : Api) (jsonPrm module variableName : Str) : Result Str := do
  let prm ← deref api.protocolPrm
  let hasher ← deref api.freeBalanceHasher
  getKeys lib prm.metadata hasher jsonPrm module variableName

def IsMap (md : Metadata) (module variableName : Str) : Prop :=
  ∃ k i : ℕ, getModuleIndex md module false = .ok (k : ℤ) ∧
    getStorageMethodIndex md k variableName = .ok (i : ℤ) ∧ isStateVariablePlain md k i = .ok false

/-- The key is the one that the variable's own hasher gives. -/
def UsesOwnHasher (lib : Libraries) (md : Metadata) (jsonPrm module variableName key : Str) : Prop :=
  ∃ own, getFuncHasher md module variableName = .ok own ∧
    getMappedStorageKey lib own jsonPrm (module ++ lit " " ++ variableName) = .ok key

theorem keysOf_map {lib : Libraries} {api : Api} {prm : ProtocolParameters} {hasher : Hasher}
    {module variableName : Str} (hprm : api.protocolPrm = some prm)
    (hhasher : api.freeBalanceHasher = some hasher) (hmap : IsMap prm.metadata module variableName)
    (jsonPrm : Str) :
    keysOf lib api jsonPrm module variableName =
      getMappedStorageKey lib hasher jsonPrm (module ++ lit " " ++ variableName) := by
  obtain ⟨k, i, hmodule, hvariable, hplain⟩ := hmap
  have hkeys := getKeys_eq lib hasher jsonPrm hmodule hvariable hplain
  rw [keysOf, hprm, hhasher]
  exact hkeys

theorem hasher_of_key {lib : Libraries} {hasher other : Hasher} {jsonPrm keyPrefix key : Str}
    (h : getMappedStorageKey lib hasher jsonPrm keyPrefix = .ok key)
    (h' : getMappedStorageKey lib other jsonPrm keyPrefix = .ok key) : hasher = other := by
  rw [getMappedStorageKey_eq] at h h'
  obtain ⟨data, hdata, hkey⟩ := except_map_eq_ok h
  obtain ⟨data', hdata', hkey'⟩ := except_map_eq_ok h'
  obtain rfl : data = data' := Except.ok.inj (hdata.symm.trans hdata')
  exact getStorageKey_hasher lib (hkey.trans hkey'.symm)

end Keys

/-- The key of a map is built with the variable's own hasher exactly if the metadata
gives it the hasher of Balances FreeBalance. -/
theorem own_hasher_iff (lib : Libraries) (api : Api) (hstored : HasherStored api)
    (prm : ProtocolParameters) (hprm : api.protocolPrm = some prm)
    (jsonPrm module variableName key : Str) (hmap : IsMap prm.metadata module variableName)
    (hkey : keysOf lib api jsonPrm module variableName = .ok key) :
    UsesOwnHasher lib prm.metadata jsonPrm module variableName key ↔
      getFuncHasher prm.metadata module variableName =
        getFuncHasher prm.metadata (lit "Balances") (lit "FreeBalance") := by
  obtain ⟨hasher, hhasher, hgiven⟩ := hstored prm hprm
  rw [keysOf_map hprm hhasher hmap] at hkey
  rw [hgiven]
  constructor
  · rintro ⟨own, hown, hownKey⟩
    rw [hown, hasher_of_key hownKey hkey]
  · intro hsame
    exact ⟨hasher, hsame, hkey⟩

section Samples

/-- The maps Balances FreeBalance, hashed with Blake2_256, and A m, hashed with
Twox64Concat; each has another item in front of it. -/
def mixedHashers : MDV7 :=
  let map (name hasher : String) : Storage :=
    { name := some (lit name), type := { type := some 1, hasher := some (lit hasher) } }
  let module (name : String) (item : Storage) : ModuleV7 :=
    { name := lit name
      storage := some ⟨lit name, Slots.ofList [{ name := some (lit "x") }, item]⟩
      call := Slots.empty
      ev := Slots.empty
      cons := Slots.empty }
  ⟨Slots.ofList [module "Balances" (map "FreeBalance" "Blake2_256"),
    module "A" (map "m" "Twox64Concat")]⟩

def mixedPrm : ProtocolParameters := ⟨only .v7 mixedHashers, 0, 0, FixedBytes.zero 32⟩

def mixedApi : Api :=
  { construct blankMemory with protocolPrm := some mixedPrm, freeBalanceHasher := some .blake2 }

def parameterText : Str := lit "\x7b\"type\":\"u32\",\"value\":\"1\"\x7d"

theorem mixedApi_stored : HasherStored mixedApi := by
  intro prm hprm
  obtain rfl : mixedPrm = prm := Option.some.inj hprm
  exact ⟨.blake2, rfl, by decide +kernel⟩

theorem own_hasher_iff_freeBalance : ∃ key,
    keysOf parameterLibraries mixedApi parameterText (lit "Balances") (lit "FreeBalance") = .ok key ∧
      UsesOwnHasher parameterLibraries mixedPrm.metadata parameterText (lit "Balances")
        (lit "FreeBalance") key := by
  have hlength : (keysOf parameterLibraries mixedApi parameterText (lit "Balances")
      (lit "FreeBalance")).map List.length = .ok 66 := by decide +kernel
  obtain ⟨key, hkey, -⟩ := except_map_eq_ok hlength
  have hmap : IsMap mixedPrm.metadata (lit "Balances") (lit "FreeBalance") :=
    ⟨0, 1, by decide +kernel, by decide +kernel, by decide +kernel⟩
  exact ⟨key, hkey, (own_hasher_iff parameterLibraries mixedApi mixedApi_stored mixedPrm rfl
    parameterText (lit "Balances") (lit "FreeBalance") key hmap hkey).2 rfl⟩

def mapModule : List String :=
  ["0441", "010441", "08", "0478", "0000", "0c753634", "0000", "046d", "000102", "0c753634",
    "0c753634", "00", "0000", "00", "00", "00"]

def mapChain : Str := (["0x6d657461", "07", "08"] ++ balancesModule ++ mapModule).flatMap lit

/-- The map m is found and has a key, and its hasher text is indeterminate. -/
def keyWithoutHasher (api : Api) (prm : ProtocolParameters) : Bool :=
  decide (getModuleIndex prm.metadata (lit "A") false = .ok 1 ∧
    getStorageMethodIndex prm.metadata 1 (lit "m") = .ok 1 ∧
    isStateVariablePlain prm.metadata 1 1 = .ok false ∧
    (keysOf parameterLibraries api parameterText (lit "A") (lit "m")).map List.length = .ok 34 ∧
    getFuncHasher prm.metadata (lit "A") (lit "m") = .error .undefined)

/-- The key of A m is built with Blake2_256 where its hasher is another one; and on a
parsed chain its hasher text is one that no parser has written. -/
theorem own_hasher_fails :
    (¬ ∀ (lib : Libraries) (api : Api), HasherStored api → ∀ prm, api.protocolPrm = some prm →
      ∀ jsonPrm module variableName key, IsMap prm.metadata module variableName →
        keysOf lib api jsonPrm module variableName = .ok key →
          UsesOwnHasher lib prm.metadata jsonPrm module variableName key) ∧
    ¬ ∀ (lib : Libraries) (api : Api) (w : World), api.protocolPrm = none →
      Reachable (step lib) (start api) w → ∀ prm, w.api.protocolPrm = some prm →
        ∀ jsonPrm module variableName key, IsMap prm.metadata module variableName →
          keysOf lib w.api jsonPrm module variableName = .ok key →
            UsesOwnHasher lib prm.metadata jsonPrm module variableName key := by
  constructor
  · intro hall
    have hlength : (keysOf parameterLibraries mixedApi parameterText (lit "A") (lit "m")).map
        List.length = .ok 66 := by decide +kernel
    obtain ⟨key, hkey, hkeyLength⟩ := except_map_eq_ok hlength
    have hmap : IsMap mixedPrm.metadata (lit "A") (lit "m") :=
      ⟨1, 1, by decide +kernel, by decide +kernel, by decide +kernel⟩
    obtain ⟨own, hown, hownKey⟩ := hall parameterLibraries mixedApi mixedApi_stored mixedPrm rfl
      parameterText (lit "A") (lit "m") key hmap hkey
    have hgiven : getFuncHasher mixedPrm.metadata (lit "A") (lit "m") = .ok .xxhash := by
      decide +kernel
    obtain rfl : own = .xxhash := Except.ok.inj (hown.symm.trans hgiven)
    have hother : (getMappedStorageKey parameterLibraries .xxhash parameterText (lit "A m")).map
        List.length = .ok 34 := by decide +kernel
    rw [show lit "A" ++ lit " " ++ lit "m" = lit "A m" by decide] at hownKey
    rw [hownKey] at hother
    have hlengths := hkeyLength.symm.trans (Except.ok.inj hother)
    cases hlengths
  · intro hall
    have hrun : (run (step parameterLibraries) (start (construct blankMemory))
        [connectTo mapChain]).bind (fun w => w.api.protocolPrm.map (keyWithoutHasher w.api)) =
          some true := by decide +kernel
    obtain ⟨w, hw, hseen⟩ := Option.bind_eq_some_iff.1 hrun
    obtain ⟨prm, hprm, hvalues⟩ := Option.map_eq_some_iff.1 hseen
    obtain ⟨hmodule, hvariable, hplain, hlength, hundefined⟩ := of_decide_eq_true hvalues
    obtain ⟨key, hkey, -⟩ := except_map_eq_ok hlength
    obtain ⟨own, hown, -⟩ := hall parameterLibraries (construct blankMemory) w rfl
      ⟨[connectTo mapChain], hw⟩ prm hprm parameterText (lit "A") (lit "m") key
      ⟨1, 1, hmodule, hvariable, hplain⟩ hkey
    cases hundefined.symm.trans hown

end Samples

end PolkadotApi.KeyHashers
