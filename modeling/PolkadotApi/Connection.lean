import PolkadotApi.CallSpecifications

set_option autoImplicit false

namespace PolkadotApi.Connection
open StatefulActions MachineModel JsonValues Converters MetadataFactory ExtrinsicSubmission StorageKeys
open Subscriptions SubscriptionFrames CallSpecifications

section Model

variable (lib : Libraries)

def deserialize {α : Type} : Result α → Result α
  | .error (.thrown e) => throwing (.application (lit "Cannot deserialize data " ++ lib.what e))
  | result => result

def createBlockHash (jsonObject : Json) : Result Str := strcpy jsonObject.stringValue

def getBlockHash (blockNumber : ℤ) : Action Str := do
  let response ← request fun _ => .requested (query "chain_getBlockHash" (.array [.number blockNumber]))
  liftResult (deserialize lib (createBlockHash response))

def getMetadata : Action Metadata := do
  let response ← request fun _ => .requested (query "state_getMetadata" (.array []))
  liftResult (deserialize lib (createMetadata response.stringValue))

/-- The loop over `BLOCK_HASH_SIZE`; what is behind the text is zero. -/
def genesisBlockHash (hash : Str) : FixedBytes 32 :=
  ⟨(List.range 32).map fun i => fromHexByte (hash.getD (2 + i * 2) 0) (hash.getD (3 + i * 2) 0),
    by simp⟩

def readParameters : Action (Metadata × Hasher) := do
  let genesisHashStr ← getBlockHash lib 0
  let genesis := genesisBlockHash genesisHashStr
  update fun api => { api with
    protocolPrm := api.protocolPrm.map fun prm => { prm with genesisBlockHash := genesis } }
  let md ← getMetadata lib
  let hasher ← liftResult (getFuncHasher md (lit "Balances") (lit "FreeBalance"))
  let prm ← liftResult (connectParameters md genesis)
  update fun api => { api with
    protocolPrm := some prm
    freeBalanceHasher := some hasher
    storageKeyCurrentEra := getPlainStorageKey lib hasher (lit "Staking CurrentEra")
    storageKeySessionsPerEra := getPlainStorageKey lib hasher (lit "Staking SessionsPerEra")
    storageKeyCurrentSessionIndex := getPlainStorageKey lib hasher (lit "Session CurrentIndex") }
  return (md, hasher)

def babeKey (md : Metadata) (hasher : Hasher) (variableName : String) : Result Str :=
  getKeys lib md hasher [] (lit "Babe") (lit variableName)

def readBabe (md : Metadata) (hasher : Hasher) : Action Unit := do
  let genesisSlot ← liftResult (babeKey lib md hasher "GenesisSlot")
  update fun api => { api with storageKeyBabeGenesisSlot := genesisSlot }
  let currentSlot ← liftResult (babeKey lib md hasher "CurrentSlot")
  update fun api => { api with storageKeyBabeCurrentSlot := currentSlot }
  let epochIndex ← liftResult (babeKey lib md hasher "EpochIndex")
  update fun api => { api with storageKeyBabeEpochIndex := epochIndex }
  let sessionsPerEra ← liftResult (getMetadataConst md (lit "Staking") (lit "SessionsPerEra"))
  update fun api => { api with sessionsPerEra := sessionsPerEra }
  let babeEpochDuration ← liftResult (getMetadataConst md (lit "Babe") (lit "EpochDuration"))
  update fun api => { api with babeEpochDuration := babeEpochDuration }

def expected : Halt → Action Unit
  | .thrown (.application _) => pure ()
  | halt => throw halt

/-- `code` is the result of `_jsonRpc->connect`. -/
def connect (code : ℤ) : Action ℤ := do
  let (md, hasher) ← readParameters lib
  tryCatch (readBabe lib md hasher) expected
  update fun api => { api with isEpoch := decide (api.storageKeyBabeGenesisSlot ≠ []) }
  return code

def disconnect : Action Unit := pure ()

end Model

section Frame

variable {lib : Libraries} {I : World → Prop}

def IgnoresParameters (I : World → Prop) : Prop :=
  ∀ w api, api.bestBlockNum = w.api.bestBlockNum → api.slot = w.api.slot →
    api.keyed = w.api.keyed → I w → I { w with api := api }

def IgnoresBabe (I : World → Prop) : Prop :=
  ∀ w api, api.bestBlockNum = w.api.bestBlockNum → api.slot = w.api.slot →
    api.keyed = w.api.keyed → api.protocolPrm = w.api.protocolPrm →
    api.freeBalanceHasher = w.api.freeBalanceHasher → I w → I { w with api := api }

theorem IgnoresParameters.ignoresBabe (h : IgnoresParameters I) : IgnoresBabe I :=
  fun w api hblock hslot hkeyed _ _ hw => h w api hblock hslot hkeyed hw

theorem preserves_liftResult {α : Type} (r : Result α) : Preserves I (liftResult r) :=
  triple_liftResult (fun _ _ _ h => h) fun _ _ _ h => h

theorem preserves_readParameters (hI : Quiet I) (hparameters : IgnoresParameters I)
    (hrequested : ∀ w q, I w → I (w.record (.requested q))) :
    Preserves I (readParameters lib) := by
  apply Triple.bind (Q := fun _ => I)
  · apply (preserves_requested hI hrequested).bind
    intro response
    exact preserves_liftResult _
  intro hash
  apply Triple.bind (Q := fun _ => I)
  · exact triple_modify fun w hw => hparameters w _ rfl rfl rfl hw
  intro _
  apply Triple.bind (Q := fun _ => I)
  · apply (preserves_requested hI hrequested).bind
    intro response
    exact preserves_liftResult _
  intro md
  apply (preserves_liftResult _).bind
  intro hasher
  apply (preserves_liftResult _).bind
  intro prm
  apply Triple.bind (Q := fun _ => I)
  · exact triple_modify fun w hw => hparameters w _ rfl rfl rfl hw
  · intro _
    exact triple_pure fun _ h => h

theorem preserves_readBabe {md : Metadata} {hasher : Hasher} (hbabe : IgnoresBabe I) :
    Preserves I (readBabe lib md hasher) := by
  apply (preserves_liftResult _).bind
  intro genesisSlot
  apply Triple.bind (Q := fun _ => I)
  · exact triple_modify fun w hw => hbabe w _ rfl rfl rfl rfl rfl hw
  intro _
  apply (preserves_liftResult _).bind
  intro currentSlot
  apply Triple.bind (Q := fun _ => I)
  · exact triple_modify fun w hw => hbabe w _ rfl rfl rfl rfl rfl hw
  intro _
  apply (preserves_liftResult _).bind
  intro epochIndex
  apply Triple.bind (Q := fun _ => I)
  · exact triple_modify fun w hw => hbabe w _ rfl rfl rfl rfl rfl hw
  intro _
  apply (preserves_liftResult _).bind
  intro sessionsPerEra
  apply Triple.bind (Q := fun _ => I)
  · exact triple_modify fun w hw => hbabe w _ rfl rfl rfl rfl rfl hw
  intro _
  apply (preserves_liftResult _).bind
  intro babeEpochDuration
  exact triple_modify fun w hw => hbabe w _ rfl rfl rfl rfl rfl hw

theorem preserves_expected (halt : Halt) : Preserves I (expected halt) := by
  unfold expected
  split
  · exact triple_pure fun _ h => h
  · exact triple_throw fun _ h => h

theorem preserves_connect {code : ℤ} (hI : Quiet I) (hparameters : IgnoresParameters I)
    (hrequested : ∀ w q, I w → I (w.record (.requested q))) :
    Preserves I (connect lib code) := by
  apply (preserves_readParameters hI hparameters hrequested).bind
  intro p
  apply Triple.bind (Q := fun _ => I)
  · exact triple_tryCatch (preserves_readBabe hparameters.ignoresBabe) preserves_expected
  intro _
  apply Triple.bind (Q := fun _ => I)
  · exact triple_modify fun w hw => hparameters w _ rfl rfl rfl hw
  · intro _
    exact triple_pure fun _ h => h

end Frame

end PolkadotApi.Connection
