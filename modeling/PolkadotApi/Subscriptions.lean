import PolkadotApi.Notifications
import PolkadotApi.StatefulActions
import PolkadotApi.StepRuns
import PolkadotApi.StorageKeys

set_option autoImplicit false

/-!
The object is driven by client calls and, on the consumer threads, by
`handleWsMessage`. A client call waits in `request` and in `getAccountNonce`;
the notifications that are handled meanwhile belong to the environment of the
call. An exception that leaves `handleWsMessage` ends the process.
-/
namespace PolkadotApi.Subscriptions
open StatefulActions MachineModel JsonValues AddressCodec Converters MetadataFactory MetadataLookup
open ExtrinsicSubmission StorageKeys Notifications

def PAPI_OK : ℤ := 0

/-- What a `std::function` member holds: a function of the client, the lambda of
`subscribeEraAndSession`, or the one that `getAccountNonce` makes in its frame. -/
inductive Callback where
  | client (tag : ℕ)
  | updateBestBlock
  | recordNonce (frame : ℕ)
  deriving DecidableEq

inductive SlotKind where
  | blockNumber
  | eraAndSession
  | transactionCompletion
  | finalizedBlock
  | runtimeVersion
  | subcribeExtrinsic
  deriving DecidableEq

inductive KeyedKind where
  | accountNonce
  | balance
  | storage
  deriving DecidableEq

structure Slot where
  subscriber : Option Callback
  id : ℤ
  deriving DecidableEq

structure Keyed where
  subscribers : Std.ExtTreeMap Str Callback
  ids : Std.ExtTreeMap Str ℤ

inductive Topic where
  | slot (kind : SlotKind)
  | keyed (kind : KeyedKind) (key : Str)
  deriving DecidableEq

/-- A member without a value that may be read is `none`. -/
structure Api where
  bestBlockNum : ℤ
  slot : SlotKind → Slot
  keyed : KeyedKind → Keyed
  protocolPrm : Option ProtocolParameters
  freeBalanceHasher : Option Hasher
  storageKeyCurrentEra : Str
  storageKeySessionsPerEra : Str
  storageKeyCurrentSessionIndex : Str
  storageKeyBabeGenesisSlot : Str
  storageKeyBabeCurrentSlot : Str
  storageKeyBabeEpochIndex : Str
  babeEpochDuration : ℤ
  sessionsPerEra : ℤ
  isEpoch : Bool

def initialId (memory : Api) : SlotKind → ℤ
  | .blockNumber => 0
  | .eraAndSession => 0
  | kind => (memory.slot kind).id

/-- The constructor; the other members keep what `memory` holds. -/
def construct (memory : Api) : Api := { memory with
  bestBlockNum := -1
  slot := fun kind => ⟨none, initialId memory kind⟩
  keyed := fun _ => ⟨∅, ∅⟩
  protocolPrm := none
  freeBalanceHasher := none
  storageKeyCurrentEra := []
  storageKeySessionsPerEra := []
  storageKeyCurrentSessionIndex := []
  storageKeyBabeGenesisSlot := []
  storageKeyBabeCurrentSlot := []
  storageKeyBabeEpochIndex := [] }

namespace Api

def setSlot (api : Api) (kind : SlotKind) (slot : Slot) : Api :=
  { api with slot := Function.update api.slot kind slot }

def setSubscriber (api : Api) (kind : SlotKind) (callback : Callback) : Api :=
  api.setSlot kind { api.slot kind with subscriber := some callback }

def setId (api : Api) (kind : SlotKind) (id : ℤ) : Api :=
  api.setSlot kind { api.slot kind with id }

def setKeyed (api : Api) (kind : KeyedKind) (keyed : Keyed) : Api :=
  { api with keyed := Function.update api.keyed kind keyed }

def setKeySubscriber (api : Api) (kind : KeyedKind) (key : Str) (callback : Callback) : Api :=
  api.setKeyed kind
    { api.keyed kind with subscribers := (api.keyed kind).subscribers.insert key callback }

def setKeyId (api : Api) (kind : KeyedKind) (key : Str) (id : ℤ) : Api :=
  api.setKeyed kind { api.keyed kind with ids := (api.keyed kind).ids.insert key id }

def eraseKey (api : Api) (kind : KeyedKind) (key : Str) : Api :=
  api.setKeyed kind
    ⟨(api.keyed kind).subscribers.erase key, (api.keyed kind).ids.erase key⟩

/-- `none` is an empty function; a missing key gets one from `operator[]`. -/
def subscriber (api : Api) : Topic → Option Callback
  | .slot kind => (api.slot kind).subscriber
  | .keyed kind key => (api.keyed kind).subscribers[key]?

end Api

section Environment

/-- How a call of `request` ends, and the notifications handled before it does. -/
structure Answer where
  reply : Except Exception Json
  during : List (ℤ × Json)

/-- What the object did: the requests it made, with the id that a subscription
got, the notifications it handled and the functions it called. -/
inductive Entry where
  | subscribed (topic : Topic) (query : Json) (id : ℤ)
  | unsubscribed (id : ℤ) (method : Str)
  | requested (query : Json)
  | handled (id : ℤ) (message : Json)
  | invoked (id : ℤ) (callback : Callback) (payload : Payload)
  deriving DecidableEq

def Entry.isRequest : Entry → Bool
  | .handled _ _ => false
  | .invoked _ _ _ => false
  | _ => true

/-- Why a call does not return: it throws, it leaves defined behaviour, the
process is terminated, or it waits for ever. -/
inductive Halt where
  | thrown (e : Exception)
  | undefined
  | terminated
  | waits
  deriving DecidableEq

/-- `running` is the frame of the `getAccountNonce` in progress and `nonce` its
local result. Once no answer is left, requests time out. -/
structure World where
  api : Api
  log : List Entry
  frames : ℕ
  running : Option ℕ
  nonce : Option ℕ
  answers : List Answer
  incoming : List (ℤ × Json)

def World.record (w : World) (e : Entry) : World := { w with log := w.log ++ [e] }

def World.update (w : World) (f : Api → Api) : World := { w with api := f w.api }

abbrev Action (α : Type) := EStateM Halt World α

def update (f : Api → Api) : Action Unit := modify fun w => w.update f

def record (e : Entry) : Action Unit := modify fun w => w.record e

def liftResult {α : Type} : Result α → Action α
  | .ok a => pure a
  | .error (.thrown e) => throw (.thrown e)
  | .error .undefined => throw .undefined

end Environment

section Handler

/-- The first key in the order of the map that has the id. -/
def findKey (ids : Std.ExtTreeMap Str ℤ) (id : ℤ) : Option Str :=
  (ids.toList.find? fun sid => sid.2 = id).map Prod.fst

def slotTopic (api : Api) (kind : SlotKind) (id : ℤ) : Option Topic :=
  if (api.slot kind).id = id then some (.slot kind) else none

def keyedTopic (api : Api) (kind : KeyedKind) (id : ℤ) : Option Topic :=
  (findKey (api.keyed kind).ids id).map (.keyed kind)

def tests (api : Api) (id : ℤ) : List (Option Topic) :=
  [slotTopic api .blockNumber id, keyedTopic api .accountNonce id, keyedTopic api .balance id,
    slotTopic api .subcribeExtrinsic id, slotTopic api .transactionCompletion id,
    if api.bestBlockNum ≠ -1 then slotTopic api .eraAndSession id else none,
    slotTopic api .finalizedBlock id, slotTopic api .runtimeVersion id, keyedTopic api .storage id]

def route (api : Api) (id : ℤ) : Option Topic := (tests api id).findSome? fun test => test

def payload (api : Api) : Topic → Json → Result (Option Payload)
  | .slot .blockNumber, message => (newHead message).map some
  | .keyed .accountNonce _, message => (nonceUpdate message).map some
  | .keyed .balance _, message => (balanceUpdate message).map some
  | .slot .subcribeExtrinsic, message => .ok (some (.extrinsic message.dump))
  | .slot .transactionCompletion, message => .ok (transactionStatus message)
  | .slot .eraAndSession, message =>
    if api.isEpoch then (epochUpdate api.babeEpochDuration api.sessionsPerEra message).map some
    else sessionUpdate api.bestBlockNum message
  | .slot .finalizedBlock, message =>
    (decodeBlockHeader message).map fun b => some (.finalizedBlock b)
  | .slot .runtimeVersion, message =>
    (createRuntimeVersion message).map fun rtv => some (.runtimeVersion rtv)
  | .keyed .storage _, message => .ok (some (storageUpdate message))

def uncaught : Fault → Halt
  | .thrown _ => .terminated
  | .undefined => .undefined

/-- The lambda of a `getAccountNonce` that has ended writes to locals that are gone. -/
def call (w : World) (payload : Payload) : Callback → Except Halt World
  | .client _ => .ok w
  | .updateBestBlock =>
    match payload with
    | .blockNumber blockNum => .ok (w.update fun api => { api with bestBlockNum := blockNum })
    | _ => .ok w
  | .recordNonce frame =>
    if w.running = some frame then
      match payload with
      | .nonce nonce => .ok { w with nonce := some nonce }
      | _ => .ok w
    else .error .undefined

def invoke (w : World) (id : ℤ) (payload : Payload) : Option Callback → Except Halt World
  | none => .error .terminated
  | some callback => do
    let w ← call w payload callback
    return w.record (.invoked id callback payload)

def complete (topic : Topic) (payload : Payload) (api : Api) : Api :=
  if topic = .slot .transactionCompletion ∧ payload = .status (lit "finalized") then
    api.setSlot .transactionCompletion ⟨none, 0⟩
  else api

def deliver (w : World) (id : ℤ) (topic : Topic) (message : Json) : Except Halt World :=
  match payload w.api topic message with
  | .error fault => .error (uncaught fault)
  | .ok none => .ok w
  | .ok (some p) => do
    let w ← invoke w id p (w.api.subscriber topic)
    return w.update (complete topic p)

def handleWsMessage (w : World) (id : ℤ) (message : Json) : Except Halt World :=
  let w := w.record (.handled id message)
  match route w.api id with
  | none => .ok w
  | some topic => deliver w id topic message

def handleAll (w : World) : List (ℤ × Json) → Except Halt World
  | [] => .ok w
  | (id, message) :: rest => do
    let w ← handleWsMessage w id message
    handleAll w rest

/-- Notifications that the consumer threads handle while a call is in progress. -/
def meanwhile (notifications : List (ℤ × Json)) : Action Unit := fun w =>
  match handleAll w notifications with
  | .ok w => .ok () w
  | .error halt => .error halt w

end Handler

section Requests

def query (method : String) (params : Json) : Json :=
  .object [(lit "method", .string (lit method)), (lit "params", params)]

def storageParams (keys : List Str) : Json := .array [.array (keys.map .string)]

def World.answer (w : World) : Answer := w.answers.headD ⟨.ok .null, []⟩

def World.popped (w : World) : World := { w with answers := w.answers.tail }

def nextAnswer : Action Answer := fun w => .ok w.answer w.popped

/-- `CJsonRpc::request`; `entry` is the record of a request that was sent. -/
def request (entry : Json → Entry) : Action Json := do
  let answer ← nextAnswer
  meanwhile answer.during
  match answer.reply with
  | .error e => throw (.thrown e)
  | .ok json => do
    record (entry json)
    return json

def subscribeWs (topic : Topic) (subscribeQuery : Json) : Action ℤ := do
  let json ← request fun json => .subscribed topic subscribeQuery json.intValue
  return json.intValue

def unsubscribeWs (id : ℤ) (method : String) : Action Unit :=
  if id = 0 then pure ()
  else do
    let _ ← request fun _ => .unsubscribed id (lit method)

end Requests

section SingleSlots

/-- `if (!id) id = subscribeWs(...)`. -/
def openSlot (kind : SlotKind) (subscribeQuery : Api → Json) : Action Unit := do
  let w ← get
  if (w.api.slot kind).id = 0 then do
    let id ← subscribeWs (.slot kind) (subscribeQuery w.api)
    update fun api => api.setId kind id

def subscribeSlot (kind : SlotKind) (subscribeQuery : Api → Json) (callback : Callback) :
    Action ℤ := do
  update fun api => api.setSubscriber kind callback
  openSlot kind subscribeQuery
  return PAPI_OK

/-- `if (id) { unsubscribeWs(id, ...); subscriber = nullptr; id = 0; }`. -/
def closeSlot (kind : SlotKind) (method : String) : Action Unit := do
  let w ← get
  if (w.api.slot kind).id ≠ 0 then do
    unsubscribeWs (w.api.slot kind).id method
    update fun api => api.setSlot kind ⟨none, 0⟩

def unsubscribeSlot (kind : SlotKind) (method : String) : Action ℤ := do
  closeSlot kind method
  return PAPI_OK

def subscribeBlockNumber : Callback → Action ℤ :=
  subscribeSlot .blockNumber fun _ => query "chain_subscribeNewHead" (.array [])

def unsubscribeBlockNumber : Action ℤ := unsubscribeSlot .blockNumber "chain_unsubscribeNewHead"

def subscribeFinalizedBlock : Callback → Action ℤ :=
  subscribeSlot .finalizedBlock fun _ => query "chain_subscribeFinalizedHeads" (.array [])

def unsubscribeFinalizedBlock : Action ℤ :=
  unsubscribeSlot .finalizedBlock "chain_unsubscribeFinalizedHeads"

def subscribeRuntimeVersion : Callback → Action ℤ :=
  subscribeSlot .runtimeVersion fun _ => query "state_subscribeRuntimeVersion" (.array [])

def unsubscribeRuntimeVersion : Action ℤ :=
  unsubscribeSlot .runtimeVersion "state_unsubscribeRuntimeVersion"

def LAST_LENGTH_CHANGE_SUBSCRIPTION : Str := lit "0xe781aa1e06ea53e01a4e129e0496764e"

def SESSION_LENGTH_SUBSCRIPTION : Str := lit "0xd9c94b41dc87728ebf0a966d2e9ad9c0"

def eraQuery (api : Api) : Json :=
  query "state_subscribeStorage"
    (if api.isEpoch then
      storageParams [api.storageKeyBabeEpochIndex, api.storageKeyBabeGenesisSlot,
        api.storageKeyBabeCurrentSlot]
    else
      storageParams [LAST_LENGTH_CHANGE_SUBSCRIPTION, SESSION_LENGTH_SUBSCRIPTION,
        api.storageKeyCurrentEra, api.storageKeySessionsPerEra, api.storageKeyCurrentSessionIndex])

/-- The block number subscription is taken over before the own one is opened. -/
def subscribeEraAndSession (callback : Callback) : Action ℤ := do
  update fun api => api.setSubscriber .eraAndSession callback
  let _ ← subscribeBlockNumber .updateBestBlock
  openSlot .eraAndSession eraQuery
  return PAPI_OK

def unsubscribeEraAndSession : Action ℤ := do
  closeSlot .eraAndSession "state_unsubscribeStorage"
  let _ ← unsubscribeBlockNumber
  return PAPI_OK

end SingleSlots

section Maps

/-- `if (ids.count(key) == 0) ids[key] = subscribeWs(...)`. Before C++17 the compiler may
evaluate `ids[key]` first, and GCC does: the entry is there with the id 0 while the
request is made, and stays when the request throws. -/
def openKeyed (kind : KeyedKind) (storageKey : Api → Result Str) (key : Str) : Action Unit := do
  let w ← get
  if (w.api.keyed kind).ids[key]? = none then do
    let text ← liftResult (storageKey w.api)
    update fun api => api.setKeyId kind key 0
    let id ← subscribeWs (.keyed kind key) (query "state_subscribeStorage" (storageParams [text]))
    update fun api => api.setKeyId kind key id

/-- The subscriber is stored before the key is computed. -/
def subscribeKeyed (kind : KeyedKind) (storageKey : Api → Result Str) (key : Str)
    (callback : Callback) : Action ℤ := do
  update fun api => api.setKeySubscriber kind key callback
  openKeyed kind storageKey key
  return PAPI_OK

def closeKeyed (kind : KeyedKind) (key : Str) : Action Unit := do
  let w ← get
  match (w.api.keyed kind).ids[key]? with
  | none => pure ()
  | some id => do
    unsubscribeWs id "state_unsubscribeStorage"
    update fun api => api.eraseKey kind key

def unsubscribeKeyed (kind : KeyedKind) (key : Str) : Action ℤ := do
  closeKeyed kind key
  return PAPI_OK

variable (lib : Libraries)

/-- The first `ADDRESS_LENGTH` characters of the text are taken as the address. -/
def addressKey (keyPrefix : String) (address : Str) (api : Api) : Result Str := do
  let addr ← FixedBytes.copy 48 (address ++ [0])
  let hasher ← deref api.freeBalanceHasher
  getAddressStorageKey lib hasher addr (lit keyPrefix)

def subscribeBalance (address : Str) : Callback → Action ℤ :=
  subscribeKeyed .balance (addressKey lib "Balances FreeBalance" address) address

def unsubscribeBalance : Str → Action ℤ := unsubscribeKeyed .balance

def subscribeAccountNonce (address : Str) : Callback → Action ℤ :=
  subscribeKeyed .accountNonce (addressKey lib "System AccountNonce" address) address

def unsubscribeAccountNonce : Str → Action ℤ := unsubscribeKeyed .accountNonce

def subscribeStorage (key : Str) : Callback → Action ℤ :=
  subscribeKeyed .storage (fun _ => .ok key) key

def unsubscribeStorage : Str → Action ℤ := unsubscribeKeyed .storage

end Maps

section Transactions

variable (lib : Libraries)

def enterFrame : Action ℕ := fun w =>
  .ok w.frames { w with frames := w.frames + 1, running := some w.frames, nonce := none }

def leaveFrame : Action Unit := modify fun w => { w with running := none }

/-- `while (!done) usleep(10000)`. -/
def awaitNonce : Action ℕ := do
  let w ← get
  modify fun w => { w with incoming := [] }
  meanwhile w.incoming
  let w ← get
  match w.nonce with
  | some nonce => return nonce
  | none => throw .waits

def getAccountNonce (address : Str) : Action ℕ := do
  let frame ← enterFrame
  let body : Action ℕ := do
    let _ ← subscribeAccountNonce lib address (.recordNonce frame)
    let result ← awaitNonce
    let _ ← unsubscribeAccountNonce address
    return result
  let result ← tryCatch body fun halt => do
    leaveFrame
    throw halt
  leaveFrame
  return result

def extrinsicQuery (submission : Submission) : Json :=
  .object [(lit "method", .string submission.rpcMethod),
    (lit "params", .array [.string submission.extrinsic])]

def protocolParameters : Action ProtocolParameters := do
  let w ← get
  liftResult (deref w.api.protocolPrm)

/-- The callback is stored, then the extrinsic is sent, then the id is stored. -/
def watchExtrinsic (kind : SlotKind) (submission : Submission) (callback : Callback) :
    Action Unit := do
  update fun api => api.setSubscriber kind callback
  let id ← subscribeWs (.slot kind) (extrinsicQuery submission)
  update fun api => api.setId kind id

def makeSubmission (address : Str) (build : ProtocolParameters → ℕ → Result Submission) :
    Action Submission := do
  let nonce ← getAccountNonce lib address
  let prm ← protocolParameters
  liftResult (build prm nonce)

def submitExtrinsic (request : CallRequest) : Action Str := do
  let submission ← makeSubmission lib request.sender fun prm nonce =>
    ExtrinsicSubmission.submitExtrinsic lib.toCrypto prm nonce request
  let response ← Subscriptions.request fun _ => .requested (extrinsicQuery submission)
  return response.stringValue

def submitAndSubcribeExtrinsic (request : CallRequest) (callback : Callback) : Action Unit := do
  let submission ← makeSubmission lib request.sender fun prm nonce =>
    ExtrinsicSubmission.submitAndSubcribeExtrinsic lib.toCrypto prm nonce request
  watchExtrinsic .subcribeExtrinsic submission callback

structure TransferRequest where
  sender : Str
  privateKey : Str
  recipient : Str
  amount : ℕ

def signAndSendTransfer (t : TransferRequest) (callback : Callback) : Action Unit := do
  let submission ← makeSubmission lib t.sender fun prm nonce =>
    ExtrinsicSubmission.signAndSendTransfer lib.toCrypto prm nonce t.sender t.privateKey t.recipient
      t.amount
  watchExtrinsic .transactionCompletion submission callback

end Transactions

end PolkadotApi.Subscriptions
