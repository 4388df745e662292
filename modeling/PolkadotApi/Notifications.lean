import PolkadotApi.Converters
import PolkadotApi.JsonValues

set_option autoImplicit false

namespace PolkadotApi.Notifications
open StreamReader MachineModel JsonValues Converters

structure BlockHeader where
  parentHash : Str
  number : ℕ
  stateRoot : Str
  extrinsicsRoot : Str
  digest : List Str
  deriving DecidableEq

structure ApiItem where
  num : Str
  id : ℤ
  deriving DecidableEq

structure RuntimeVersion where
  api : List ApiItem
  authoringVersion : ℕ
  implName : Str
  implVersion : ℤ
  specName : Str
  specVersion : ℤ
  deriving DecidableEq

structure Era where
  eraProgress : ℤ
  eraLength : ℤ
  deriving DecidableEq

/-- `isEpoch` with the two members that are assigned for its value. -/
inductive SessionOrEpoch where
  | session (sessionProgress sessionLength : ℤ)
  | epoch (epochProgress epochLength : ℤ)
  deriving DecidableEq

inductive Payload where
  | blockNumber (blockNum : ℤ)
  | nonce (nonce : ℕ)
  | balance (balance : ℕ)
  | extrinsic (text : Str)
  | status (text : Str)
  | eraAndSession (era : Era) (session : SessionOrEpoch)
  | finalizedBlock (blockHeader : BlockHeader)
  | runtimeVersion (rtv : RuntimeVersion)
  | storage (value : Str)
  deriving DecidableEq

section Headers

def arrayItems : Json → List Json
  | .array items => items
  | _ => []

def fillItems {α : Type} (read : Json → Result α) (items : List Json) : Result (List α) := do
  let values ← items.mapM read
  if items.length ≤ COLLECTION_SIZE then return values else .error .undefined

def decodeBlockHeader (jsonObject : Json) : Result BlockHeader := do
  let parentHash ← strcpy (jsonObject.field "parentHash").stringValue
  let number ← fromHex 64 (jsonObject.field "number").stringValue true
  let stateRoot ← strcpy (jsonObject.field "stateRoot").stringValue
  let extrinsicsRoot ← strcpy (jsonObject.field "extrinsicsRoot").stringValue
  let digest ← fillItems (fun item => strcpy item.stringValue)
    (arrayItems ((jsonObject.field "digest").field "logs"))
  return ⟨parentHash, number, stateRoot, extrinsicsRoot, digest⟩

def createApiItem (item : Json) : Result ApiItem := do
  let num ← strcpy (item.item 0).stringValue
  return ⟨num, (item.item 1).intValue⟩

def createRuntimeVersion (jsonObject : Json) : Result RuntimeVersion := do
  let specName ← strcpy (jsonObject.field "specName").stringValue
  let implName ← strcpy (jsonObject.field "implName").stringValue
  let api ← fillItems createApiItem (arrayItems (jsonObject.field "apis"))
  return ⟨api, ((jsonObject.field "authoringVersion").intValue % 2 ^ 32).toNat, implName,
    (jsonObject.field "implVersion").intValue, specName, (jsonObject.field "specVersion").intValue⟩

end Headers

section Values

def changeAt (message : Json) (i : ℕ) : Json := ((message.field "changes").item i).item 1

def newHead (message : Json) : Result Payload := do
  let word ← fromHex 64 (message.field "number").stringValue true
  return .blockNumber (asLong word)

def nonceUpdate (message : Json) : Result Payload := do
  let word ← fromHex 64 (changeAt message 0).stringValue false
  return .nonce word

def balanceUpdate (message : Json) : Result Payload := do
  let word ← fromHex 128 (changeAt message 0).stringValue false
  return .balance word

def storageUpdate (message : Json) : Payload := .storage (changeAt message 0).stringValue

/-- Any other status is not reported. -/
def transactionStatus (message : Json) : Option Payload :=
  if mentions message.dump "ready" then some (.status (lit "ready"))
  else if mentions message.dump "finalized" then some (.status (lit "finalized"))
  else none

end Values

section Progress

/-- A `long long` from the result of an operation on two of them. -/
def wrap64 (z : ℤ) : ℤ := asLong (z % 2 ^ 64).toNat

def remainder (a b : ℤ) : Result ℤ :=
  if b = 0 ∨ (a = -2 ^ 63 ∧ b = -1) then .error .undefined else .ok (a.tmod b)

def changeValue (message : Json) (i : ℕ) : Result ℤ :=
  if (changeAt message i).isNull then .ok 0
  else do
    let word ← fromHex 64 (changeAt message i).stringValue false
    return asLong word

def epochUpdate (babeEpochDuration sessionsPerEra : ℤ) (message : Json) : Result Payload := do
  let epochIndex ← changeValue message 0
  let epochOrGenesisStartSlot ← changeValue message 1
  let currentSlot ← changeValue message 2
  let epochStartSlot := wrap64 (wrap64 (babeEpochDuration * epochIndex) + epochOrGenesisStartSlot)
  let sessionProgress := wrap64 (currentSlot - epochStartSlot)
  let epochOfEra ← remainder epochIndex sessionsPerEra
  let eraProgress := wrap64 (wrap64 (epochOfEra * babeEpochDuration) + sessionProgress)
  return .eraAndSession ⟨eraProgress, wrap64 (sessionsPerEra * babeEpochDuration)⟩
    (.epoch sessionProgress babeEpochDuration)

/-- Nothing is reported while one of the five values is not positive. -/
def sessionUpdate (bestBlockNum : ℤ) (message : Json) : Result (Option Payload) := do
  let lastLengthChange ← changeValue message 0
  let sessionLength ← changeValue message 1
  let currentEra ← changeValue message 2
  let sessionsPerEra ← changeValue message 3
  let currentIndexSubcription ← changeValue message 4
  if 0 < lastLengthChange ∧ 0 < sessionLength ∧ 0 < currentEra ∧ 0 < sessionsPerEra ∧
      0 < currentIndexSubcription then
    let sessionProgress ← remainder
      (wrap64 (wrap64 (bestBlockNum - lastLengthChange) + sessionLength)) sessionLength
    let sessionOfEra ← remainder currentIndexSubcription sessionsPerEra
    let eraProgress := wrap64 (wrap64 (sessionOfEra * sessionLength) + sessionProgress)
    return some (.eraAndSession ⟨eraProgress, wrap64 (sessionsPerEra * sessionLength)⟩
      (.session sessionProgress sessionLength))
  else return none

end Progress

end PolkadotApi.Notifications
