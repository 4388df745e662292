import PolkadotApi.ScaleCodec

set_option autoImplicit false

/-!
Structures are named after the C++ ones without their version suffix where the
versions agree. A member that `new` leaves indeterminate is `none` until a
parser assigns it; a null `unique_ptr` is `none` in its slot.
-/
namespace PolkadotApi.MetadataFormats
open StreamReader MachineModel ScaleCodec

structure EventArg where
  name : Option Str := none
  args : Slots Str := Slots.empty
  documentation : Slots Str := Slots.empty

structure FunctionCallArg where
  name : Str
  type : Str

structure Call where
  name : Option Str := none
  args : Slots FunctionCallArg := Slots.empty
  documentation : Slots Str := Slots.empty

structure Const where
  name : Str
  type : Str
  value : Str
  documentation : Slots Str

structure FuncTypeV4 where
  type : Option UInt8 := none
  hasher : Option UInt8 := none
  key1 : Option Str := none
  key2 : Option Str := none

structure StorageV4 where
  name : Option Str := none
  modifier : Option UInt8 := none
  type : FuncTypeV4 := {}
  fallback : Option Str := none
  documentation : Slots Str := Slots.empty

/-- Shared by versions 5, 6 and 7. -/
structure FuncType where
  type : Option UInt8 := none
  hasher : Option Str := none
  key1 : Option Str := none
  key2 : Option Str := none
  value : Option Str := none
  key2hasher : Option Str := none
  isLinked : Option Bool := none

structure Storage where
  name : Option Str := none
  modifier : Option UInt8 := none
  type : FuncType := {}
  fallback : Option Str := none
  documentation : Slots Str := Slots.empty

structure StorageCollectionV7 where
  collectionPrefix : Str
  items : Slots Storage

structure Module (S : Type) where
  name : Str
  modulePrefix : Str
  storage : Slots S
  call : Slots Call
  ev : Slots EventArg

abbrev ModuleV4 := Module StorageV4

abbrev ModuleV5 := Module Storage

structure ModuleV6 extends Module Storage where
  cons : Slots Const

structure ModuleV7 where
  name : Str
  storage : Option StorageCollectionV7
  call : Slots Call
  ev : Slots EventArg
  cons : Slots Const

structure MD (M : Type) where
  module : Slots M

abbrev MDV4 := MD ModuleV4

abbrev MDV5 := MD ModuleV5

abbrev MDV6 := MD ModuleV6

abbrev MDV7 := MD ModuleV7

variable {m : Type → Type} [Monad m] [Storing m] [Parsing m]

section Texts

def extractText : m Str := do
  let len ← decodeCompactInteger
  extractString len

/-- A length, that many bytes, and the `strcpy` of them into a member. -/
def readText : m Str := do
  let text ← extractText
  copy text

/-- The next characters of the stream kept as hexadecimal text; the count is
converted to `size_t`. -/
def rawText (count : ℤ) : m Str := do
  let raw ← chars (count % 2 ^ 64).toNat
  copy raw

/-- The default value of a storage entry; its length stays a `long`. -/
def fallbackText : m Str := do
  let fallbackLen ← decodeCompactInteger
  rawText (fallbackLen * 2)

/-- The value of a constant; its length is an `int`. -/
def constText : m Str := do
  let valueLen ← decodeCompactInteger
  rawText (asInt (asInt valueLen * 2))

def documents : m (Slots Str) := do
  let docCount ← decodeCompactInteger
  storeEach COLLECTION_SIZE docCount readText

end Texts

section Entries

def functionCallArg : m FunctionCallArg := do
  let name ← readText
  let type ← readText
  return ⟨name, type⟩

def getCall : m Call := do
  let name ← readText
  let count ← decodeCompactInteger
  let args ← storeEach STRING_SIZE (asInt count) functionCallArg
  let documentation ← documents
  return { name := some name, args, documentation }

def getCallV4 : m Call := getCall

def getCallV5 : m Call := getCall

def getCallV6 : m Call := getCall

def getCallV7 : m Call := getCall

def getEvent : m EventArg := do
  let name ← readText
  let count ← decodeCompactInteger
  let args ← storeEach COLLECTION_SIZE (asInt count) readText
  let documentation ← documents
  return { name := some name, args, documentation }

def getEventV4 : m EventArg := getEvent

def getEventV5 : m EventArg := getEvent

def getEventV6 : m EventArg := getEvent

def getEventV7 : m EventArg := getEvent

def getConsts : m Const := do
  let name ← readText
  let type ← readText
  let value ← constText
  let documentation ← documents
  return ⟨name, type, value, documentation⟩

def getConstsV6 : m Const := getConsts

def getConstsV7 : m Const := getConsts

def secondKey (type : UInt8) : m (Option (Str × UInt8)) :=
  if type ≠ 0 then do
    let key2 ← readText
    let hasher ← nextByte
    return some (key2, hasher)
  else return none

def getStorageV4 : m StorageV4 := do
  let name ← readText
  let modifier ← nextByte
  let type ← nextByte
  let key1 ← readText
  let second ← secondKey type
  let fallback ← fallbackText
  let documentation ← documents
  return {
    name := some name, modifier := some modifier,
    type := {
      type := some type, hasher := second.map Prod.snd, key1 := some key1,
      key2 := second.map Prod.fst },
    fallback := some fallback, documentation }

def typeByte (hasSecondType : UInt8) : m UInt8 :=
  if hasSecondType ≠ 0 then nextByte else pure 0

/-- A double map's second key is copied to `type.value` and then overwritten. -/
def mapValue (hasSecondType : UInt8) : m (Option Str) :=
  if hasSecondType = 1 then do
    let value ← readText
    return some value
  else if hasSecondType = 2 then do
    let _ ← readText
    let value ← readText
    return some value
  else return none

def linkedFlag (hasSecondType : UInt8) : m (Option Bool) :=
  if hasSecondType ≠ 0 then do
    let linked ← nextByte
    return some (linked ≠ 0)
  else return none

def getStorage : m Storage := do
  let name ← readText
  let modifier ← nextByte
  let hasSecondType ← nextByte
  let type ← typeByte hasSecondType
  let key1 ← readText
  let value ← mapValue hasSecondType
  let isLinked ← linkedFlag hasSecondType
  let fallback ← fallbackText
  let documentation ← documents
  return {
    name := some name, modifier := some modifier,
    type := { type := some type, key1 := some key1, value, isLinked },
    fallback := some fallback, documentation }

def getStorageV5 : m Storage := getStorage

def getStorageV6 : m Storage := getStorage

def getStorageV7 : m Storage := getStorage

end Entries

section Modules

/-- A list behind a presence flag, with the two locals that steer its loop. -/
structure Section (α : Type) where
  isset : UInt8
  count : ℤ
  items : Slots α

/-- Versions 4 to 6 put one freshly allocated item into an empty present list. -/
def getSection {α : Type} (fresh : α) (item : m α) : m (Section α) := do
  let isset ← nextByte
  if isset ≠ 0 then
    let count ← decodeCompactInteger
    if asInt count = 0 then
      inside COLLECTION_SIZE 0
      return ⟨isset, asInt count, Slots.ofList [fresh]⟩
    else
      let items ← storeEach COLLECTION_SIZE (asInt count) item
      return ⟨isset, asInt count, items⟩
  else return ⟨isset, 0, Slots.empty⟩

def getSectionV7 {α : Type} (item : m α) : m (Section α) := do
  let isset ← nextByte
  if isset ≠ 0 then
    let count ← decodeCompactInteger
    let items ← storeEach COLLECTION_SIZE (asInt count) item
    return ⟨isset, asInt count, items⟩
  else return ⟨isset, 0, Slots.empty⟩

/-- A module together with the locals `callsIsset` and `callsCount` of the round
that read it. -/
structure Traced (M : Type) where
  module : M
  callsIsset : UInt8
  callsCount : ℤ

def consts (item : m Const) : m (Slots Const) := do
  let constsCount ← decodeCompactInteger
  storeEach COLLECTION_SIZE constsCount item

def getModule {S : Type} (fresh : S) (storageItem : m S) (callItem : m Call)
    (eventItem : m EventArg) : m (Traced (Module S)) := do
  let name ← readText
  let modulePrefix ← readText
  let storage ← getSection fresh storageItem
  let calls ← getSection {} callItem
  let events ← getSection {} eventItem
  return ⟨⟨name, modulePrefix, storage.items, calls.items, events.items⟩, calls.isset, calls.count⟩

def moduleV4 : m (Traced ModuleV4) := getModule {} getStorageV4 getCallV4 getEventV4

def moduleV5 : m (Traced ModuleV5) := getModule {} getStorageV5 getCallV5 getEventV5

def moduleV6 : m (Traced ModuleV6) := do
  let base ← getModule {} getStorageV6 getCallV6 getEventV6
  let cons ← consts getConstsV6
  return ⟨⟨base.module, cons⟩, base.callsIsset, base.callsCount⟩

def storageV7 : m (Option StorageCollectionV7) := do
  let storageIsset ← nextByte
  if storageIsset ≠ 0 then
    let collectionPrefix ← readText
    let storageLen ← decodeCompactInteger
    let items ← storeEach COLLECTION_SIZE (asInt storageLen) getStorageV7
    return some ⟨collectionPrefix, items⟩
  else return none

def moduleV7 : m (Traced ModuleV7) := do
  let name ← readText
  let storage ← storageV7
  let calls ← getSectionV7 getCallV7
  let events ← getSectionV7 getEventV7
  let cons ← consts getConstsV7
  return ⟨⟨name, storage, calls.items, events.items, cons⟩, calls.isset, calls.count⟩

/-- The five bytes in front of the modules; the last one is the version. -/
def magicBytes : m UInt8 := do
  let _ ← nextByte
  let _ ← nextByte
  let _ ← nextByte
  let _ ← nextByte
  nextByte

/-- Each module is stored before its fields are read. -/
def moduleList {M : Type} (body : m (Traced M)) : m (Slots (Traced M)) := do
  let mLen ← decodeCompactInteger
  claimEach COLLECTION_SIZE (asInt mLen) body

def modulesOf {M : Type} (body : m (Traced M)) : m (Slots (Traced M)) := do
  let _ ← magicBytes
  moduleList body

def traceModules {M : Type} (body : Reader (Traced M)) (str : Str) : Result (Slots (Traced M)) :=
  (modulesOf body str).map Prod.fst

def forget {M : Type} (modules : Slots (Traced M)) : MD M :=
  ⟨fun i => (modules i).map Traced.module⟩

def metadata {M : Type} (body : m (Traced M)) : m (MD M) := do
  let modules ← modulesOf body
  return forget modules

def fillMetadata {M : Type} (body : Reader (Traced M)) (str : Str) : Result (MD M) :=
  (metadata body str).map Prod.fst

theorem fillMetadata_eq {M : Type} (body : Reader (Traced M)) (str : Str) :
    fillMetadata body str = (traceModules body str).map forget := by
  rw [fillMetadata, metadata, traceModules]
  cases h : modulesOf body str with
  | error e =>
    rw [bind_error h]
    rfl
  | ok r =>
    rw [bind_ok h]
    rfl

def fillV4Metadata : Str → Result MDV4 := fillMetadata moduleV4

def fillV5Metadata : Str → Result MDV5 := fillMetadata moduleV5

def fillV6Metadata : Str → Result MDV6 := fillMetadata moduleV6

def fillV7Metadata : Str → Result MDV7 := fillMetadata moduleV7

inductive Layout where
  | v4
  | v5
  | v6
  | v7
  deriving DecidableEq

namespace Layout

def number : Layout → UInt8
  | v4 => 4
  | v5 => 5
  | v6 => 6
  | v7 => 7

abbrev Carrier : Layout → Type
  | v4 => ModuleV4
  | v5 => ModuleV5
  | v6 => ModuleV6
  | v7 => ModuleV7

def body : (layout : Layout) → Reader (Traced layout.Carrier)
  | v4 => moduleV4
  | v5 => moduleV5
  | v6 => moduleV6
  | v7 => moduleV7

def moduleName : (layout : Layout) → layout.Carrier → Str
  | v4 => Module.name
  | v5 => Module.name
  | v6 => fun m => m.name
  | v7 => ModuleV7.name

def moduleCalls : (layout : Layout) → layout.Carrier → Slots Call
  | v4 => Module.call
  | v5 => Module.call
  | v6 => fun m => m.call
  | v7 => ModuleV7.call

end Layout

end Modules

section VersionZero

structure EventArgV0 where
  name : Str
  argItem : Slots Str
  eventDoc : Slots Str

structure OuterEventV0 where
  name : Str
  eventArg : Slots EventArgV0

structure FunctionCallV0 where
  id : UInt8
  name : Str
  args : Slots FunctionCallArg
  documentation : Slots Str

structure FuncTypeV0 where
  typeName : Option UInt8 := none
  key : Option Str := none
  value : Option Str := none

structure FunctionV0 where
  name : Str
  type : FuncTypeV0
  fallback : Str
  documentation : Slots Str

structure CallV0 where
  name : Str
  fn1 : Slots FunctionCallV0

structure ModuleContentV0 where
  name : Str
  call : CallV0

structure StorageV0 where
  storagePrefix : Option Str := none
  function : Slots FunctionV0 := Slots.empty

structure ModuleV0 where
  modulePrefix : Str
  module : ModuleContentV0
  storage : StorageV0

structure DispachCallV0 where
  name : Str
  callPrefix : Str
  index : UInt8

structure OuterEventWrapperV0 where
  name : Str
  eventArg : Slots OuterEventV0

structure OuterDispachV0 where
  name : Str
  call : Slots DispachCallV0

structure MDV0 where
  oew : OuterEventWrapperV0
  module : Slots ModuleV0
  dispach : OuterDispachV0

def eventArgV0 : m EventArgV0 := do
  let name ← readText
  let argitemsize ← decodeCompactInteger
  let argItem ← storeEach COLLECTION_SIZE argitemsize readText
  let eventDoc ← documents
  return ⟨name, argItem, eventDoc⟩

def getEventV0 : m OuterEventV0 := do
  let name ← readText
  let eventArgCount ← decodeCompactInteger
  let eventArg ← storeEach COLLECTION_SIZE (asInt eventArgCount) eventArgV0
  return ⟨name, eventArg⟩

/-- The argument's name is stored before its type is read. -/
def functionArgV0 (ai : ℕ) (args : Slots FunctionCallArg) : m (Slots FunctionCallArg) := do
  let name ← readText
  inside COLLECTION_SIZE ai
  let type ← readText
  return Function.update args ai (some ⟨name, type⟩)

def functionCallV0 (i : ℕ) (fn1 : Slots FunctionCallV0) : m (Slots FunctionCallV0) := do
  let id ← nextWord
  inside COLLECTION_SIZE i
  let name ← readText
  let argsCount ← decodeCompactInteger
  let args ← forCount (asInt argsCount) functionArgV0 Slots.empty
  let docCount ← decodeCompactInteger
  let documentation ← storeEach COLLECTION_SIZE (asInt docCount) readText
  return Function.update fn1 i (some ⟨id, name, args, documentation⟩)

/-- `storage.function->type->typeName = type` goes to the first function
whatever the index of the round. -/
def setTypeName (type : UInt8) (function : Slots FunctionV0) : Slots FunctionV0 :=
  Function.update function 0
    ((function 0).map (fun f => { f with type := { f.type with typeName := some type } }))

def secondType (hasSecondType : UInt8) : m Str :=
  if hasSecondType ≠ 0 then extractText else pure []

def typeTexts (type : UInt8) (type1 type2 : Str) : m FuncTypeV0 :=
  if type = 0 then do
    let value ← copy type1
    return { value := some value }
  else do
    let value ← copy type2
    let key ← copy type1
    return { key := some key, value := some value }

def storageFunctionV0 (i : ℕ) (function : Slots FunctionV0) : m (Slots FunctionV0) := do
  let name ← readText
  inside COLLECTION_SIZE i
  let type ← nextByte
  let hasSecondType ← nextByte
  let type1 ← extractText
  let type2 ← secondType hasSecondType
  let texts ← typeTexts type type1 type2
  let fallback ← fallbackText
  let documentation ← documents
  return setTypeName type (Function.update function i (some ⟨name, texts, fallback, documentation⟩))

def getStorageV0 : m StorageV0 := do
  let storageIsset ← nextByte
  if storageIsset = 0 then return {}
  else
    let storagePrefix ← readText
    let storageFuncsCount ← decodeCompactInteger
    let function ← forCount (asInt storageFuncsCount) storageFunctionV0 Slots.empty
    return { storagePrefix := some storagePrefix, function }

def getModuleV0 : m ModuleV0 := do
  let modulePrefix ← readText
  let moduleName ← readText
  let callName ← readText
  let callFuntionsCount ← decodeCompactInteger
  let fn1 ← forCount (asInt callFuntionsCount) functionCallV0 Slots.empty
  let storage ← getStorageV0
  return ⟨modulePrefix, ⟨moduleName, callName, fn1⟩, storage⟩

def getOuterDispachV0 : m DispachCallV0 := do
  let name ← readText
  let callPrefix ← readText
  let index ← nextWord
  return ⟨name, callPrefix, index⟩

def metadataV0 : m MDV0 := do
  let eventsName ← readText
  let eventsLen ← decodeCompactInteger
  let eventArg ← storeEach COLLECTION_SIZE (asInt eventsLen) getEventV0
  let modulesLen ← decodeCompactInteger
  let module ← storeEach COLLECTION_SIZE (asInt modulesLen) getModuleV0
  let dispachName ← readText
  let outerDispachLen ← decodeCompactInteger
  let call ← storeEach COLLECTION_SIZE (asInt outerDispachLen) getOuterDispachV0
  return ⟨⟨eventsName, eventArg⟩, module, ⟨dispachName, call⟩⟩

def fillV0Metadata (str : Str) : Result MDV0 := (metadataV0 (m := Reader) str).map Prod.fst

end VersionZero

end PolkadotApi.MetadataFormats
