import PolkadotApi.ExtrinsicSubmission
import PolkadotApi.JsonValues

set_option autoImplicit false

namespace PolkadotApi.StorageKeys
open StreamReader HexText MachineModel JsonValues AddressCodec Converters MetadataFormats
open MetadataFactory MetadataLookup ExtrinsicSubmission

inductive Hasher where
  | xxhash
  | blake2
  deriving DecidableEq

/-- `xxh64 data seed` is a 64-bit word. `parse` is `Json::parse`, which gives a
value or the text of an error, and `what` the text of a standard exception. -/
structure Libraries extends Crypto where
  xxh64 : List UInt8 → ℕ → ℕ
  blake2b256 : List UInt8 → FixedBytes 32
  parse : Str → Except Str Json
  what : Exception → Str

variable (lib : Libraries)

section Keys

def wordBytes (word : ℕ) : List UInt8 :=
  (List.range 8).map fun i => UInt8.ofNat (word >>> (8 * i))

def getStorageKey : Hasher → List UInt8 → Str
  | .xxhash, data =>
    lit "0x" ++ upperText (wordBytes (lib.xxh64 data 0) ++ wordBytes (lib.xxh64 data 1))
  | .blake2, data => lit "0x" ++ upperText (lib.blake2b256 data).toList

def getAddressStorageKey (hasher : Hasher) (address : Address) (keyPrefix : Str) : Result Str := do
  let pubk ← getPublicKeyFromAddr lib.blake2b address
  let data ← writeBuf (32 + STRING_SIZE) (keyPrefix ++ pubk.toList)
  return getStorageKey lib hasher data

def sprintfPair (cap : ℕ) (s t : Str) : Result Str :=
  if (cstr s ++ cstr t).length < cap then .ok (cstr s ++ cstr t) else .error .undefined

def shortTypes : List String :=
  ["BlockNumber", "u32", "AccountIndex", "PropIndex", "ReferendumIndex", "ParaId"]

def getMappedStorageKey (hasher : Hasher) (jsonPrm keyPrefix : Str) : Result Str :=
  match lib.parse jsonPrm with
  | .error err => throwing (.application (lit "Invalid parameter string: " ++ err))
  | .ok json =>
    let type := (json.field "type").stringValue
    let value := (json.field "value").stringValue
    if type = lit "AccountId" then do
      let addr ← FixedBytes.copy 48 (value ++ [0])
      getAddressStorageKey lib hasher addr keyPrefix
    else if type ∈ shortTypes.map lit then do
      let data ← sprintfPair 128 keyPrefix value
      return getStorageKey lib hasher data
    else if type = lit "Hash" then do
      let data ← sprintfPair 256 keyPrefix value
      return getStorageKey lib hasher data
    else throwing (.application (lit "Invalid parameter type: " ++ type))

def getPlainStorageKey (hasher : Hasher) (keyPrefix : Str) : Str :=
  getStorageKey lib hasher keyPrefix

theorem getStorageKey_ne_nil (hasher : Hasher) (data : List UInt8) :
    getStorageKey lib hasher data ≠ [] := by
  cases hasher <;> exact List.cons_ne_nil _ _

end Keys

section Lookups

def itemName (storage : Slots Storage) (i : ℕ) : Result Str := do
  let item ← deref (storage i)
  deref item.name

def itemNameV4 (storage : Slots StorageV4) (i : ℕ) : Result Str := do
  let item ← deref (storage i)
  deref item.name

/-- The name compared in round `i` of `getStorageMethodIndex`: as with the calls,
the version is chosen by module `i`. -/
def storageNameAt (md : Metadata) (moduleIndex : ℤ) (i : ℕ) : Result Str :=
  (firstVersion md i
    (fun m _ => do
      let module ← moduleAt m.module moduleIndex
      let function ← deref (module.storage.function i)
      return function.name)
    (fun m _ => moduleAt m.module moduleIndex >>= fun module => itemNameV4 module.storage i)
    (fun m _ => moduleAt m.module moduleIndex >>= fun module => itemName module.storage i)
    (fun m _ => moduleAt m.module moduleIndex >>= fun module => itemName module.storage i)
    (fun m _ => do
      let module ← moduleAt m.module moduleIndex
      let storage ← deref module.storage
      itemName storage.items i)).getD (.ok [])

def getStorageMethodIndex (md : Metadata) (moduleIndex : ℤ) (funcName : Str) : Result ℤ :=
  methodIndexFrom (storageNameAt md moduleIndex) (lower funcName) COLLECTION_SIZE 0

/-- `type.hasher` of version 4 is a number, which the string takes as one character. -/
def hasherText (md : Metadata) (moduleIndex methodIndex : ℤ) : Result Str :=
  match md.metadataV4, md.metadataV5, md.metadataV6, md.metadataV7 with
  | some m, _, _, _ => do
    let module ← moduleAt m.module moduleIndex
    let item ← deref (module.storage methodIndex.toNat)
    let hasher ← deref item.type.hasher
    return [hasher]
  | none, some m, _, _ => do
    let module ← moduleAt m.module moduleIndex
    let item ← deref (module.storage methodIndex.toNat)
    deref item.type.hasher
  | none, none, some m, _ => do
    let module ← moduleAt m.module moduleIndex
    let item ← deref (module.storage methodIndex.toNat)
    deref item.type.hasher
  | none, none, none, some m => do
    let module ← moduleAt m.module moduleIndex
    let storage ← deref module.storage
    let item ← deref (storage.items methodIndex.toNat)
    deref item.type.hasher
  | none, none, none, none => .ok []

/-- The index 0 counts as not found. -/
def getFuncHasher (md : Metadata) (moduleName funcName : Str) : Result Hasher :=
  if md.metadataV0.isSome then .ok .xxhash
  else do
    let moduleIndex ← getModuleIndex md moduleName false
    let hasherStr ←
      if 0 ≤ moduleIndex then do
        let methodIndex ← getStorageMethodIndex md moduleIndex funcName
        if 0 < methodIndex then hasherText md moduleIndex methodIndex else pure []
      else pure []
    return if hasherStr = lit "Blake2_256" then .blake2 else .xxhash

def isPlain (type : Option UInt8) : Result Bool := do
  let type ← deref type
  return decide (type = 0)

def isStateVariablePlain (md : Metadata) (moduleIndex varIndex : ℕ) : Result Bool :=
  (firstVersion md moduleIndex
    (fun _ m => deref (m.storage.function varIndex) >>= fun f => isPlain f.type.typeName)
    (fun _ m => deref (m.storage varIndex) >>= fun item => isPlain item.type.type)
    (fun _ m => deref (m.storage varIndex) >>= fun item => isPlain item.type.type)
    (fun _ m => deref (m.storage varIndex) >>= fun item => isPlain item.type.type)
    (fun _ m => do
      let storage ← deref m.storage
      let item ← deref (storage.items varIndex)
      isPlain item.type.type)).getD
    (throwing (.application (lit "Module + State variable not found: " ++
      lit (toString moduleIndex) ++ lit ":" ++ lit (toString varIndex))))

def getKeys (md : Metadata) (hasher : Hasher) (jsonPrm module variableName : Str) : Result Str := do
  let moduleIndex ← getModuleIndex md module false
  if moduleIndex = -1 then throwing (.application (lit "Module not found"))
  let variableIndex ← getStorageMethodIndex md moduleIndex variableName
  if variableIndex = -1 then throwing (.application (lit "Variable not found"))
  let plain ← isStateVariablePlain md moduleIndex.toNat variableIndex.toNat
  if plain then return getPlainStorageKey lib hasher (module ++ lit " " ++ variableName)
  else getMappedStorageKey lib hasher jsonPrm (module ++ lit " " ++ variableName)

theorem getMappedStorageKey_ne_nil {hasher : Hasher} {jsonPrm keyPrefix key : Str}
    (h : getMappedStorageKey lib hasher jsonPrm keyPrefix = .ok key) : key ≠ [] := by
  unfold getMappedStorageKey at h
  split at h
  · cases h
  · dsimp only at h
    split_ifs at h
    · obtain ⟨addr, -, h⟩ := except_bind_eq_ok h
      obtain ⟨pubk, -, h⟩ := except_bind_eq_ok h
      obtain ⟨data, -, h⟩ := except_bind_eq_ok h
      cases h
      exact getStorageKey_ne_nil lib hasher data
    · obtain ⟨data, -, h⟩ := except_bind_eq_ok h
      cases h
      exact getStorageKey_ne_nil lib hasher data
    · obtain ⟨data, -, h⟩ := except_bind_eq_ok h
      cases h
      exact getStorageKey_ne_nil lib hasher data
    · cases h

theorem getKeys_ne_nil {md : Metadata} {hasher : Hasher} {jsonPrm module variableName key : Str}
    (h : getKeys lib md hasher jsonPrm module variableName = .ok key) : key ≠ [] := by
  obtain ⟨moduleIndex, -, h⟩ := except_bind_eq_ok h
  split_ifs at h
  · cases h
  · obtain ⟨variableIndex, -, h⟩ := except_bind_eq_ok h
    split_ifs at h
    · cases h
    · obtain ⟨plain, -, h⟩ := except_bind_eq_ok h
      cases plain with
      | true =>
        cases h
        exact getStorageKey_ne_nil lib hasher _
      | false => exact getMappedStorageKey_ne_nil lib h

def constFrom (cons : Slots Const) (constName : Str) : ℕ → ℕ → Result ℤ
  | 0, _ => .ok (-1)
  | rounds + 1, i => do
    let moduleConst ← deref (cons i)
    if moduleConst.name = cstr constName then do
      let word ← fromHex 64 moduleConst.value false
      return asLong word
    else constFrom cons constName rounds (i + 1)

/-- Only version 7 is looked at, and the index of a missing module is used. -/
def getMetadataConst (md : Metadata) (module constName : Str) : Result ℤ := do
  let babeModuleIndex ← getModuleIndex md module false
  let m ← deref md.metadataV7
  let module ← moduleAt m.module babeModuleIndex
  constFrom module.cons constName COLLECTION_SIZE 0

end Lookups

end PolkadotApi.StorageKeys
