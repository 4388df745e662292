import PolkadotApi.AddressCodec
import PolkadotApi.Converters
import PolkadotApi.MetadataLookup

set_option autoImplicit false

/-!
The submission functions from the end of their call of `getAccountNonce` on, with its
result as an argument. Blake2b and `sr25519_sign` are fixed functions. A submission
records the request that is sent and the message that was handed to `sr25519_sign`.
-/
namespace PolkadotApi.ExtrinsicSubmission
open HexText MachineModel ScaleCodec AddressCodec Converters MetadataFactory MetadataLookup

structure Crypto where
  blake2b : Hash
  sr25519Sign : PublicKey → List UInt8 → List UInt8 → FixedBytes 64

inductive ExtrinsicEra where
  | immortal
  | mortal
  deriving DecidableEq

def ExtrinsicEra.byte : ExtrinsicEra → UInt8
  | immortal => 0
  | mortal => 1

def SIGNATURE_VERSION : UInt8 := 0x81

def ADDRESS_SEPARATOR : UInt8 := 0xFF

def MAX_METHOD_BYTES_SZ : ℕ := 2048

def DEFAULT_FIXED_EXSTRINSIC_SIZE : ℕ := 103

structure ProtocolParameters where
  metadata : Metadata
  balanceModuleIndex : ℤ
  transferMethodIndex : ℤ
  genesisBlockHash : FixedBytes 32

/-- The part of `connect` that looks the transfer call up. -/
def connectParameters (metadata : Metadata) (genesisBlockHash : FixedBytes 32) :
    Result ProtocolParameters := do
  let balanceModuleIndex ← getModuleIndex metadata (lit "Balances") true
  let absoluteIndex ← getModuleIndex metadata (lit "Balances") false
  let transferMethodIndex ← getCallMethodIndex metadata absoluteIndex (lit "transfer")
  return ⟨metadata, balanceModuleIndex, transferMethodIndex, genesisBlockHash⟩

structure SignaturePayload where
  nonce : ℕ
  methodBytesLength : UInt8
  methodBytes : List UInt8
  era : ExtrinsicEra
  authoringBlockHash : FixedBytes 32

/-- The length of the method is a byte of its own, and only that many method
bytes are copied. -/
def SignaturePayload.serializeBinary (sp : SignaturePayload) : Result (List UInt8) := do
  let compactNonce ← encodeCompactInteger sp.nonce
  let method ← if sp.methodBytesLength.toNat ≤ sp.methodBytes.length then
      .ok (sp.methodBytes.take sp.methodBytesLength.toNat) else .error .undefined
  return writeCompactToBuf compactNonce ++ (method ++ ([sp.era.byte] ++ sp.authoringBlockHash.toList))

def signedHeader (compactLength : CompactIntegerLEBytes) (version : UInt8) (signer : PublicKey)
    (signature : FixedBytes 64) (compactNonce : CompactIntegerLEBytes) (era : ExtrinsicEra) :
    List UInt8 :=
  writeCompactToBuf compactLength ++ ([version, ADDRESS_SEPARATOR] ++ (signer.toList ++
    (signature.toList ++ (writeCompactToBuf compactNonce ++ [era.byte]))))

structure Submission where
  rpcMethod : Str
  extrinsic : Str
  signedMessage : List UInt8
  deriving DecidableEq

def hexExtrinsic (teBytes : List UInt8) : Str := lit "0x" ++ upperText teBytes

/-- `getAccountNonce` for an account that is not subscribed yet: the address is decoded
for the storage key before the node is asked. -/
def accountNonce (crypto : Crypto) (sender : Str) (answered : ℕ) : Result ℕ := do
  let _ ← getPublicKeyFromStr crypto.blake2b sender
  return answered

section Generic

def methodHeader (metadata : Metadata) (module method : Str) : Result (List UInt8) := do
  let absoluteIndex ← getModuleIndex metadata module false
  let moduleIndex ← getModuleIndex metadata module true
  let methodIndex ← getCallMethodIndex metadata absoluteIndex method
  return [asByte moduleIndex, asByte methodIndex, ADDRESS_SEPARATOR]

structure CallRequest where
  encodedMethodBytes : List UInt8
  module : Str
  method : Str
  sender : Str
  privateKey : Str

structure SignedCall where
  compactNonce : CompactIntegerLEBytes
  completeMessage : List UInt8
  senderPK : PublicKey
  payload : List UInt8
  signature : FixedBytes 64

def signCall (crypto : Crypto) (prm : ProtocolParameters) (nonce : ℕ) (call : CallRequest) :
    Result SignedCall := do
  let compactNonce ← encodeCompactInteger nonce
  let mmBuf ← methodHeader prm.metadata call.module call.method
  let completeMessage ← writeBuf MAX_METHOD_BYTES_SZ (mmBuf ++ call.encodedMethodBytes)
  let senderPK ← getPublicKeyFromStr crypto.blake2b call.sender
  let payload ← SignaturePayload.serializeBinary
    ⟨nonce, UInt8.ofNat (call.encodedMethodBytes.length + 3), completeMessage, .immortal,
      prm.genesisBlockHash⟩
  let secretKey ← fromHexVector call.privateKey true
  return ⟨compactNonce, completeMessage, senderPK, payload,
    crypto.sr25519Sign senderPK secretKey payload⟩

/-- The second half, which the two functions enter with different lengths. -/
def sendCall (length : ℕ) (rpcMethod : Str) (sc : SignedCall) : Result Submission := do
  let compactLength ← encodeCompactInteger length
  let header := signedHeader compactLength SIGNATURE_VERSION sc.senderPK sc.signature
    sc.compactNonce .immortal
  let teBytes ← writeBuf MAX_METHOD_BYTES_SZ (header ++ sc.completeMessage)
  return ⟨rpcMethod, hexExtrinsic teBytes, sc.payload⟩

def submitAndSubcribeExtrinsic (crypto : Crypto) (prm : ProtocolParameters) (nonce : ℕ)
    (call : CallRequest) : Result Submission := do
  let sc ← signCall crypto prm nonce call
  sendCall (DEFAULT_FIXED_EXSTRINSIC_SIZE + call.encodedMethodBytes.length)
    (lit "author_submitAndWatchExtrinsic") sc

def submitExtrinsic (crypto : Crypto) (prm : ProtocolParameters) (nonce : ℕ)
    (call : CallRequest) : Result Submission := do
  let sc ← signCall crypto prm nonce call
  sendCall (DEFAULT_FIXED_EXSTRINSIC_SIZE + call.encodedMethodBytes.length +
    sc.compactNonce.length - 1) (lit "author_submitExtrinsic") sc

end Generic

section Transfer

structure TransferExtrinsic where
  moduleIndex : UInt8
  methodIndex : UInt8
  receiverPublicKey : PublicKey
  amount : ℕ
  version : UInt8
  signerPublicKey : PublicKey
  sr25519Signature : FixedBytes 64
  nonce : ℕ
  era : ExtrinsicEra

namespace TransferExtrinsic

def serializeMethodBinary (te : TransferExtrinsic) : Result (List UInt8) := do
  let compactAmount ← encodeCompactInteger te.amount
  return [te.moduleIndex, te.methodIndex, ADDRESS_SEPARATOR] ++
    (te.receiverPublicKey.toList ++ writeCompactToBuf compactAmount)

/-- The bytes written, with the value stored in `length`. -/
def serializeBinary (te : TransferExtrinsic) : Result (ℕ × List UInt8) := do
  let compactAmount ← encodeCompactInteger te.amount
  let compactNonce ← encodeCompactInteger te.nonce
  let length := 134 + compactAmount.length + compactNonce.length
  let compactLength ← encodeCompactInteger length
  let method ← te.serializeMethodBinary
  return (length, signedHeader compactLength te.version te.signerPublicKey te.sr25519Signature
    compactNonce te.era ++ method)

end TransferExtrinsic

def signAndSendTransfer (crypto : Crypto) (prm : ProtocolParameters) (nonce : ℕ)
    (sender privateKey recipient : Str) (amount : ℕ) : Result Submission := do
  let recipientPK ← getPublicKeyFromStr crypto.blake2b recipient
  let senderPK ← getPublicKeyFromStr crypto.blake2b sender
  let te : TransferExtrinsic := ⟨asByte prm.balanceModuleIndex, asByte prm.transferMethodIndex,
    recipientPK, amount, SIGNATURE_VERSION, senderPK, FixedBytes.zero 64, nonce, .immortal⟩
  let methodBytes ← te.serializeMethodBinary
  let payload ← SignaturePayload.serializeBinary
    ⟨nonce, UInt8.ofNat methodBytes.length, methodBytes, .immortal, prm.genesisBlockHash⟩
  let secretKey ← fromHexVector privateKey true
  let te := { te with sr25519Signature := crypto.sr25519Sign senderPK secretKey payload }
  let (_, teBytes) ← te.serializeBinary
  return ⟨lit "author_submitAndWatchExtrinsic", hexExtrinsic teBytes, payload⟩

end Transfer

end PolkadotApi.ExtrinsicSubmission
