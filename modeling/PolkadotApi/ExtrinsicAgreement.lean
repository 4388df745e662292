import PolkadotApi.AddressRoundTrip
import PolkadotApi.ExtrinsicSubmission
import PolkadotApi.ScaleRoundTrip

set_option autoImplicit false

namespace PolkadotApi.ExtrinsicAgreement
open StreamReader HexText MachineModel ScaleCodec ScaleRoundTrip AddressCodec AddressRoundTrip
open Converters MetadataFactory MetadataLookup ExtrinsicSubmission

section Signing

theorem methodHeader_length {metadata : Metadata} {module method : Str} {mm : List UInt8}
    (h : methodHeader metadata module method = .ok mm) : mm.length = 3 := by
  obtain ⟨_, -, h₁⟩ := except_bind_eq_ok h
  obtain ⟨_, -, h₂⟩ := except_bind_eq_ok h₁
  obtain ⟨_, -, h₃⟩ := except_bind_eq_ok h₂
  cases h₃
  rfl

/-- The method bytes that reach the signed message. -/
def signedPart (method : List UInt8) : List UInt8 := method.take (method.length % 256)

def message (compactNonce : CompactIntegerLEBytes) (method : List UInt8)
    (genesisBlockHash : FixedBytes 32) : List UInt8 :=
  writeCompactToBuf compactNonce ++ (method ++ ([ExtrinsicEra.immortal.byte] ++
    genesisBlockHash.toList))

theorem serializeBinary_eq {nonce : ℕ} {compactNonce : CompactIntegerLEBytes}
    (h : encodeCompactInteger nonce = .ok compactNonce) (method : List UInt8)
    (genesisBlockHash : FixedBytes 32) :
    SignaturePayload.serializeBinary
        ⟨nonce, UInt8.ofNat method.length, method, .immortal, genesisBlockHash⟩ =
      .ok (message compactNonce (signedPart method) genesisBlockHash) := by
  have hlength : (UInt8.ofNat method.length).toNat = method.length % 256 := UInt8.toNat_ofNat'
  have hle : method.length % 256 ≤ method.length := Nat.mod_le _ _
  unfold SignaturePayload.serializeBinary
  simp only [h, hlength, if_pos hle, except_ok_bind]
  rfl

variable {crypto : Crypto} {prm : ProtocolParameters} {nonce : ℕ} {call : CallRequest}

theorem signCall_eq_ok {sc : SignedCall} (h : signCall crypto prm nonce call = .ok sc) :
    ∃ mm secretKey, encodeCompactInteger nonce = .ok sc.compactNonce ∧
      methodHeader prm.metadata call.module call.method = .ok mm ∧
      sc.completeMessage = mm ++ call.encodedMethodBytes ∧
      sc.completeMessage.length ≤ MAX_METHOD_BYTES_SZ ∧
      getPublicKeyFromStr crypto.blake2b call.sender = .ok sc.senderPK ∧
      fromHexVector call.privateKey true = .ok secretKey ∧
      sc.payload = message sc.compactNonce (signedPart sc.completeMessage) prm.genesisBlockHash ∧
      sc.signature = crypto.sr25519Sign sc.senderPK secretKey sc.payload := by
  obtain ⟨compactNonce, hnonce, h₁⟩ := except_bind_eq_ok h
  obtain ⟨mm, hmm, h₂⟩ := except_bind_eq_ok h₁
  obtain ⟨completeMessage, hbuf, h₃⟩ := except_bind_eq_ok h₂
  obtain ⟨senderPK, hsender, h₄⟩ := except_bind_eq_ok h₃
  obtain ⟨payload, hpayload, h₅⟩ := except_bind_eq_ok h₄
  obtain ⟨secretKey, hkey, h₆⟩ := except_bind_eq_ok h₅
  cases h₆
  obtain ⟨hfit, hmessage⟩ := writeBuf_eq_ok hbuf
  have hlength : call.encodedMethodBytes.length + 3 = completeMessage.length := by
    rw [hmessage, List.length_append, methodHeader_length hmm, Nat.add_comm]
  rw [hlength, serializeBinary_eq hnonce] at hpayload
  refine ⟨mm, secretKey, hnonce, hmm, hmessage, ?_, hsender, hkey, ?_, rfl⟩
  · change completeMessage.length ≤ _
    rw [hmessage]
    exact hfit
  · exact (Except.ok.inj hpayload).symm

theorem signCall_message_length {sc : SignedCall} (h : signCall crypto prm nonce call = .ok sc) :
    sc.completeMessage.length = call.encodedMethodBytes.length + 3 := by
  obtain ⟨mm, -, -, hmm, hmessage, -⟩ := signCall_eq_ok h
  rw [hmessage, List.length_append, methodHeader_length hmm, Nat.add_comm]

theorem signCall_eq {compactNonce : CompactIntegerLEBytes} {mm : List UInt8}
    (hnonce : encodeCompactInteger nonce = .ok compactNonce)
    (hmm : methodHeader prm.metadata call.module call.method = .ok mm)
    (hfit : call.encodedMethodBytes.length + 3 ≤ MAX_METHOD_BYTES_SZ) :
    signCall crypto prm nonce call = do
      let method := mm ++ call.encodedMethodBytes
      let payload := message compactNonce (signedPart method) prm.genesisBlockHash
      let senderPK ← getPublicKeyFromStr crypto.blake2b call.sender
      let secretKey ← fromHexVector call.privateKey true
      return ⟨compactNonce, method, senderPK, payload,
        crypto.sr25519Sign senderPK secretKey payload⟩ := by
  have hlength : (mm ++ call.encodedMethodBytes).length = call.encodedMethodBytes.length + 3 := by
    rw [List.length_append, methodHeader_length hmm, Nat.add_comm]
  have hbuf : writeBuf MAX_METHOD_BYTES_SZ (mm ++ call.encodedMethodBytes) =
      .ok (mm ++ call.encodedMethodBytes) := by
    apply writeBuf_ok
    omega
  have hpayload := serializeBinary_eq hnonce (mm ++ call.encodedMethodBytes) prm.genesisBlockHash
  rw [hlength] at hpayload
  simp only [signCall, hnonce, hmm, hbuf, hpayload, except_ok_bind]

end Signing

section Sending

def sentTail (sc : SignedCall) : List UInt8 :=
  [SIGNATURE_VERSION, ADDRESS_SEPARATOR] ++ (sc.senderPK.toList ++ (sc.signature.toList ++
    (writeCompactToBuf sc.compactNonce ++ ([ExtrinsicEra.immortal.byte] ++ sc.completeMessage))))

theorem sendCall_eq {length : ℕ} (h : 63 < length) (h' : length ≤ 0x3FFF) (rpcMethod : Str)
    (sc : SignedCall) :
    sendCall length rpcMethod sc =
      (writeBuf MAX_METHOD_BYTES_SZ (doubleBytes length ++ sentTail sc)).map
        (fun teBytes => ⟨rpcMethod, hexExtrinsic teBytes, sc.payload⟩) := by
  obtain ⟨ci, hci, -, hwrite⟩ := encode_double h h'
  rw [sendCall, hci]
  change (writeBuf MAX_METHOD_BYTES_SZ (signedHeader ci SIGNATURE_VERSION sc.senderPK
    sc.signature sc.compactNonce .immortal ++ sc.completeMessage) >>= _) = _
  simp only [signedHeader, hwrite, List.append_assoc, doubleBytes, sentTail]
  cases writeBuf MAX_METHOD_BYTES_SZ _ <;> rfl

theorem sendCall_extrinsic {length : ℕ} (h : 63 < length) (h' : length ≤ 0x3FFF) (rpcMethod : Str)
    (sc : SignedCall) :
    (sendCall length rpcMethod sc).map Submission.extrinsic =
      (writeBuf MAX_METHOD_BYTES_SZ (doubleBytes length ++ sentTail sc)).map hexExtrinsic := by
  rw [sendCall_eq h h']
  cases writeBuf MAX_METHOD_BYTES_SZ (doubleBytes length ++ sentTail sc) <;> rfl

theorem doubleBytes_injective {m n : ℕ} (hm : m < 4096) (hn : n < 4096)
    (h : doubleBytes m = doubleBytes n) : m = n := by
  simp only [doubleBytes, List.cons.injEq, and_true] at h
  have hlow := congrArg UInt8.toNat h.1
  have hhigh := congrArg UInt8.toNat h.2
  simp only [UInt8.toNat_ofNat'] at hlow hhigh
  omega

theorem hexExtrinsic_injective {as bs : List UInt8} (h : hexExtrinsic as = hexExtrinsic bs) :
    as = bs := by
  have htext : upperText as = upperText bs := List.append_cancel_left h
  rw [← hexBytes_spells (DigitSet.upper.spells_text as),
    ← hexBytes_spells (DigitSet.upper.spells_text bs)]
  exact congrArg hexBytes htext

/-- Two texts that differ in their length field only are equal when the lengths
are, or when neither fits the buffer. -/
theorem sentText_eq_iff {m n : ℕ} (hm : m < 4096) (hn : n < 4096) (cap : ℕ) (tail : List UInt8) :
    (writeBuf cap (doubleBytes m ++ tail)).map hexExtrinsic =
        (writeBuf cap (doubleBytes n ++ tail)).map hexExtrinsic ↔
      m = n ∨ ¬ 2 + tail.length ≤ cap := by
  have hlength : ∀ k, (doubleBytes k ++ tail).length = 2 + tail.length := by
    intro k
    rw [List.length_append]
    rfl
  by_cases hroom : 2 + tail.length ≤ cap
  · rw [writeBuf_ok ((hlength m).le.trans hroom), writeBuf_ok ((hlength n).le.trans hroom)]
    constructor
    · intro heq
      have hbytes := hexExtrinsic_injective (Except.ok.inj heq)
      exact Or.inl (doubleBytes_injective hm hn (List.append_cancel_right hbytes))
    · rintro (rfl | hno)
      · rfl
      · exact absurd hroom hno
  · rw [writeBuf, writeBuf, if_neg (by rw [hlength]; exact hroom),
      if_neg (by rw [hlength]; exact hroom)]
    exact iff_of_true rfl (Or.inr hroom)

theorem sentTail_length {sc : SignedCall} {nonce : ℕ}
    (h : encodeCompactInteger nonce = .ok sc.compactNonce) :
    (sentTail sc).length = 99 + (compact nonce).length + sc.completeMessage.length := by
  obtain ⟨-, hlength, hwrite⟩ := encode_width h
  simp only [sentTail, List.length_append, FixedBytes.length_toList, hwrite, hlength,
    List.length_cons, List.length_nil]
  omega

end Sending

section TwoCopies

variable (crypto : Crypto) (prm : ProtocolParameters) (nonce : ℕ) (call : CallRequest)

/-- The inputs on which the two functions get as far as sending. -/
def ReadyToSend : Prop :=
  nonce < 2 ^ 56 ∧ (∃ mm, methodHeader prm.metadata call.module call.method = .ok mm) ∧
    104 + (compact nonce).length + call.encodedMethodBytes.length ≤ MAX_METHOD_BYTES_SZ ∧
    (∃ senderPK, getPublicKeyFromStr crypto.blake2b call.sender = .ok senderPK) ∧
    ∃ secretKey, fromHexVector call.privateKey true = .ok secretKey

theorem signCall_ok_of_ready (h : ReadyToSend crypto prm nonce call) :
    ∃ sc, signCall crypto prm nonce call = .ok sc := by
  obtain ⟨hnonce, ⟨mm, hmm⟩, hfit, ⟨senderPK, hsender⟩, ⟨secretKey, hkey⟩⟩ := h
  obtain ⟨_, ⟨ci, hci, -⟩, -⟩ := exists_encodes hnonce
  rw [signCall_eq hci hmm (by omega), hsender, hkey]
  exact ⟨_, rfl⟩

theorem ready_iff_fits {sc : SignedCall} (h : signCall crypto prm nonce call = .ok sc) :
    ReadyToSend crypto prm nonce call ↔
      104 + (compact nonce).length + call.encodedMethodBytes.length ≤ MAX_METHOD_BYTES_SZ := by
  obtain ⟨mm, secretKey, hnonce, hmm, -, -, hsender, hkey, -⟩ := signCall_eq_ok h
  constructor
  · exact fun hready => hready.2.2.1
  · intro hfit
    exact ⟨(encode_width hnonce).1, ⟨mm, hmm⟩, hfit, ⟨_, hsender⟩, ⟨_, hkey⟩⟩

theorem extrinsics_eq_iff :
    (submitAndSubcribeExtrinsic crypto prm nonce call).map Submission.extrinsic =
        (submitExtrinsic crypto prm nonce call).map Submission.extrinsic ↔
      nonce < 64 ∨ ¬ ReadyToSend crypto prm nonce call := by
  rw [submitAndSubcribeExtrinsic, submitExtrinsic]
  cases hsc : signCall crypto prm nonce call with
  | error e =>
    rw [except_error_bind, except_error_bind]
    refine iff_of_true rfl (Or.inr fun hready => ?_)
    obtain ⟨sc, hok⟩ := signCall_ok_of_ready crypto prm nonce call hready
    rw [hsc] at hok
    cases hok
  | ok sc =>
    obtain ⟨_, -, hnonce, -, -, hfit, -⟩ := signCall_eq_ok hsc
    obtain ⟨hlt, hwidth, -⟩ := encode_width hnonce
    have hwide := compact_length_bounds hlt
    have hsize := signCall_message_length hsc
    have hbound : sc.completeMessage.length ≤ 2048 := hfit
    have htail := sentTail_length hnonce
    simp only [except_ok_bind, DEFAULT_FIXED_EXSTRINSIC_SIZE]
    rw [sendCall_extrinsic (by omega) (by omega), sendCall_extrinsic (by omega) (by omega),
      sentText_eq_iff (by omega) (by omega), ready_iff_fits crypto prm nonce call hsc,
      ← compact_length_eq_one_iff]
    omega

def sampleCrypto : Crypto where
  blake2b := knownHash
  sr25519Sign := fun _ _ _ => FixedBytes.zero 64

def sampleMetadata : Metadata where
  metadataV7 := some ⟨Slots.ofList [⟨lit "Balances", none,
    Slots.ofList [{ name := some (lit "transfer") }], Slots.empty, Slots.empty⟩]⟩

def samplePrm : ProtocolParameters := ⟨sampleMetadata, 0, 0, FixedBytes.zero 32⟩

def sampleCall (encodedMethodBytes : List UInt8) : CallRequest :=
  ⟨encodedMethodBytes, lit "balances", lit "transfer", knownAddress, lit "0x00"⟩

end TwoCopies

section SignedMessage

variable {crypto : Crypto} {prm : ProtocolParameters} {nonce : ℕ} {call : CallRequest}

def sentMethod (prm : ProtocolParameters) (call : CallRequest) : Result (List UInt8) := do
  let mmBuf ← methodHeader prm.metadata call.module call.method
  return mmBuf ++ call.encodedMethodBytes

abbrev Submit := Crypto → ProtocolParameters → ℕ → CallRequest → Result Submission

def IsSubmission (submit : Submit) : Prop :=
  submit = submitAndSubcribeExtrinsic ∨ submit = submitExtrinsic

theorem sendCall_eq_ok {length : ℕ} {rpcMethod : Str} {sc : SignedCall} {out : Submission}
    (h : sendCall length rpcMethod sc = .ok out) : out.signedMessage = sc.payload ∧
      ∃ front, out.extrinsic = hexExtrinsic (front ++ sc.completeMessage) := by
  obtain ⟨ci, -, h₁⟩ := except_bind_eq_ok h
  obtain ⟨teBytes, hte, h₂⟩ := except_bind_eq_ok h₁
  obtain ⟨-, rfl⟩ := writeBuf_eq_ok hte
  cases h₂
  exact ⟨rfl, _, rfl⟩

theorem submit_eq_ok {submit : Submit} (hs : IsSubmission submit) {out : Submission}
    (h : submit crypto prm nonce call = .ok out) :
    ∃ sc, signCall crypto prm nonce call = .ok sc ∧ out.signedMessage = sc.payload ∧
      ∃ front, out.extrinsic = hexExtrinsic (front ++ sc.completeMessage) := by
  rcases hs with rfl | rfl
  · obtain ⟨sc, hsc, h₁⟩ := except_bind_eq_ok h
    exact ⟨sc, hsc, sendCall_eq_ok h₁⟩
  · obtain ⟨sc, hsc, h₁⟩ := except_bind_eq_ok h
    exact ⟨sc, hsc, sendCall_eq_ok h₁⟩

theorem submit_message {submit : Submit} (hs : IsSubmission submit) {out : Submission}
    (h : submit crypto prm nonce call = .ok out) :
    ∃ compactNonce method, encodeCompactInteger nonce = .ok compactNonce ∧
      sentMethod prm call = .ok method ∧ method.length = call.encodedMethodBytes.length + 3 ∧
      (∃ front, out.extrinsic = hexExtrinsic (front ++ method)) ∧
      out.signedMessage = message compactNonce (signedPart method) prm.genesisBlockHash := by
  obtain ⟨sc, hsc, hmessage, hfront⟩ := submit_eq_ok hs h
  obtain ⟨mm, -, hnonce, hmm, hcomplete, -, -, -, hpayload, -⟩ := signCall_eq_ok hsc
  refine ⟨sc.compactNonce, sc.completeMessage, hnonce, ?_, signCall_message_length hsc, hfront,
    hmessage.trans hpayload⟩
  rw [sentMethod, hmm, hcomplete]
  rfl

theorem message_injective {compactNonce : CompactIntegerLEBytes} {as bs : List UInt8}
    {genesisBlockHash : FixedBytes 32} :
    message compactNonce as genesisBlockHash = message compactNonce bs genesisBlockHash ↔
      as = bs := by
  rw [message, message, List.append_cancel_left_eq, List.append_cancel_right_eq]

theorem signedPart_eq_self_iff (method : List UInt8) :
    signedPart method = method ↔ method.length ≤ 255 := by
  rw [signedPart, List.take_eq_self_iff]
  omega

/-- The signature covers the whole sent method exactly up to 252 encoded bytes,
and two signed messages of one nonce and chain are equal exactly when the
covered parts of the methods are. -/
theorem signedMessage_iff (submit : Submit) (hs : IsSubmission submit) (crypto : Crypto)
    (prm : ProtocolParameters) (nonce : ℕ) (call : CallRequest) (out : Submission)
    (h : submit crypto prm nonce call = .ok out) :
    ∃ compactNonce method, encodeCompactInteger nonce = .ok compactNonce ∧
      sentMethod prm call = .ok method ∧
      (∃ front, out.extrinsic = hexExtrinsic (front ++ method)) ∧
      (out.signedMessage = message compactNonce method prm.genesisBlockHash ↔
        call.encodedMethodBytes.length ≤ 252) ∧
      ∀ submit' crypto' prm' call' out' method', IsSubmission submit' →
        prm'.genesisBlockHash = prm.genesisBlockHash →
        submit' crypto' prm' nonce call' = .ok out' → sentMethod prm' call' = .ok method' →
          (out.signedMessage = out'.signedMessage ↔ signedPart method = signedPart method') := by
  obtain ⟨compactNonce, method, hnonce, hmethod, hlength, hfront, hmessage⟩ := submit_message hs h
  refine ⟨compactNonce, method, hnonce, hmethod, hfront, ?_, ?_⟩
  · rw [hmessage, message_injective, signedPart_eq_self_iff, hlength]
    omega
  · intro submit' crypto' prm' call' out' method' hs' hchain h' hmethod'
    obtain ⟨_, _, hnonce', hsame, -, -, hmessage'⟩ := submit_message hs' h'
    obtain rfl := Except.ok.inj (hnonce.symm.trans hnonce')
    obtain rfl := Except.ok.inj (hmethod'.symm.trans hsame)
    rw [hmessage, hmessage', hchain, message_injective]

theorem signedMessage_iff_sample : ∃ out,
    submitExtrinsic sampleCrypto samplePrm 0 (sampleCall [1, 2, 3]) = .ok out ∧
    ∃ compactNonce method, encodeCompactInteger 0 = .ok compactNonce ∧
      sentMethod samplePrm (sampleCall [1, 2, 3]) = .ok method ∧
      (∃ front, out.extrinsic = hexExtrinsic (front ++ method)) ∧
      (out.signedMessage = message compactNonce method samplePrm.genesisBlockHash ↔
        [1, 2, 3].length ≤ 252) ∧
      ∀ submit' crypto' prm' call' out' method', IsSubmission submit' →
        prm'.genesisBlockHash = samplePrm.genesisBlockHash →
        submit' crypto' prm' 0 call' = .ok out' → sentMethod prm' call' = .ok method' →
          (out.signedMessage = out'.signedMessage ↔ signedPart method = signedPart method') := by
  have hrpc : (submitExtrinsic sampleCrypto samplePrm 0 (sampleCall [1, 2, 3])).map
      Submission.rpcMethod = .ok (lit "author_submitExtrinsic") := by decide +kernel
  obtain ⟨out, hout, -⟩ := except_map_eq_ok hrpc
  exact ⟨out, hout, signedMessage_iff submitExtrinsic (Or.inr rfl) sampleCrypto samplePrm 0
    (sampleCall [1, 2, 3]) out hout⟩

/-- With 253 encoded bytes the length byte wraps to zero and no byte of the
method is signed. -/
theorem signedMessage_fails : ∃ out out' : Submission,
    submitExtrinsic sampleCrypto samplePrm 0 (sampleCall (List.replicate 253 0)) = .ok out ∧
    submitExtrinsic sampleCrypto samplePrm 0 (sampleCall (List.replicate 253 1)) = .ok out' ∧
    sentMethod samplePrm (sampleCall (List.replicate 253 0)) ≠
      sentMethod samplePrm (sampleCall (List.replicate 253 1)) ∧
    out.signedMessage = out'.signedMessage := by
  obtain ⟨hzeros, hones, hdiffer⟩ :
      (submitExtrinsic sampleCrypto samplePrm 0
        (sampleCall (List.replicate 253 0))).map Submission.signedMessage =
          .ok (List.replicate 34 0) ∧
      (submitExtrinsic sampleCrypto samplePrm 0
        (sampleCall (List.replicate 253 1))).map Submission.signedMessage =
          .ok (List.replicate 34 0) ∧
      sentMethod samplePrm (sampleCall (List.replicate 253 0)) ≠
        sentMethod samplePrm (sampleCall (List.replicate 253 1)) := by
    decide +kernel
  obtain ⟨out, hout, hmessage⟩ := except_map_eq_ok hzeros
  obtain ⟨out', hout', hmessage'⟩ := except_map_eq_ok hones
  exact ⟨out, out', hout, hout', hdiffer, hmessage.trans hmessage'.symm⟩

end SignedMessage

section TransferCopy

theorem methodHeader_of_connect {metadata : Metadata} {genesisBlockHash : FixedBytes 32}
    {prm : ProtocolParameters} (h : connectParameters metadata genesisBlockHash = .ok prm) :
    methodHeader prm.metadata (lit "balances") (lit "transfer") =
      .ok [asByte prm.balanceModuleIndex, asByte prm.transferMethodIndex, ADDRESS_SEPARATOR] := by
  have hname : lower (lit "balances") = lower (lit "Balances") := by decide
  obtain ⟨balanceModuleIndex, hbalance, h₁⟩ := except_bind_eq_ok h
  obtain ⟨absoluteIndex, habsolute, h₂⟩ := except_bind_eq_ok h₁
  obtain ⟨transferMethodIndex, htransfer, h₃⟩ := except_bind_eq_ok h₂
  cases h₃
  rw [getModuleIndex, ← hname] at hbalance habsolute
  rw [methodHeader, getModuleIndex, habsolute, except_ok_bind, getModuleIndex, hbalance,
    except_ok_bind, htransfer]
  rfl

def transferCall (recipientPK : PublicKey) (compactAmount : CompactIntegerLEBytes)
    (sender privateKey : Str) : CallRequest :=
  ⟨recipientPK.toList ++ writeCompactToBuf compactAmount, lit "balances", lit "transfer", sender,
    privateKey⟩

theorem transferCall_length {amount : ℕ} {compactAmount : CompactIntegerLEBytes}
    (h : encodeCompactInteger amount = .ok compactAmount) (recipientPK : PublicKey)
    (sender privateKey : Str) :
    (transferCall recipientPK compactAmount sender privateKey).encodedMethodBytes.length =
      32 + compactAmount.length := by
  rw [transferCall, List.length_append, FixedBytes.length_toList, (encode_width h).2.2]

def signedTransfer (crypto : Crypto) (prm : ProtocolParameters)
    (compactNonce compactAmount : CompactIntegerLEBytes) (recipientPK senderPK : PublicKey)
    (secretKey : List UInt8) : SignedCall :=
  let method := [asByte prm.balanceModuleIndex, asByte prm.transferMethodIndex,
    ADDRESS_SEPARATOR] ++ (recipientPK.toList ++ writeCompactToBuf compactAmount)
  let payload := message compactNonce (signedPart method) prm.genesisBlockHash
  ⟨compactNonce, method, senderPK, payload, crypto.sr25519Sign senderPK secretKey payload⟩

section Forms

variable {crypto : Crypto} {prm : ProtocolParameters} {nonce amount : ℕ}
  {compactNonce compactAmount : CompactIntegerLEBytes} {recipientPK : PublicKey}

theorem serializeMethodBinary_eq {te : TransferExtrinsic}
    (hamount : encodeCompactInteger te.amount = .ok compactAmount) :
    te.serializeMethodBinary = .ok ([te.moduleIndex, te.methodIndex, ADDRESS_SEPARATOR] ++
      (te.receiverPublicKey.toList ++ writeCompactToBuf compactAmount)) := by
  rw [TransferExtrinsic.serializeMethodBinary, hamount]
  rfl

theorem transfer_serializeBinary_eq {te : TransferExtrinsic} {method : List UInt8}
    (hnonce : encodeCompactInteger te.nonce = .ok compactNonce)
    (hamount : encodeCompactInteger te.amount = .ok compactAmount)
    (hmethod : te.serializeMethodBinary = .ok method) :
    te.serializeBinary = .ok (134 + compactAmount.length + compactNonce.length,
      doubleBytes (134 + compactAmount.length + compactNonce.length) ++
        ([te.version, ADDRESS_SEPARATOR] ++ (te.signerPublicKey.toList ++
          (te.sr25519Signature.toList ++ (writeCompactToBuf compactNonce ++
            ([te.era.byte] ++ method)))))) := by
  obtain ⟨hnonceLt, hnonceWidth, -⟩ := encode_width hnonce
  obtain ⟨hamountLt, hamountWidth, -⟩ := encode_width hamount
  have hnonceBound := compact_length_bounds hnonceLt
  have hamountBound := compact_length_bounds hamountLt
  obtain ⟨ci, hci, -, hwrite⟩ := encode_double
    (n := 134 + compactAmount.length + compactNonce.length) (by omega) (by omega)
  simp only [TransferExtrinsic.serializeBinary, hamount, hnonce, hci, hmethod, except_ok_bind,
    signedHeader, hwrite, List.append_assoc]
  rfl

theorem signAndSendTransfer_eq (hnonce : encodeCompactInteger nonce = .ok compactNonce)
    (hamount : encodeCompactInteger amount = .ok compactAmount) {recipient : Str}
    (hrecipient : getPublicKeyFromStr crypto.blake2b recipient = .ok recipientPK)
    (sender privateKey : Str) :
    (signAndSendTransfer crypto prm nonce sender privateKey recipient amount).map
        Submission.extrinsic = do
      let senderPK ← getPublicKeyFromStr crypto.blake2b sender
      let secretKey ← fromHexVector privateKey true
      return hexExtrinsic (doubleBytes (134 + compactAmount.length + compactNonce.length) ++
        sentTail (signedTransfer crypto prm compactNonce compactAmount recipientPK senderPK
          secretKey)) := by
  rw [signAndSendTransfer, hrecipient, except_ok_bind]
  cases getPublicKeyFromStr crypto.blake2b sender with
  | error e => rfl
  | ok senderPK =>
    simp only [except_ok_bind]
    rw [serializeMethodBinary_eq hamount, except_ok_bind, serializeBinary_eq hnonce,
      except_ok_bind]
    cases fromHexVector privateKey true with
    | error e => rfl
    | ok secretKey =>
      rw [except_ok_bind, transfer_serializeBinary_eq hnonce hamount
        (serializeMethodBinary_eq hamount)]
      rfl

theorem submitExtrinsic_eq (hnonce : encodeCompactInteger nonce = .ok compactNonce)
    (hamount : encodeCompactInteger amount = .ok compactAmount)
    (hmm : methodHeader prm.metadata (lit "balances") (lit "transfer") =
      .ok [asByte prm.balanceModuleIndex, asByte prm.transferMethodIndex, ADDRESS_SEPARATOR])
    (sender privateKey : Str) :
    (submitExtrinsic crypto prm nonce
        (transferCall recipientPK compactAmount sender privateKey)).map Submission.extrinsic = do
      let senderPK ← getPublicKeyFromStr crypto.blake2b sender
      let secretKey ← fromHexVector privateKey true
      return hexExtrinsic (doubleBytes (134 + compactAmount.length + compactNonce.length) ++
        sentTail (signedTransfer crypto prm compactNonce compactAmount recipientPK senderPK
          secretKey)) := by
  have hsize := transferCall_length hamount recipientPK sender privateKey
  obtain ⟨hnonceLt, hnonceWidth, hnonceWrite⟩ := encode_width hnonce
  obtain ⟨hamountLt, hamountWidth, hamountWrite⟩ := encode_width hamount
  have hnonceBound := compact_length_bounds hnonceLt
  have hamountBound := compact_length_bounds hamountLt
  have hfit : (transferCall recipientPK compactAmount sender privateKey).encodedMethodBytes.length
      + 3 ≤ MAX_METHOD_BYTES_SZ := by
    rw [hsize, MAX_METHOD_BYTES_SZ]
    omega
  have hsign : signCall crypto prm nonce (transferCall recipientPK compactAmount sender
      privateKey) = _ := signCall_eq hnonce hmm hfit
  have hroom : ∀ senderPK secretKey, (doubleBytes (134 + compactAmount.length +
      compactNonce.length) ++ sentTail (signedTransfer crypto prm compactNonce compactAmount
        recipientPK senderPK secretKey)).length ≤ MAX_METHOD_BYTES_SZ := by
    intro senderPK secretKey
    rw [List.length_append, sentTail_length hnonce, MAX_METHOD_BYTES_SZ]
    simp only [signedTransfer, doubleBytes, List.length_append, List.length_cons, List.length_nil,
      FixedBytes.length_toList, hamountWrite]
    omega
  have hlength : DEFAULT_FIXED_EXSTRINSIC_SIZE + (32 + compactAmount.length) +
      compactNonce.length - 1 = 134 + compactAmount.length + compactNonce.length := by
    rw [DEFAULT_FIXED_EXSTRINSIC_SIZE]
    omega
  rw [submitExtrinsic, hsign, hsize]
  cases hsender : getPublicKeyFromStr crypto.blake2b sender with
  | error e =>
    simp only [transferCall, hsender, except_error_bind]
    rfl
  | ok senderPK =>
    cases hkey : fromHexVector privateKey true with
    | error e =>
      simp only [transferCall, hsender, hkey, except_ok_bind, except_error_bind]
      rfl
    | ok secretKey =>
      simp only [transferCall, hsender, hkey, except_ok_bind, pure_bind, hlength]
      rw [sendCall_extrinsic (by omega) (by omega)]
      change (writeBuf _ (_ ++ sentTail (signedTransfer crypto prm compactNonce compactAmount
        recipientPK senderPK secretKey))).map _ = _
      rw [writeBuf_ok (hroom senderPK secretKey)]
      rfl

end Forms

theorem connectParameters_sample :
    connectParameters sampleMetadata (FixedBytes.zero 32) = .ok samplePrm := by
  rfl

end TransferCopy

end PolkadotApi.ExtrinsicAgreement
