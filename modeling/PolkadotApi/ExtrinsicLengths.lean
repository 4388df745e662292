import PolkadotApi.ExtrinsicAgreement

set_option autoImplicit false

namespace PolkadotApi.ExtrinsicLengths
open StreamReader HexText MachineModel ScaleCodec ScaleRoundTrip ExtrinsicSubmission
open ExtrinsicAgreement

section Counting

def SR25519_PUBLIC_SIZE : ℕ := 32

def SR25519_SIGNATURE_SIZE : ℕ := 64

/-- What `serializeMethodBinary` returns: the count that it keeps while writing. -/
def methodWrittenLength (te : TransferExtrinsic) : Result ℕ := do
  let compactAmount ← encodeCompactInteger te.amount
  return 1 + 1 + 1 + SR25519_PUBLIC_SIZE + compactAmount.length

def writtenLength (te : TransferExtrinsic) : Result ℕ := do
  let compactAmount ← encodeCompactInteger te.amount
  let compactNonce ← encodeCompactInteger te.nonce
  let compactLength ← encodeCompactInteger (134 + compactAmount.length + compactNonce.length)
  let method ← methodWrittenLength te
  return compactLength.length + 1 + 1 + SR25519_PUBLIC_SIZE + SR25519_SIGNATURE_SIZE +
    compactNonce.length + 1 + method

end Counting

/-- A compact integer, in any spelling, that the decoder reads as the number of
bytes that follow it. -/
def Framed (bytes : List UInt8) : Prop :=
  ∃ lengthBytes body, bytes = lengthBytes ++ body ∧
    Decodes anyCase decodeCompactInteger lengthBytes (body.length : ℤ)

theorem framed_doubleBytes {length : ℕ} {body : List UInt8} (h : body.length = length)
    (h' : length < 2 ^ 12) : Framed (doubleBytes length ++ body) := by
  subst length
  refine ⟨doubleBytes body.length, body, rfl, ?_⟩
  have hdecodes := decodes_doubleBytes anyCase body.length
  rwa [Nat.mod_eq_of_lt h'] at hdecodes

section Transfer

variable {te : TransferExtrinsic} {compactNonce compactAmount : CompactIntegerLEBytes}

theorem writtenLength_eq (hnonce : encodeCompactInteger te.nonce = .ok compactNonce)
    (hamount : encodeCompactInteger te.amount = .ok compactAmount) :
    writtenLength te = .ok (136 + compactAmount.length + compactNonce.length) := by
  obtain ⟨hnonceLt, hnonceWidth, -⟩ := encode_width hnonce
  obtain ⟨hamountLt, hamountWidth, -⟩ := encode_width hamount
  have hnonceBound := compact_length_bounds hnonceLt
  have hamountBound := compact_length_bounds hamountLt
  obtain ⟨ci, hci, hlength, -⟩ := encode_double
    (n := 134 + compactAmount.length + compactNonce.length) (by omega) (by omega)
  have hmethod : methodWrittenLength te = .ok (35 + compactAmount.length) := by
    rw [methodWrittenLength, hamount]
    rfl
  rw [writtenLength, hamount, except_ok_bind, hnonce, except_ok_bind, hci, except_ok_bind,
    hmethod, except_ok_bind]
  refine congrArg Except.ok ?_
  rw [hlength, SR25519_PUBLIC_SIZE, SR25519_SIGNATURE_SIZE, doubleBytes]
  simp only [List.length_cons, List.length_nil]
  omega

theorem serializeBinary_framed (hnonce : encodeCompactInteger te.nonce = .ok compactNonce)
    (hamount : encodeCompactInteger te.amount = .ok compactAmount) :
    ∃ bytes, te.serializeBinary = .ok (134 + compactAmount.length + compactNonce.length, bytes) ∧
      bytes.length = 136 + compactAmount.length + compactNonce.length ∧ Framed bytes := by
  obtain ⟨hnonceLt, hnonceWidth, hnonceWrite⟩ := encode_width hnonce
  obtain ⟨hamountLt, hamountWidth, hamountWrite⟩ := encode_width hamount
  have hnonceBound := compact_length_bounds hnonceLt
  have hamountBound := compact_length_bounds hamountLt
  refine ⟨_, transfer_serializeBinary_eq hnonce hamount (serializeMethodBinary_eq hamount), ?_,
    framed_doubleBytes ?_ (by omega)⟩
  · simp only [doubleBytes, List.length_append, List.length_cons, List.length_nil,
      FixedBytes.length_toList, hnonceWrite, hamountWrite]
    omega
  · simp only [List.length_append, List.length_cons, List.length_nil, FixedBytes.length_toList,
      hnonceWrite, hamountWrite]
    omega

end Transfer

section Generic

variable {crypto : Crypto} {prm : ProtocolParameters} {nonce : ℕ} {call : CallRequest}

/-- The length that `submitExtrinsic` encodes is that of the bytes behind it. -/
theorem sendCall_framed {sc : SignedCall} (hsc : signCall crypto prm nonce call = .ok sc) :
    let length := DEFAULT_FIXED_EXSTRINSIC_SIZE + call.encodedMethodBytes.length +
      sc.compactNonce.length - 1
    submitExtrinsic crypto prm nonce call =
        (writeBuf MAX_METHOD_BYTES_SZ (doubleBytes length ++ sentTail sc)).map
          (fun teBytes => ⟨lit "author_submitExtrinsic", hexExtrinsic teBytes, sc.payload⟩) ∧
      Framed (doubleBytes length ++ sentTail sc) := by
  intro length
  obtain ⟨_, -, hnonce, -, -, hfit, -⟩ := signCall_eq_ok hsc
  obtain ⟨hlt, hwidth, -⟩ := encode_width hnonce
  have hwide := compact_length_bounds hlt
  have hsize := signCall_message_length hsc
  have hbound : sc.completeMessage.length ≤ 2048 := hfit
  have htail := sentTail_length hnonce
  have hlength : length = 103 + call.encodedMethodBytes.length + sc.compactNonce.length - 1 := rfl
  constructor
  · rw [submitExtrinsic, hsc, except_ok_bind, sendCall_eq (by omega) (by omega)]
  · exact framed_doubleBytes (by omega) (by omega)

theorem submitExtrinsic_framed {out : Submission}
    (h : submitExtrinsic crypto prm nonce call = .ok out) :
    ∃ bytes, out.extrinsic = hexExtrinsic bytes ∧ Framed bytes := by
  obtain ⟨sc, hsc, -⟩ := except_bind_eq_ok h
  obtain ⟨heq, hframed⟩ := sendCall_framed hsc
  rw [heq] at h
  obtain ⟨teBytes, hte, rfl⟩ := except_map_eq_ok h
  obtain ⟨-, rfl⟩ := writeBuf_eq_ok hte
  exact ⟨_, rfl, hframed⟩

theorem submitExtrinsic_of_ready (h : ReadyToSend crypto prm nonce call) :
    ∃ out, submitExtrinsic crypto prm nonce call = .ok out := by
  obtain ⟨sc, hsc⟩ := signCall_ok_of_ready crypto prm nonce call h
  obtain ⟨_, -, hnonce, -⟩ := signCall_eq_ok hsc
  have hsize := signCall_message_length hsc
  have htail := sentTail_length hnonce
  have hfit := h.2.2.1
  rw [(sendCall_framed hsc).1, writeBuf_ok]
  · exact ⟨_, rfl⟩
  · rw [List.length_append, htail, doubleBytes]
    simp only [List.length_cons, List.length_nil]
    omega

end Generic

/-- The transfer serializer returns the number of bytes it writes, which are their
length and as many bytes; so are the bytes of every extrinsic that
`submitExtrinsic` sends, and it does send one when the address, the key and the
lookups are good and the buffers are large enough. -/
theorem extrinsics_framed :
    (∀ te : TransferExtrinsic, te.amount < 2 ^ 56 → te.nonce < 2 ^ 56 →
      ∃ length bytes, te.serializeBinary = .ok (length, bytes) ∧
        writtenLength te = .ok bytes.length ∧ Framed bytes) ∧
    ∀ (crypto : Crypto) (prm : ProtocolParameters) (nonce : ℕ) (call : CallRequest),
      (ReadyToSend crypto prm nonce call →
        ∃ out, submitExtrinsic crypto prm nonce call = .ok out) ∧
      ∀ out, submitExtrinsic crypto prm nonce call = .ok out →
        ∃ bytes, out.extrinsic = hexExtrinsic bytes ∧ Framed bytes := by
  constructor
  · intro te hamount hnonce
    obtain ⟨_, ⟨compactAmount, hcompactAmount, -⟩, -⟩ := exists_encodes hamount
    obtain ⟨_, ⟨compactNonce, hcompactNonce, -⟩, -⟩ := exists_encodes hnonce
    obtain ⟨bytes, hbytes, hlength, hframed⟩ :=
      serializeBinary_framed hcompactNonce hcompactAmount
    refine ⟨_, bytes, hbytes, ?_, hframed⟩
    rw [hlength]
    exact writtenLength_eq hcompactNonce hcompactAmount
  · intro crypto prm nonce call
    exact ⟨submitExtrinsic_of_ready, fun out => submitExtrinsic_framed⟩

def sampleTransfer : TransferExtrinsic :=
  ⟨4, 0, FixedBytes.zero 32, 2 ^ 20, SIGNATURE_VERSION, FixedBytes.zero 32, FixedBytes.zero 64, 64,
    .immortal⟩

theorem extrinsics_framed_sample :
    (∃ length bytes, sampleTransfer.serializeBinary = .ok (length, bytes) ∧
      writtenLength sampleTransfer = .ok bytes.length ∧ Framed bytes) ∧
    ∃ out bytes, submitExtrinsic sampleCrypto samplePrm 64 (sampleCall [1, 2, 3]) = .ok out ∧
      out.extrinsic = hexExtrinsic bytes ∧ Framed bytes := by
  have hrpc : (submitExtrinsic sampleCrypto samplePrm 64 (sampleCall [1, 2, 3])).map
      Submission.rpcMethod = .ok (lit "author_submitExtrinsic") := by decide +kernel
  obtain ⟨out, hout, -⟩ := except_map_eq_ok hrpc
  obtain ⟨bytes, hbytes, hframed⟩ := (extrinsics_framed.2 _ _ _ _).2 out hout
  exact ⟨extrinsics_framed.1 sampleTransfer (by decide +kernel) (by decide +kernel),
    out, bytes, hout, hbytes, hframed⟩

end PolkadotApi.ExtrinsicLengths
