import PolkadotApi.Base58Buffers
import PolkadotApi.ExtrinsicAgreement

set_option autoImplicit false

namespace PolkadotApi.PendingExtrinsics
open StreamReader HexText MachineModel ScaleCodec ScaleRoundTrip AddressCodec Converters
open AddressRoundTrip Base58Buffers ExtrinsicSubmission ExtrinsicAgreement

structure ExtrinsicFields where
  length : ℕ
  version : UInt8
  signerPublicKey : PublicKey
  sr25519Signature : FixedBytes 64
  nonce : ℕ
  era : ExtrinsicEra
  moduleIndex : UInt8
  methodIndex : UInt8

structure GenericExtrinsic extends ExtrinsicFields where
  methodBytes : Str
  signerAddress : Str

/-- `(uint8_t)fromHex<uint128>` of the next two characters. -/
def hexByte : Reader UInt8 := fun estr => do
  let text ← substr estr 0 2
  let value ← fromHex 128 text true
  let estr ← substrFrom estr 2
  return (UInt8.ofNat value, estr)

def hexArray (skip n : ℕ) : Reader (FixedBytes n) := fun estr => do
  let text ← substr estr skip (n * 2)
  let bytes ← fromHexVector text true
  let array ← FixedBytes.copy n bytes
  let estr ← substrFrom estr (n * 2 + skip)
  return (array, estr)

def readFields : Reader ExtrinsicFields := do
  let length ← decodeCompactInteger
  let version ← hexByte
  let signerPublicKey ← hexArray 2 32
  let sr25519Signature ← hexArray 0 64
  let nonce ← decodeCompactInteger
  let eraInt ← hexByte
  let moduleIndex ← hexByte
  let methodIndex ← hexByte
  return ⟨asUInt128 length, version, signerPublicKey, sr25519Signature, asUInt128 nonce,
    if eraInt ≠ 0 then .mortal else .immortal, moduleIndex, methodIndex⟩

def signerAddress (encode : List UInt8 → Result Str) (blake2b : Hash) (pubKey : PublicKey) :
    Result Str := do
  let addrCh ← encode (plainBytes blake2b pubKey)
  return cstr addrCh

def readExtrinsic (encode : List UInt8 → Result Str) (blake2b : Hash) (e : Str) :
    Result GenericExtrinsic := do
  let estr ← substrFrom e 2
  let (fields, methodBytes) ← readFields estr
  let address ← signerAddress encode blake2b fields.signerPublicKey
  return ⟨fields, methodBytes, address⟩

/-- The loop over the listed extrinsics; the caller's buffer is a function of
the index. -/
def pendingFrom (encode : List UInt8 → Result Str) (blake2b : Hash) (bufferSize : ℤ) :
    List Str → ℕ → (ℕ → GenericExtrinsic) → Result (ℕ × (ℕ → GenericExtrinsic))
  | [], count, buf => .ok (count, buf)
  | e :: es, count, buf =>
    if (count : ℤ) < bufferSize then do
      let x ← readExtrinsic encode blake2b e
      pendingFrom encode blake2b bufferSize es (count + 1) (Function.update buf count x)
    else pendingFrom encode blake2b bufferSize es (count + 1) buf

def pendingExtrinsics (blake2b : Hash) (response : List Str) (buf : ℕ → GenericExtrinsic)
    (bufferSize : ℤ) : Result (ℕ × (ℕ → GenericExtrinsic)) :=
  pendingFrom encodeBase58Allocated blake2b bufferSize response 0 buf

def encodeBase58Roomy (bytes : List UInt8) : Result Str := .ok (encodeBase58 bytes)

section Fields

variable (d : DigitSet)

theorem decodes_hexByte (b : UInt8) : Decodes d.script hexByte [b] b := by
  rintro text rest rfl
  have hspell := d.spells_text [b]
  have hlength : (d.text [b]).length = 2 := hspell.length
  have hvalue : UInt8.ofNat b.toNat = b := UInt8.ofNat_toNat
  simp only [hexByte, substr_append hlength, substrFrom_append hlength, fromHex_byte hspell,
    except_ok_bind, hvalue]
  rfl

theorem substr_middle {u v : Str} {skip len : ℕ} (hu : u.length = skip) (hv : v.length = len)
    (rest : Str) : substr (u ++ v ++ rest) skip len = .ok v := by
  subst skip len
  rw [substr, List.append_assoc, if_pos (by simp), List.drop_left, List.take_left]

theorem decodes_hexArray {n : ℕ} (hn : 0 < n) (hsmall : n < 2 ^ 16) (before : List UInt8)
    (array : FixedBytes n) :
    Decodes d.script (hexArray (2 * before.length) n) (before ++ array.toList) array := by
  rintro text rest rfl
  have hbefore := (d.spells_text before).length
  have hspell := d.spells_text array.toList
  have harray : (d.text array.toList).length = n * 2 := by
    rw [hspell.length, array.length_eq, Nat.mul_comm]
  have htotal : (d.text before ++ d.text array.toList).length = n * 2 + 2 * before.length := by
    rw [List.length_append, hbefore, harray, Nat.add_comm]
  have hne : array.toList ≠ [] := by
    apply List.ne_nil_of_length_pos
    rw [array.length_eq]
    exact hn
  rw [DigitSet.text_append]
  simp only [hexArray, substr_middle hbefore harray, substrFrom_append htotal,
    fromHexVector_spells hspell hne (by omega), FixedBytes.copy_toList, except_ok_bind]
  rfl

theorem asUInt128_of_small {n : ℕ} (h : n < 2 ^ 128) : asUInt128 n = n := by
  have hn : (n : ℤ) < 2 ^ 128 := by exact_mod_cast h
  rw [asUInt128, Int.emod_eq_of_lt (by omega) hn, Int.toNat_natCast]

theorem decodes_readFields {length nonce : ℕ} {nonceBytes : List UInt8} (h : length < 2 ^ 12)
    (hnonce : Decodes d.script decodeCompactInteger nonceBytes nonce)
    (hlt : nonce < 2 ^ 128) (version moduleIndex methodIndex : UInt8) (signer : PublicKey)
    (signature : FixedBytes 64) :
    Decodes d.script readFields
      (doubleBytes length ++ ([version] ++ (([ADDRESS_SEPARATOR] ++ signer.toList) ++
        (([] ++ signature.toList) ++ (nonceBytes ++ ([ExtrinsicEra.immortal.byte] ++
          ([moduleIndex] ++ [methodIndex])))))))
      ⟨length, version, signer, signature, nonce, .immortal, moduleIndex, methodIndex⟩ := by
  apply (decodes_doubleBytes d.script length).bind
  apply (decodes_hexByte d version).bind
  apply (decodes_hexArray d (by norm_num) (by norm_num) [ADDRESS_SEPARATOR] signer).bind
  apply (decodes_hexArray d (by norm_num) (by norm_num) [] signature).bind
  apply hnonce.bind
  apply (decodes_hexByte d ExtrinsicEra.immortal.byte).bind
  apply (decodes_hexByte d moduleIndex).bind
  apply (decodes_hexByte d methodIndex).bind_end
  rw [Nat.mod_eq_of_lt h, asUInt128_of_small (by omega), asUInt128_of_small hlt]
  exact Decodes.of_pure (fun _ => rfl)

end Fields

section Listing

/-- The fields of an extrinsic as it was built, with the method bytes behind the
two indices. -/
structure Sent where
  fields : ExtrinsicFields
  rest : List UInt8

inductive Produced : Sent → List UInt8 → Prop where
  | transfer (te : TransferExtrinsic) (length : ℕ) (bytes : List UInt8)
      (compactAmount : CompactIntegerLEBytes) (era : te.era = .immortal)
      (amount : encodeCompactInteger te.amount = .ok compactAmount)
      (serialized : te.serializeBinary = .ok (length, bytes)) :
      Produced ⟨⟨length, te.version, te.signerPublicKey, te.sr25519Signature, te.nonce, te.era,
        te.moduleIndex, te.methodIndex⟩,
        [ADDRESS_SEPARATOR] ++ (te.receiverPublicKey.toList ++ writeCompactToBuf compactAmount)⟩
        bytes
  | submit (crypto : Crypto) (prm : ProtocolParameters) (nonce : ℕ) (call : CallRequest)
      (out : Submission) (bytes : List UInt8) (sc : SignedCall) (moduleIndex methodIndex : UInt8)
      (sent : submitExtrinsic crypto prm nonce call = .ok out)
      (extrinsic : out.extrinsic = hexExtrinsic bytes)
      (signed : signCall crypto prm nonce call = .ok sc)
      (indices : methodHeader prm.metadata call.module call.method =
        .ok [moduleIndex, methodIndex, ADDRESS_SEPARATOR]) :
      Produced ⟨⟨DEFAULT_FIXED_EXSTRINSIC_SIZE + call.encodedMethodBytes.length +
          sc.compactNonce.length - 1, SIGNATURE_VERSION, sc.senderPK, sc.signature, nonce,
          .immortal, moduleIndex, methodIndex⟩,
        [ADDRESS_SEPARATOR] ++ call.encodedMethodBytes⟩ bytes

theorem produced_bytes {x : Sent} {bytes : List UInt8} (h : Produced x bytes) :
    x.fields.length < 2 ^ 12 ∧ x.fields.era = .immortal ∧ ∃ compactNonce,
      encodeCompactInteger x.fields.nonce = .ok compactNonce ∧
      bytes = doubleBytes x.fields.length ++ ([x.fields.version] ++
        (([ADDRESS_SEPARATOR] ++ x.fields.signerPublicKey.toList) ++
          (([] ++ x.fields.sr25519Signature.toList) ++ (writeCompactToBuf compactNonce ++
            ([ExtrinsicEra.immortal.byte] ++ ([x.fields.moduleIndex] ++
              [x.fields.methodIndex])))))) ++ x.rest := by
  cases h with
  | transfer te length bytes compactAmount era amount serialized =>
    obtain ⟨ca, hamount, h₁⟩ := except_bind_eq_ok serialized
    obtain ⟨compactNonce, hnonce, -⟩ := except_bind_eq_ok h₁
    rw [transfer_serializeBinary_eq hnonce amount (serializeMethodBinary_eq amount)] at serialized
    cases serialized
    obtain ⟨hnonceLt, hnonceWidth, -⟩ := encode_width hnonce
    obtain ⟨hamountLt, hamountWidth, -⟩ := encode_width amount
    have hnonceBound := compact_length_bounds hnonceLt
    have hamountBound := compact_length_bounds hamountLt
    refine ⟨?_, era, compactNonce, hnonce, ?_⟩
    · change 134 + compactAmount.length + compactNonce.length < _
      omega
    · rw [era]
      simp
  | submit crypto prm nonce call out bytes sc moduleIndex methodIndex sent extrinsic signed indices =>
    obtain ⟨_, hsc, h₁⟩ := except_bind_eq_ok sent
    obtain rfl := Except.ok.inj (signed.symm.trans hsc)
    obtain ⟨mm, -, hnonce, hmm, hcomplete, hfit, -⟩ := signCall_eq_ok signed
    obtain rfl := Except.ok.inj (indices.symm.trans hmm)
    obtain ⟨hlt, hwidth, -⟩ := encode_width hnonce
    have hbound := compact_length_bounds hlt
    have hsize := signCall_message_length signed
    have hroom : sc.completeMessage.length ≤ 2048 := hfit
    have hlength : DEFAULT_FIXED_EXSTRINSIC_SIZE + call.encodedMethodBytes.length +
        sc.compactNonce.length - 1 =
          102 + call.encodedMethodBytes.length + sc.compactNonce.length := by
      rw [DEFAULT_FIXED_EXSTRINSIC_SIZE]
      omega
    rw [hlength] at h₁ ⊢
    rw [sendCall_eq (by omega) (by omega)] at h₁
    obtain ⟨teBytes, hte, rfl⟩ := except_map_eq_ok h₁
    obtain ⟨-, rfl⟩ := writeBuf_eq_ok hte
    obtain rfl := hexExtrinsic_injective extrinsic
    refine ⟨?_, rfl, sc.compactNonce, hnonce, ?_⟩
    · change 102 + call.encodedMethodBytes.length + sc.compactNonce.length < _
      omega
    · rw [sentTail, hcomplete]
      simp

def RecoversNonce (nonce : ℕ) : Prop :=
  ∀ compactNonce text rest, encodeCompactInteger nonce = .ok compactNonce →
    Spells (writeCompactToBuf compactNonce) text →
      decodeCompactInteger (m := Reader) (text ++ rest) = .ok ((nonce : ℤ), rest)

def readBack (d : DigitSet) (blake2b : Hash) (x : Sent) : GenericExtrinsic :=
  ⟨x.fields, d.text x.rest, getAddrFromPublicKey blake2b x.fields.signerPublicKey⟩

/-- Everything up to the address is read back, whatever encodes the address. -/
theorem readExtrinsic_produced (encode : List UInt8 → Result Str) (d : DigitSet) (blake2b : Hash)
    {x : Sent} {bytes : List UInt8} (h : Produced x bytes) (hnonce : RecoversNonce x.fields.nonce) :
    readExtrinsic encode blake2b (lit "0x" ++ d.text bytes) =
      (signerAddress encode blake2b x.fields.signerPublicKey >>= fun address =>
        .ok ⟨x.fields, d.text x.rest, address⟩) := by
  obtain ⟨hlength, hera, compactNonce, hcompact, rfl⟩ := produced_bytes h
  have hdecode : Decodes d.script decodeCompactInteger (writeCompactToBuf compactNonce)
      x.fields.nonce := by
    intro text rest ht
    exact hnonce compactNonce text rest hcompact (d.script.spells ht)
  have hlt := (encode_width hcompact).1
  have hfields := decodes_readFields d hlength hdecode (by omega) x.fields.version
    x.fields.moduleIndex x.fields.methodIndex x.fields.signerPublicKey x.fields.sr25519Signature
    _ (d.text x.rest) rfl
  have hcut : (lit "0x").length = 2 := by decide
  rw [readExtrinsic, substrFrom_append hcut, except_ok_bind, DigitSet.text_append, hfields,
    ← hera]
  rfl

/-- Each entry inside the buffer is the extrinsic that was sent, and all others are
untouched. -/
def filled (d : DigitSet) (blake2b : Hash) (bufferSize : ℤ) (sent : List (Sent × List UInt8))
    (buf : ℕ → GenericExtrinsic) (i : ℕ) : GenericExtrinsic :=
  if (i : ℤ) < bufferSize then ((sent[i]?).map fun s => readBack d blake2b s.1).getD (buf i)
  else buf i

def listed (d : DigitSet) (sent : List (Sent × List UInt8)) : List Str :=
  sent.map fun s => lit "0x" ++ d.text s.2

theorem pendingFrom_produced (d : DigitSet) (blake2b : Hash) (bufferSize : ℤ)
    (sent : List (Sent × List UInt8))
    (h : ∀ s ∈ sent, Produced s.1 s.2 ∧ RecoversNonce s.1.fields.nonce) (count : ℕ)
    (buf : ℕ → GenericExtrinsic) :
    pendingFrom encodeBase58Roomy blake2b bufferSize (listed d sent) count buf =
      .ok (count + sent.length, fun i =>
        if count ≤ i ∧ (i : ℤ) < bufferSize then
          ((sent[i - count]?).map fun s => readBack d blake2b s.1).getD (buf i)
        else buf i) := by
  induction sent generalizing count buf with
  | nil => simp [pendingFrom, listed]
  | cons s sent ih =>
    have hs := h s (by simp)
    have hread : readExtrinsic encodeBase58Roomy blake2b (lit "0x" ++ d.text s.2) =
        .ok (readBack d blake2b s.1) := readExtrinsic_produced _ d blake2b hs.1 hs.2
    have ih := ih (fun t ht => h t (by simp [ht]))
    have hcount : count + 1 + sent.length = count + (sent.length + 1) := by omega
    rw [listed, List.map_cons, pendingFrom, List.length_cons]
    rw [listed] at ih
    by_cases hroom : (count : ℤ) < bufferSize
    · rw [if_pos hroom, hread, except_ok_bind, ih, hcount]
      congr 2
      funext i
      rcases Nat.lt_trichotomy i count with hi | rfl | hi
      · rw [if_neg (by omega), if_neg (by omega), Function.update_of_ne (by omega)]
      · rw [if_neg (by omega), if_pos ⟨le_rfl, hroom⟩, Function.update_self]
        simp
      · have hshift : i - count = i - (count + 1) + 1 := by omega
        rw [hshift, List.getElem?_cons_succ, Function.update_of_ne (by omega)]
        simp only [hi.le, Nat.succ_le_iff.2 hi]
    · rw [if_neg hroom, ih, hcount]
      congr 2
      funext i
      rw [if_neg (by omega), if_neg (by omega)]

theorem pendingFrom_roomy (d : DigitSet) (blake2b : Hash) (sent : List (Sent × List UInt8))
    (h : ∀ s ∈ sent, Produced s.1 s.2 ∧ RecoversNonce s.1.fields.nonce) (bufferSize : ℤ)
    (buf : ℕ → GenericExtrinsic) :
    pendingFrom encodeBase58Roomy blake2b bufferSize (listed d sent) 0 buf =
      .ok (sent.length, filled d blake2b bufferSize sent buf) := by
  rw [pendingFrom_produced d blake2b bufferSize sent h 0 buf]
  simp only [Nat.zero_add, Nat.zero_le, true_and, Nat.sub_zero]
  rfl

theorem pendingFrom_full (encode : List UInt8 → Result Str) (blake2b : Hash) {bufferSize : ℤ}
    (es : List Str) (count : ℕ) (buf : ℕ → GenericExtrinsic) (h : bufferSize ≤ count) :
    pendingFrom encode blake2b bufferSize es count buf = .ok (count + es.length, buf) := by
  induction es generalizing count with
  | nil => rfl
  | cons e es ih =>
    have hlength : count + 1 + es.length = count + (es.length + 1) := by omega
    rw [pendingFrom, if_neg (by omega), ih (count + 1) (by omega), hlength, List.length_cons]

/-- The first entry that is filled overruns the digits array. -/
theorem pendingExtrinsics_undefined (d : DigitSet) (blake2b : Hash) {s : Sent × List UInt8}
    (sent : List (Sent × List UInt8)) (h : Produced s.1 s.2) (hnonce : RecoversNonce s.1.fields.nonce)
    {bufferSize : ℤ} (hroom : 0 < bufferSize) (buf : ℕ → GenericExtrinsic) :
    pendingExtrinsics blake2b (listed d (s :: sent)) buf bufferSize = .error .undefined := by
  have haddress : signerAddress encodeBase58Allocated blake2b s.1.fields.signerPublicKey =
      .error .undefined := by
    rw [signerAddress, plainBytes_out_of_bounds]
    rfl
  rw [pendingExtrinsics, listed, List.map_cons, pendingFrom, if_pos (by exact_mod_cast hroom),
    readExtrinsic_produced _ d blake2b h hnonce, haddress]
  rfl

/-- With room for the digits of the address every extrinsic is read back. With the
array of the source the result is the same exactly when no entry is filled. -/
theorem pendingExtrinsics_produced_iff (d : DigitSet) (blake2b : Hash)
    (sent : List (Sent × List UInt8))
    (h : ∀ s ∈ sent, Produced s.1 s.2 ∧ RecoversNonce s.1.fields.nonce) (bufferSize : ℤ)
    (buf : ℕ → GenericExtrinsic) :
    pendingFrom encodeBase58Roomy blake2b bufferSize (listed d sent) 0 buf =
        .ok (sent.length, filled d blake2b bufferSize sent buf) ∧
      (pendingExtrinsics blake2b (listed d sent) buf bufferSize =
          .ok (sent.length, filled d blake2b bufferSize sent buf) ↔
        bufferSize ≤ 0 ∨ sent = []) := by
  have hroomy := pendingFrom_roomy d blake2b sent h bufferSize buf
  refine ⟨hroomy, ?_⟩
  constructor
  · intro hresult
    cases sent with
    | nil => exact Or.inr rfl
    | cons s sent =>
      left
      by_contra hroom
      have hs := h s (by simp)
      rw [pendingExtrinsics_undefined d blake2b sent hs.1 hs.2 (by omega)] at hresult
      cases hresult
  · rintro (hfull | rfl)
    · rw [← hroomy, pendingExtrinsics, pendingFrom_full _ _ _ _ _ (by exact_mod_cast hfull),
        pendingFrom_full _ _ _ _ _ (by exact_mod_cast hfull)]
    · exact hroomy

theorem recoversNonce_of_compact {nonce : ℕ} (h : nonce < 2 ^ 56)
    (hgap : nonce < 2 ^ 12 ∨ 2 ^ 14 ≤ nonce) : RecoversNonce nonce := by
  intro compactNonce text rest hcompact ht
  obtain ⟨ci, hci, -, hwrite⟩ := encode_compact h hgap
  obtain rfl := Except.ok.inj (hci.symm.trans hcompact)
  rw [hwrite] at ht
  exact decodes_compact anyCase nonce (by omega) text rest ht

def sampleTransfer : TransferExtrinsic :=
  ⟨5, 0, FixedBytes.zero 32, 10 ^ 15, SIGNATURE_VERSION, FixedBytes.zero 32, FixedBytes.zero 64,
    70000, .immortal⟩

def blankExtrinsic : GenericExtrinsic :=
  ⟨⟨0, 0, FixedBytes.zero 32, FixedBytes.zero 64, 0, .immortal, 0, 0⟩, [], []⟩

theorem sampleTransfer_produced :
    ∃ s : Sent × List UInt8, Produced s.1 s.2 ∧ RecoversNonce s.1.fields.nonce := by
  obtain ⟨_, ⟨compactNonce, hnonce, -⟩, -⟩ := exists_encodes (n := 70000) (by norm_num)
  obtain ⟨_, ⟨compactAmount, hamount, -⟩, -⟩ := exists_encodes (n := 10 ^ 15) (by norm_num)
  have hproduced := Produced.transfer sampleTransfer _ _ compactAmount rfl hamount
    (transfer_serializeBinary_eq hnonce hamount (serializeMethodBinary_eq hamount))
  have hrecovers : RecoversNonce 70000 :=
    recoversNonce_of_compact (by norm_num) (Or.inr (by norm_num))
  exact ⟨(_, _), hproduced, hrecovers⟩

/-- A buffer without entries. -/
theorem pendingExtrinsics_produced_iff_empty : ∃ s : Sent × List UInt8,
    Produced s.1 s.2 ∧ RecoversNonce s.1.fields.nonce ∧
      pendingExtrinsics sampleCrypto.blake2b (listed .upper [s]) (fun _ => blankExtrinsic) 0 =
        .ok (1, filled .upper sampleCrypto.blake2b 0 [s] fun _ => blankExtrinsic) := by
  obtain ⟨s, hproduced, hrecovers⟩ := sampleTransfer_produced
  refine ⟨s, hproduced, hrecovers, (pendingExtrinsics_produced_iff .upper sampleCrypto.blake2b [s]
    ?_ 0 fun _ => blankExtrinsic).2.2 (Or.inl le_rfl)⟩
  intro t ht
  obtain rfl := List.mem_singleton.1 ht
  exact ⟨hproduced, hrecovers⟩

/-- One transfer and a buffer with three entries. -/
theorem pendingExtrinsics_produced_fails : ¬ ∀ d blake2b sent,
    (∀ s ∈ sent, Produced s.1 s.2 ∧ RecoversNonce s.1.fields.nonce) → ∀ bufferSize buf,
      pendingExtrinsics blake2b (listed d sent) buf bufferSize =
        .ok (sent.length, filled d blake2b bufferSize sent buf) := by
  intro hall
  obtain ⟨s, hproduced, hrecovers⟩ := sampleTransfer_produced
  have hresult := hall .upper sampleCrypto.blake2b [s] (by simp [hproduced, hrecovers]) 3
    fun _ => blankExtrinsic
  rw [pendingExtrinsics_undefined .upper _ [] hproduced hrecovers (by norm_num)] at hresult
  cases hresult

end Listing

end PolkadotApi.PendingExtrinsics
