import PolkadotApi.Base58RoundTrip

set_option autoImplicit false

namespace PolkadotApi.AddressRoundTrip
open MachineModel PositionalNumerals AddressCodec Base58RoundTrip

def plainBytes (blake2b : Hash) (pk : PublicKey) : List UInt8 :=
  let plainAddr := 0x2A :: pk.toList
  plainAddr ++ [(checksum blake2b plainAddr).1, (checksum blake2b plainAddr).2]

theorem plainBytes_length (blake2b : Hash) (pk : PublicKey) :
    (plainBytes blake2b pk).length = 35 := by
  simp [plainBytes]

theorem valueBE_version (rest : List UInt8) (h : rest.length = 34) :
    58 ^ 47 ≤ valueBE 256 ((0x2A :: rest).map UInt8.toNat) ∧
      valueBE 256 ((0x2A :: rest).map UInt8.toNat) < 58 ^ 48 := by
  have hlt : valueBE 256 (rest.map UInt8.toNat) < 256 ^ 34 := by
    have := valueBE_lt (m := 256) (by norm_num) (toNat_lt_of_mem rest)
    simpa [h] using this
  have hv : valueBE 256 ((0x2A :: rest).map UInt8.toNat) =
      42 * 256 ^ 34 + valueBE 256 (rest.map UInt8.toNat) := by
    rw [List.map_cons, valueBE_cons, List.length_map, h]
    rfl
  rw [hv]
  constructor
  · have : 58 ^ 47 ≤ 42 * 256 ^ 34 := by norm_num
    omega
  · have : 43 * 256 ^ 34 ≤ 58 ^ 48 := by norm_num
    omega

theorem encodeBase58_version (rest : List UInt8) (h : rest.length = 34) :
    (encodeBase58 (0x2A :: rest)).length = 48 ∧
    (∀ c ∈ encodeBase58 (0x2A :: rest), c ∈ alphabet) ∧
    decodeBase58 (encodeBase58 (0x2A :: rest)) = .ok (0x2A :: rest) := by
  obtain ⟨hlow, hhigh⟩ := valueBE_version rest h
  have henc : encodeBase58 (0x2A :: rest) =
      (numeral 58 (valueBE 256 ((0x2A :: rest).map UInt8.toNat))).reverse.map symbol := by
    rw [encodeBase58_eq]
    rfl
  refine ⟨?_, ?_, ?_⟩
  · rw [henc, List.length_map, List.length_reverse]
    exact numeral_length (by norm_num) hlow hhigh
  · intro c hc
    rw [encodeBase58_rebase] at hc
    obtain ⟨d, hd, rfl⟩ := List.mem_map.1 hc
    exact symbol_mem (rebase_lt (by norm_num) _ _ d hd)
  · exact decodeBase58_encodeBase58 ⟨0x2A, List.mem_cons_self, by decide⟩

theorem encodeBase58_decode {s : Str} (hs : ∀ c ∈ s, c ∈ alphabet) {c : UInt8}
    {rest : List UInt8} (hc : c ≠ 0) (h : decodeBase58 s = .ok (c :: rest)) :
    encodeBase58 (c :: rest) = s := by
  obtain ⟨ds, hds, rfl⟩ := exists_digits hs
  rw [decodeBase58_rebase ds hds, Except.ok.injEq] at h
  have hz : ∃ d ∈ ds, d ≠ 0 := by
    by_contra hzero
    push Not at hzero
    obtain ⟨d, hd, rfl⟩ := List.mem_map.1 (h ▸ List.mem_cons_self : c ∈ _)
    rw [rebase_zeros 58 256 hzero] at hd
    exact hc (by rw [List.eq_of_mem_replicate hd]; rfl)
  rw [← h, encodeBase58_rebase, map_toNat_ofNat (rebase_lt (by norm_num) _ _),
    rebase_rebase 256 (by norm_num) hds hz]

def ChecksumOk (blake2b : Hash) (bytes : List UInt8) : Prop :=
  bytes.getD 33 0 = (checksum blake2b (bytes.take 33)).1 ∧
    bytes.getD 34 0 = (checksum blake2b (bytes.take 33)).2

instance (blake2b : Hash) (bytes : List UInt8) : Decidable (ChecksumOk blake2b bytes) :=
  inferInstanceAs (Decidable (_ ∧ _))

section Lookup

variable {blake2b : Hash} {addr : Address} {bytes : List UInt8}

theorem getPublicKeyFromAddr_ok (hd : decodeBase58 addr.toList = .ok bytes)
    (hl : bytes.length = 35) (hs : ChecksumOk blake2b bytes) :
    getPublicKeyFromAddr blake2b addr = FixedBytes.copy 32 (bytes.drop 1) := by
  rw [getPublicKeyFromAddr, hd]
  change (if bytes.length = 35 then _ else _) = _
  rw [if_pos hl]
  change (if _ then _ else _) = _
  rw [if_neg (by rw [not_or, not_not, not_not]; exact hs)]

theorem getPublicKeyFromAddr_checksum (hd : decodeBase58 addr.toList = .ok bytes)
    (hl : bytes.length = 35) (hs : ¬ ChecksumOk blake2b bytes) :
    getPublicKeyFromAddr blake2b addr =
      throwing (.application (lit "Address checksum is wrong.")) := by
  rw [getPublicKeyFromAddr, hd]
  change (if bytes.length = 35 then _ else _) = _
  rw [if_pos hl]
  change (if _ then _ else _) = _
  rw [if_pos]
  by_contra h
  rw [not_or, not_not, not_not] at h
  exact hs h

theorem getPublicKeyFromAddr_length (hd : decodeBase58 addr.toList = .ok bytes)
    (hl : bytes.length ≠ 35) : getPublicKeyFromAddr blake2b addr = .ok (FixedBytes.zero 32) := by
  rw [getPublicKeyFromAddr, hd]
  change (if bytes.length = 35 then _ else _) = _
  rw [if_neg hl]

theorem getPublicKeyFromAddr_error {f : Fault} (hd : decodeBase58 addr.toList = .error f) :
    getPublicKeyFromAddr blake2b addr = .error f := by
  rw [getPublicKeyFromAddr, hd]
  rfl

theorem getPublicKeyFromStr_eq (s : Str) (h : s.length = 48) :
    getPublicKeyFromStr blake2b s = getPublicKeyFromAddr blake2b ⟨s, h⟩ := by
  have hcopy : FixedBytes.copy 48 (s ++ [0]) = .ok ⟨s, h⟩ := by
    rw [FixedBytes.copy, dif_pos (by simp [h])]
    congr 1
    apply FixedBytes.ext_toList
    simp [← h]
  rw [getPublicKeyFromStr, hcopy]
  rfl

end Lookup

theorem zero_not_mem_alphabet : 0 ∉ alphabet := by decide +kernel

theorem encodeBase58_plainBytes (blake2b : Hash) (pk : PublicKey) :
    (encodeBase58 (plainBytes blake2b pk)).length = 48 ∧
    (∀ c ∈ encodeBase58 (plainBytes blake2b pk), c ∈ alphabet) ∧
    decodeBase58 (encodeBase58 (plainBytes blake2b pk)) = .ok (plainBytes blake2b pk) :=
  encodeBase58_version (pk.toList ++
    [(checksum blake2b (0x2A :: pk.toList)).1, (checksum blake2b (0x2A :: pk.toList)).2])
    (by simp)

theorem getAddrFromPublicKey_eq (blake2b : Hash) (pk : PublicKey) :
    getAddrFromPublicKey blake2b pk = encodeBase58 (plainBytes blake2b pk) := by
  apply cstr_eq_self
  intro hz
  exact zero_not_mem_alphabet ((encodeBase58_plainBytes blake2b pk).2.1 0 hz)

theorem plainBytes_checksumOk (blake2b : Hash) (pk : PublicKey) :
    ChecksumOk blake2b (plainBytes blake2b pk) := by
  have hl := pk.length_toList
  have htake : (plainBytes blake2b pk).take 33 = 0x2A :: pk.toList := by
    rw [plainBytes, List.take_left' (by simp)]
  rw [ChecksumOk, htake]
  constructor
  · simp [plainBytes, hl]
  · simp [plainBytes, hl]

theorem copy_plainBytes (blake2b : Hash) (pk : PublicKey) :
    FixedBytes.copy 32 ((plainBytes blake2b pk).drop 1) = .ok pk := by
  change FixedBytes.copy 32 (pk.toList ++ _) = _
  rw [FixedBytes.copy, dif_pos (by simp)]
  congr 1
  apply FixedBytes.ext_toList
  simp

theorem plainBytes_of_decoded {blake2b : Hash} {rest : List UInt8} (hl : rest.length = 34)
    (hs : ChecksumOk blake2b (0x2A :: rest)) :
    ∃ pk, FixedBytes.copy 32 rest = .ok pk ∧ plainBytes blake2b pk = 0x2A :: rest := by
  refine ⟨⟨rest.take 32, by simp [hl]⟩, by rw [FixedBytes.copy, dif_pos (by omega)], ?_⟩
  have htake : (0x2A :: rest).take 33 = 0x2A :: rest.take 32 := rfl
  rw [ChecksumOk, htake] at hs
  have hdrop : rest.drop 32 = [rest.getD 32 0, rest.getD 33 0] := by
    rw [List.getD_eq_getElem _ _ (by omega), List.getD_eq_getElem _ _ (by omega),
      List.drop_eq_getElem_cons (by omega), List.drop_eq_getElem_cons (by omega),
      List.drop_of_length_le (by omega)]
  rw [plainBytes, ← hs.1, ← hs.2]
  change 0x2A :: (rest.take 32 ++ [rest.getD 32 0, rest.getD 33 0]) = _
  rw [← hdrop, List.take_append_drop]

theorem getPublicKeyFromStr_getAddr (blake2b : Hash) (pk : PublicKey) :
    getPublicKeyFromStr blake2b (getAddrFromPublicKey blake2b pk) = .ok pk := by
  obtain ⟨hl, _, hd⟩ := encodeBase58_plainBytes blake2b pk
  rw [getAddrFromPublicKey_eq, getPublicKeyFromStr_eq _ hl,
    getPublicKeyFromAddr_ok hd (plainBytes_length blake2b pk) (plainBytes_checksumOk blake2b pk),
    copy_plainBytes]

theorem address_round_trip (blake2b : Hash) :
    (∀ pk : PublicKey, (getAddrFromPublicKey blake2b pk).length = 48 ∧
      (∀ c ∈ getAddrFromPublicKey blake2b pk, c ∈ alphabet) ∧
      getPublicKeyFromStr blake2b (getAddrFromPublicKey blake2b pk) = .ok pk) ∧
    ∀ (s : Str) (rest : List UInt8), s.length = 48 → (∀ c ∈ s, c ∈ alphabet) →
      decodeBase58 s = .ok (0x2A :: rest) → rest.length = 34 →
      ChecksumOk blake2b (0x2A :: rest) →
      ∃ pk, getPublicKeyFromStr blake2b s = .ok pk ∧ getAddrFromPublicKey blake2b pk = s := by
  constructor
  · intro pk
    obtain ⟨hl, hs, _⟩ := encodeBase58_plainBytes blake2b pk
    refine ⟨?_, ?_, getPublicKeyFromStr_getAddr blake2b pk⟩
    · rw [getAddrFromPublicKey_eq]
      exact hl
    · rw [getAddrFromPublicKey_eq]
      exact hs
  · intro s rest hl hs hd hlen hsum
    obtain ⟨pk, hcopy, hplain⟩ := plainBytes_of_decoded hlen hsum
    refine ⟨pk, ?_, ?_⟩
    · rw [getPublicKeyFromStr_eq s hl, getPublicKeyFromAddr_ok hd (by simp [hlen]) hsum]
      exact hcopy
    · rw [getAddrFromPublicKey_eq, hplain]
      exact encodeBase58_decode hs (by decide) hd

def knownHash : Hash := fun _ => ⟨0x51 :: 0x73 :: List.replicate 62 0, rfl⟩

def knownAddress : Str := lit "5FpxCaAovn3t2sTsbBeT5pWTj2rg392E8QoduwAyENcPrKht"

def knownKey : PublicKey :=
  ⟨[0xa6, 0x73, 0xc8, 0x14, 0xfa, 0xab, 0xab, 0x0f, 0x81, 0xf2, 0x83, 0x7d, 0x79, 0xdf, 0x6a,
    0xca, 0x04, 0x4d, 0xf1, 0x2b, 0xa9, 0xb7, 0x27, 0x11, 0x0f, 0xeb, 0xf9, 0x5b, 0xff, 0x2d,
    0x0c, 0x01], rfl⟩

theorem encodeBase58_known : encodeBase58 (plainBytes knownHash knownKey) = knownAddress := by
  decide +kernel

theorem address_round_trip_known : ∃ pk, getPublicKeyFromStr knownHash knownAddress = .ok pk ∧
    getAddrFromPublicKey knownHash pk = knownAddress := by
  obtain ⟨hl, hs, hd⟩ := encodeBase58_plainBytes knownHash knownKey
  have hplain : plainBytes knownHash knownKey = 0x2A :: (knownKey.toList ++ [0x51, 0x73]) := by
    decide +kernel
  have hsum := plainBytes_checksumOk knownHash knownKey
  rw [encodeBase58_known] at hl hs hd
  rw [hplain] at hd hsum
  exact (address_round_trip knownHash).2 knownAddress _ hl hs hd (by decide) hsum

theorem getPublicKeyFromStr_known : getPublicKeyFromStr knownHash knownAddress = .ok knownKey := by
  rw [← encodeBase58_known, ← getAddrFromPublicKey_eq]
  exact getPublicKeyFromStr_getAddr knownHash knownKey

def ValidAddress (blake2b : Hash) (addr : Address) : Prop :=
  (∀ c ∈ addr.toList, c ∈ alphabet) ∧
    ∃ bytes, decodeBase58 addr.toList = .ok bytes ∧ bytes.length = 35 ∧ ChecksumOk blake2b bytes

def RejectsInvalid (blake2b : Hash) (addr : Address) : Prop :=
  (∀ pk, getPublicKeyFromAddr blake2b addr = .ok pk → ValidAddress blake2b addr) ∧
    (¬ ValidAddress blake2b addr → ∃ what,
      getPublicKeyFromAddr blake2b addr = throwing (.application what))

theorem decodeDigits_error {s : Str} {result : List ℕ} {f : Fault}
    (h : decodeDigits s result = .error f) : f = .undefined := by
  induction s generalizing result with
  | nil => cases h
  | cons c s ih =>
    rw [decodeDigits, symbolValue] at h
    cases hm : alphabetMap[c.toNat]? with
    | none =>
      rw [hm] at h
      cases h
      rfl
    | some z =>
      rw [hm] at h
      exact ih h

theorem decodeBase58_error {s : Str} {f : Fault} (h : decodeBase58 s = .error f) :
    f = .undefined := by
  cases hd : decodeDigits s [0] with
  | error g =>
    rw [decodeBase58, hd] at h
    cases h
    exact decodeDigits_error hd
  | ok digits =>
    rw [decodeBase58_of_digits hd] at h
    cases h

/-- The length test has no `else` that throws, and symbols outside the alphabet
take part in the decoding. -/
theorem rejectsInvalid_iff (blake2b : Hash) (addr : Address) :
    RejectsInvalid blake2b addr ↔ ∃ bytes, decodeBase58 addr.toList = .ok bytes ∧
      bytes.length = 35 ∧ (ChecksumOk blake2b bytes → ∀ c ∈ addr.toList, c ∈ alphabet) := by
  cases hd : decodeBase58 addr.toList with
  | error f =>
    refine iff_of_false ?_ (by simp)
    rintro ⟨_, hthrow⟩
    obtain ⟨what, hw⟩ := hthrow (by simp [ValidAddress, hd])
    rw [getPublicKeyFromAddr_error hd, decodeBase58_error hd] at hw
    cases hw
  | ok bytes =>
    constructor
    · rintro ⟨hkey, _⟩
      have hl : bytes.length = 35 := by
        by_contra hl
        obtain ⟨_, out, hout, hlen, _⟩ := hkey _ (getPublicKeyFromAddr_length hd hl)
        rw [hd] at hout
        cases hout
        exact hl hlen
      refine ⟨bytes, rfl, hl, fun hs => ?_⟩
      have hcopy : FixedBytes.copy 32 (bytes.drop 1) =
          .ok ⟨(bytes.drop 1).take 32, by simp [hl]⟩ := by
        rw [FixedBytes.copy, dif_pos (by simp [hl])]
      exact (hkey _ ((getPublicKeyFromAddr_ok hd hl hs).trans hcopy)).1
    · rintro ⟨out, hout, hl, hsym⟩
      cases hout
      by_cases hs : ChecksumOk blake2b bytes
      · have hvalid : ValidAddress blake2b addr := ⟨hsym hs, bytes, hd, hl, hs⟩
        exact ⟨fun _ _ => hvalid, fun h => absurd hvalid h⟩
      · have hthrow := getPublicKeyFromAddr_checksum hd hl hs
        refine ⟨fun pk hk => ?_, fun _ => ⟨_, hthrow⟩⟩
        rw [hthrow] at hk
        cases hk

def zeroHash : Hash := fun _ => FixedBytes.zero 64

def overlongAddress : Address := ⟨List.replicate 48 122, rfl⟩

/-- Forty-eight `z` decode to 36 bytes, and the key returned is all zeros. -/
theorem rejectsInvalid_fails :
    ¬ ∀ (blake2b : Hash) (addr : Address), RejectsInvalid blake2b addr := by
  intro h
  obtain ⟨hkey, hlen⟩ :
      getPublicKeyFromAddr zeroHash overlongAddress = .ok (FixedBytes.zero 32) ∧
      (decodeBase58 overlongAddress.toList).map List.length = .ok 36 := by
    decide +kernel
  obtain ⟨_, bytes, hd, hl, _⟩ := (h zeroHash overlongAddress).1 _ hkey
  rw [hd] at hlen
  change Except.ok bytes.length = Except.ok 36 at hlen
  rw [hl] at hlen
  cases hlen

end PolkadotApi.AddressRoundTrip
