import PolkadotApi.AddressRoundTrip
import PolkadotApi.Blake2bStreams
import PolkadotApi.JsonRoundTrip
import PolkadotApi.StorageKeys
import PolkadotApi.Xxh64Laws

set_option autoImplicit false

namespace PolkadotApi.AccountKeys
open StreamReader HexText MachineModel JsonValues JsonText JsonGrammar JsonRoundTrip AddressCodec
open AddressRoundTrip StorageKeys

section Hashes

theorem length_flatMap_store64 (words : List UInt64) :
    (words.flatMap Blake2b.store64).length = 8 * words.length := by
  induction words with
  | nil => rfl
  | cons w words ih =>
    have hword : (Blake2b.store64 w).length = 8 := by simp [Blake2b.store64]
    rw [List.flatMap_cons, List.length_append, ih, hword, List.length_cons]
    omega

theorem length_digest {outlen : ℕ} (hout : outlen ≤ Blake2b.OUTBYTES) (key message : List UInt8) :
    (Blake2b.digest outlen key message).length = outlen := by
  rw [Blake2b.digest, Blake2b.finish, List.length_take, length_flatMap_store64, Vector.length_toList]
  exact Nat.min_eq_left hout

/-- BLAKE2b without a key, as a function to hashes of a fixed length. -/
def blake2bHash (outlen : ℕ) (hout : outlen ≤ Blake2b.OUTBYTES) (message : List UInt8) :
    FixedBytes outlen :=
  ⟨Blake2b.digest outlen [] message, length_digest hout [] message⟩

/-- The bundled code for the hash functions and the parser. The signature, the value of a
decimal text and the texts of standard exceptions stay open. -/
def bundled (sign : PublicKey → List UInt8 → List UInt8 → FixedBytes 64) (toInt : Str → ℤ)
    (what : Exception → Str) : Libraries where
  blake2b := blake2bHash 64 (by decide)
  sr25519Sign := sign
  xxh64 := fun data seed => (Xxh64.hash data (.ofNat seed)).toNat
  blake2b256 := blake2bHash 32 (by decide)
  parse := parse toInt
  what := what

end Hashes

def accountParam (address : Str) : Json :=
  .object [(lit "type", .string (lit "AccountId")), (lit "value", .string address)]

theorem fits_accountParam (address : Str) : Fits (maxDepth + 1) (accountParam address) := by
  simp [maxDepth, accountParam, Fits]
  decide

section Keys

theorem addressKey_eq (lib : Libraries) (hasher : Hasher) (pk : PublicKey) {keyPrefix : Str}
    (hfit : keyPrefix.length ≤ STRING_SIZE) :
    (do
      let addr ← FixedBytes.copy 48 (getAddrFromPublicKey lib.blake2b pk ++ [0])
      getAddressStorageKey lib hasher addr keyPrefix) =
        .ok (getStorageKey lib hasher (keyPrefix ++ pk.toList)) := by
  have hkey := getPublicKeyFromStr_getAddr lib.blake2b pk
  have hwrite : writeBuf (32 + STRING_SIZE) (keyPrefix ++ pk.toList) =
      .ok (keyPrefix ++ pk.toList) := by
    apply writeBuf_ok
    rw [List.length_append, pk.length_toList]
    omega
  rw [getPublicKeyFromStr] at hkey
  obtain ⟨addr, haddr, hpk⟩ := except_bind_eq_ok hkey
  rw [haddr, except_ok_bind, getAddressStorageKey, hpk, except_ok_bind, hwrite]
  rfl

theorem mappedKey_eq (lib : Libraries) (hasher : Hasher) (pk : PublicKey) {jsonPrm keyPrefix : Str}
    (hfit : keyPrefix.length ≤ STRING_SIZE)
    (hparse : lib.parse jsonPrm = .ok (accountParam (getAddrFromPublicKey lib.blake2b pk))) :
    getMappedStorageKey lib hasher jsonPrm keyPrefix =
      .ok (getStorageKey lib hasher (keyPrefix ++ pk.toList)) := by
  have htype : ((accountParam (getAddrFromPublicKey lib.blake2b pk)).field "type").stringValue =
      lit "AccountId" := rfl
  have hvalue : ((accountParam (getAddrFromPublicKey lib.blake2b pk)).field "value").stringValue =
      getAddrFromPublicKey lib.blake2b pk := rfl
  rw [getMappedStorageKey, hparse]
  simp only [htype, hvalue, if_true]
  exact addressKey_eq lib hasher pk hfit

variable (sign : PublicKey → List UInt8 → List UInt8 → FixedBytes 64) {toInt : Str → ℤ}
  (what : Exception → Str)

/-- The text of the key is the hash of the prefix and the public key, as the bundled
code computes it. -/
theorem account_keys (htoInt : ∀ n : ℤ, -2 ^ 31 ≤ n → n < 2 ^ 31 → toInt (lit (toString n)) = n)
    (pk : PublicKey) {keyPrefix : Str} (hfit : keyPrefix.length ≤ STRING_SIZE) :
    (∃ hash, Blake2b.blake2b 32 (keyPrefix ++ pk.toList) [] = .ok (some hash) ∧
      getMappedStorageKey (bundled sign toInt what) .blake2
        (Json.dump (accountParam (getAddrFromPublicKey (bundled sign toInt what).blake2b pk)))
        keyPrefix = .ok (lit "0x" ++ upperText hash)) ∧
    ∃ low high, Xxh64.xxh64 (keyPrefix ++ pk.toList) (keyPrefix ++ pk.toList).length 0 = .ok low ∧
      Xxh64.xxh64 (keyPrefix ++ pk.toList) (keyPrefix ++ pk.toList).length 1 = .ok high ∧
      getMappedStorageKey (bundled sign toInt what) .xxhash
        (Json.dump (accountParam (getAddrFromPublicKey (bundled sign toInt what).blake2b pk)))
        keyPrefix = .ok (lit "0x" ++ upperText (wordBytes low.toNat ++ wordBytes high.toNat)) := by
  have hparse : (bundled sign toInt what).parse
      (Json.dump (accountParam (getAddrFromPublicKey (bundled sign toInt what).blake2b pk))) =
        .ok (accountParam (getAddrFromPublicKey (bundled sign toInt what).blake2b pk)) :=
    (parse_eq_ok_iff toInt _ _).2 (jsonDocument_dump htoInt (fits_accountParam _))
  have hout : 0 < 32 ∧ 32 ≤ Blake2b.OUTBYTES := by decide
  have hkey : ([] : List UInt8).length ≤ Blake2b.KEYBYTES := by decide
  refine ⟨⟨Blake2b.digest 32 [] (keyPrefix ++ pk.toList), ?_, ?_⟩, ?_⟩
  · rw [Blake2b.blake2b_eq_streamed hout hkey, Blake2b.streamed_eq hout hkey,
      List.flatten_singleton]
  · rw [mappedKey_eq _ _ _ hfit hparse]
    rfl
  · refine ⟨_, _, Xxh64.xxh64_eq (Nat.le_refl _) 0, Xxh64.xxh64_eq (Nat.le_refl _) 1, ?_⟩
    rw [List.take_length, mappedKey_eq _ _ _ hfit hparse]
    rfl

/-- The prefix of the free balances and a key of zeros. -/
theorem account_keys_zero :
    ∃ hash, Blake2b.blake2b 32 (lit "Balances FreeBalance" ++ List.replicate 32 0) [] =
        .ok (some hash) ∧
      getMappedStorageKey (bundled (fun _ _ _ => .zero 64) atoi fun _ => []) .blake2
        (Json.dump (accountParam (getAddrFromPublicKey
          (bundled (fun _ _ _ => .zero 64) atoi fun _ => []).blake2b (.zero 32))))
        (lit "Balances FreeBalance") = .ok (lit "0x" ++ upperText hash) :=
  (account_keys _ _ (fun n _ _ => atoi_int n) (.zero 32) (by decide)).1

end Keys

end PolkadotApi.AccountKeys
