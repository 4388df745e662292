import PolkadotApi.AddressCodec

set_option autoImplicit false

namespace PolkadotApi.Base58RoundTrip
open MachineModel PositionalNumerals AddressCodec

theorem map_ofNat_toNat (bytes : List UInt8) :
    (bytes.map UInt8.toNat).map UInt8.ofNat = bytes := by
  rw [List.map_map]
  conv_rhs => rw [← List.map_id bytes]
  apply List.map_congr_left
  intro b _
  exact UInt8.ofNat_toNat

theorem rebase_lt {b' : ℕ} (hb : 1 < b') (b : ℕ) (ds : List ℕ) : ∀ d ∈ rebase b b' ds, d < b' := by
  intro d hd
  rw [rebase, List.mem_append, List.mem_replicate, List.mem_reverse] at hd
  rcases hd with ⟨_, rfl⟩ | hd
  · omega
  · exact numeral_lt hb _ d hd

theorem takeWhile_toNat (bytes : List UInt8) :
    ((bytes.map UInt8.toNat).takeWhile (· = 0)).length = (bytes.takeWhile (· = 0)).length := by
  induction bytes with
  | nil => rfl
  | cons b bytes ih =>
    have hzero : b.toNat = 0 ↔ b = 0 := UInt8.toNat_inj (b := 0)
    simp only [List.map_cons, List.takeWhile_cons, decide_eq_true_eq, hzero]
    split_ifs
    · rw [List.length_cons, List.length_cons, ih]
    · rfl

theorem encodeBase58_rebase (bytes : List UInt8) :
    encodeBase58 bytes = (rebase 256 58 (bytes.map UInt8.toNat)).map symbol := by
  rw [encodeBase58_eq, rebase, List.map_append, List.map_replicate, takeWhile_toNat]
  rfl

theorem decodeBase58_rebase (ds : List ℕ) (h : ∀ d ∈ ds, d < 58) :
    decodeBase58 (ds.map symbol) = .ok ((rebase 58 256 ds).map UInt8.ofNat) := by
  rw [decodeBase58_symbols ds h, rebase, List.reverse_append, List.reverse_replicate]

theorem decodeBase58_encodeBase58 {bytes : List UInt8} (h : ∃ b ∈ bytes, b ≠ 0) :
    decodeBase58 (encodeBase58 bytes) = .ok bytes := by
  have hz : ∃ d ∈ bytes.map UInt8.toNat, d ≠ 0 := by
    obtain ⟨b, hb, hne⟩ := h
    exact ⟨b.toNat, List.mem_map_of_mem hb, fun hn => hne (UInt8.toNat_inj.1 hn)⟩
  rw [encodeBase58_rebase, decodeBase58_rebase _ (rebase_lt (by norm_num) _ _),
    rebase_rebase 58 (by norm_num) (toNat_lt_of_mem bytes) hz, map_ofNat_toNat]

theorem encodeBase58_decodeBase58 {str : Str} (hs : ∀ c ∈ str, c ∈ alphabet)
    (h : ∃ c ∈ str, c ≠ 49) : ∃ bytes, decodeBase58 str = .ok bytes ∧ encodeBase58 bytes = str := by
  obtain ⟨ds, hds, rfl⟩ := exists_digits hs
  have hz : ∃ d ∈ ds, d ≠ 0 := by
    obtain ⟨c, hc, hne⟩ := h
    obtain ⟨d, hd, rfl⟩ := List.mem_map.1 hc
    exact ⟨d, hd, fun hzero => hne ((symbol_eq_one_iff (hds d hd)).2 hzero)⟩
  refine ⟨_, decodeBase58_rebase ds hds, ?_⟩
  rw [encodeBase58_rebase, map_toNat_ofNat (rebase_lt (by norm_num) _ _),
    rebase_rebase 256 (by norm_num) hds hz]

theorem base58_round_trips :
    (∀ bytes : List UInt8, (∃ b ∈ bytes, b ≠ 0) →
      decodeBase58 (encodeBase58 bytes) = .ok bytes) ∧
    ∀ str : Str, (∀ c ∈ str, c ∈ alphabet) → (∃ c ∈ str, c ≠ 49) →
      ∃ bytes, decodeBase58 str = .ok bytes ∧ encodeBase58 bytes = str :=
  ⟨fun _ h => decodeBase58_encodeBase58 h, fun _ hs h => encodeBase58_decodeBase58 hs h⟩

theorem base58_round_trips_leading :
    decodeBase58 (encodeBase58 [0, 0, 255, 0]) = .ok [0, 0, 255, 0] ∧
      ∃ bytes, decodeBase58 (lit "11z1") = .ok bytes ∧ encodeBase58 bytes = lit "11z1" :=
  ⟨base58_round_trips.1 [0, 0, 255, 0] ⟨255, by simp, by decide⟩,
    base58_round_trips.2 (lit "11z1") (by decide +kernel) (by decide +kernel)⟩

end PolkadotApi.Base58RoundTrip
