import PolkadotApi.ScaleCodec

set_option autoImplicit false

namespace PolkadotApi.ScaleRoundTrip
open StreamReader HexText MachineModel ScaleCodec

def bytesLE (n : ℕ) : List UInt8 := (Nat.digits 256 n).map UInt8.ofNat

def compact (n : ℕ) : List UInt8 :=
  if n < 2 ^ 6 then [UInt8.ofNat (4 * n)]
  else if n < 2 ^ 14 then [UInt8.ofNat (4 * n + 1), UInt8.ofNat ((4 * n + 1) / 2 ^ 8)]
  else if n < 2 ^ 30 then
    [UInt8.ofNat (4 * n + 2), UInt8.ofNat ((4 * n + 2) / 2 ^ 8),
      UInt8.ofNat ((4 * n + 2) / 2 ^ 16), UInt8.ofNat ((4 * n + 2) / 2 ^ 24)]
  else UInt8.ofNat (4 * ((bytesLE n).length - 4) + 3) :: bytesLE n

def valueLE (bs : List UInt8) : ℕ := Nat.ofDigits 256 (bs.map UInt8.toNat)

theorem valueLE_cons (b : UInt8) (bs : List UInt8) :
    valueLE (b :: bs) = b.toNat + 256 * valueLE bs := by
  simp [valueLE, Nat.ofDigits_cons]

theorem valueLE_lt (bs : List UInt8) : valueLE bs < 256 ^ bs.length := by
  simpa [valueLE] using Nat.ofDigits_lt_base_pow_length (by norm_num) (toNat_lt_of_mem bs)

theorem valueLE_bytesLE (n : ℕ) : valueLE (bytesLE n) = n := by
  have hlt : ∀ d ∈ Nat.digits 256 n, d < 256 := fun d hd => Nat.digits_lt_base (by norm_num) hd
  rw [valueLE, bytesLE, map_toNat_ofNat hlt, Nat.ofDigits_digits]

theorem length_bytesLE_le {n k : ℕ} (h : n < 256 ^ k) : (bytesLE n).length ≤ k := by
  rw [bytesLE, List.length_map]
  exact (Nat.digits_length_le_iff (by norm_num) n).2 h

theorem lt_length_bytesLE {n k : ℕ} (h : 256 ^ k ≤ n) : k < (bytesLE n).length := by
  rw [bytesLE, List.length_map]
  exact (Nat.lt_digits_length_iff (by norm_num) n).2 h

section Decoder

variable (R : Script)

theorem asLong_congr {m n : ℕ} (h : m % 2 ^ 64 = n % 2 ^ 64) : asLong m = asLong n := by
  have hz : (m : ℤ) % 2 ^ 64 = (n : ℤ) % 2 ^ 64 := by exact_mod_cast h
  unfold asLong
  simp only [hz]

theorem decodes_addBytes (bs : List UInt8) (number multiplier : ℕ) :
    ∃ v, Decodes R (addBytes bs.length number multiplier) bs v ∧ (number < 2 ^ 64 → v < 2 ^ 64) ∧
      v % 2 ^ 64 = (number + multiplier * valueLE bs) % 2 ^ 64 := by
  induction bs generalizing number multiplier with
  | nil => exact ⟨number, Decodes.of_pure (fun _ => rfl), id, by simp [valueLE]⟩
  | cons b bs ih =>
    obtain ⟨v, hv, hlt, hm⟩ :=
      ih ((number + b.toNat * multiplier) % 2 ^ 64) (multiplier * 256 % 2 ^ 64)
    have hstep : Decodes R (addBytes (b :: bs).length number multiplier) (b :: bs) v := by
      rw [List.length_cons, addBytes_succ]
      exact (decodes_nextByte R b).bind hv
    refine ⟨v, hstep, fun _ => hlt (Nat.mod_lt _ (by norm_num)), ?_⟩
    rw [hm, valueLE_cons]
    have hn : (number + b.toNat * multiplier) % 2 ^ 64 ≡ number + b.toNat * multiplier
        [MOD 2 ^ 64] := Nat.mod_modEq _ _
    have hk : multiplier * 256 % 2 ^ 64 ≡ multiplier * 256 [MOD 2 ^ 64] := Nat.mod_modEq _ _
    calc
      _ ≡ number + b.toNat * multiplier + multiplier * 256 * valueLE bs [MOD 2 ^ 64] :=
        hn.add (hk.mul_right _)
      _ = _ := by ring_nf

theorem and_three (b : UInt8) : b.toNat &&& 0b11 = b.toNat % 4 :=
  Nat.and_two_pow_sub_one_eq_mod b.toNat 2

theorem and_high (b : UInt8) : b.toNat &&& 0b11111100 = b.toNat - b.toNat % 4 := by
  revert b
  decide +kernel

theorem decodes_single {b : UInt8} (h : b.toNat % 4 = 0) :
    Decodes R decodeCompactInteger [b] (b.toNat / 4 : ℕ) := by
  have hb := b.toNat_lt
  have hv : asLong (b.toNat >>> 2) = (b.toNat / 4 : ℕ) := by
    rw [Nat.shiftRight_eq_div_pow, asLong_of_small (by omega)]
  have hf : decodeFlag b = pure (asLong (b.toNat >>> 2)) := by
    simp only [decodeFlag, and_three, h]
  apply (decodes_nextByte R b).bind_end
  rw [hf, hv]
  exact Decodes.of_pure (fun _ => rfl)

theorem decodes_double {b c : UInt8} (h : b.toNat % 4 = 1) :
    Decodes R decodeCompactInteger [b, c] (b.toNat / 4 + 64 * c.toNat : ℕ) := by
  have hb := b.toNat_lt
  have hc := c.toNat_lt
  have hv : asLong (((b.toNat &&& 0b11111100) + c.toNat * 256) >>> 2) =
      (b.toNat / 4 + 64 * c.toNat : ℕ) := by
    rw [and_high, Nat.shiftRight_eq_div_pow, asLong_of_small (by omega)]
    congr 1
    omega
  have hf : decodeFlag b = nextByte >>= fun second_byte =>
      pure (asLong (((b.toNat &&& 0b11111100) + second_byte.toNat * 256) >>> 2)) := by
    simp only [decodeFlag, and_three, h]
  change Decodes R _ ([b] ++ [c]) _
  apply (decodes_nextByte R b).bind
  rw [hf]
  apply (decodes_nextByte R c).bind_end
  rw [hv]
  exact Decodes.of_pure (fun _ => rfl)

theorem decodes_quad (b : UInt8) (bs : List UInt8) (h : b.toNat % 4 = 2) (hl : bs.length = 3) :
    Decodes R decodeCompactInteger (b :: bs) ((b.toNat + 256 * valueLE bs) / 4 : ℕ) := by
  have hb := b.toNat_lt
  obtain ⟨v, hv, hlt, hm⟩ := decodes_addBytes R bs b.toNat 256
  have hs := valueLE_lt bs
  rw [hl] at hs
  have hvalue : v = b.toNat + 256 * valueLE bs := by
    have := hlt (by omega)
    omega
  have hf : decodeFlag b = addBytes 3 b.toNat 256 >>= fun number =>
      pure (asLong (number >>> 2)) := by
    simp only [decodeFlag, and_three, h]
  have hshift : asLong (v >>> 2) = ((b.toNat + 256 * valueLE bs) / 4 : ℕ) := by
    rw [hvalue, Nat.shiftRight_eq_div_pow, asLong_of_small (by omega)]
  change Decodes R _ ([b] ++ bs) _
  apply (decodes_nextByte R b).bind
  rw [hf, ← hl]
  apply hv.bind_end
  rw [hshift]
  exact Decodes.of_pure (fun _ => rfl)

theorem decodes_big (b : UInt8) (bs : List UInt8) (h : b.toNat % 4 = 3)
    (hl : bs.length = b.toNat / 4 + 4) :
    Decodes R decodeCompactInteger (b :: bs) (asLong (valueLE bs)) := by
  obtain ⟨v, hv, _, hm⟩ := decodes_addBytes R bs 0 1
  rw [Nat.zero_add, Nat.one_mul] at hm
  have hf : decodeFlag b = addBytes (b.toNat / 4 + 4) 0 1 >>= fun value =>
      pure (asLong value) := by
    simp only [decodeFlag, and_three, h, Nat.shiftRight_eq_div_pow]
  change Decodes R _ ([b] ++ bs) _
  apply (decodes_nextByte R b).bind
  rw [hf, ← hl]
  apply hv.bind_end
  rw [asLong_congr hm]
  exact Decodes.of_pure (fun _ => rfl)

/-- The decoder inverts the SCALE encoding of every value a `long` can hold. -/
theorem decodes_compact (n : ℕ) (h : n < 2 ^ 63) :
    Decodes R decodeCompactInteger (compact n) n := by
  unfold compact
  split_ifs with h₁ h₂ h₃
  · have hb : (UInt8.ofNat (4 * n)).toNat = 4 * n := toNat_ofNat_lt (by omega)
    have hd := decodes_single R (b := UInt8.ofNat (4 * n)) (by omega)
    rwa [hb, Nat.mul_div_cancel_left n (by norm_num)] at hd
  · have hb : (UInt8.ofNat (4 * n + 1)).toNat = (4 * n + 1) % 256 := UInt8.toNat_ofNat'
    have hc : (UInt8.ofNat ((4 * n + 1) / 2 ^ 8)).toNat = (4 * n + 1) / 256 :=
      toNat_ofNat_lt (by omega)
    have hd := decodes_double R (b := UInt8.ofNat (4 * n + 1))
      (c := UInt8.ofNat ((4 * n + 1) / 2 ^ 8)) (by omega)
    have hv : (4 * n + 1) % 256 / 4 + 64 * ((4 * n + 1) / 256) = n := by omega
    rwa [hb, hc, hv] at hd
  · have hb : (UInt8.ofNat (4 * n + 2)).toNat = (4 * n + 2) % 256 := UInt8.toNat_ofNat'
    have hx : (UInt8.ofNat ((4 * n + 2) / 2 ^ 8)).toNat = (4 * n + 2) / 256 % 256 :=
      UInt8.toNat_ofNat'
    have hy : (UInt8.ofNat ((4 * n + 2) / 2 ^ 16)).toNat = (4 * n + 2) / 65536 % 256 :=
      UInt8.toNat_ofNat'
    have hz : (UInt8.ofNat ((4 * n + 2) / 2 ^ 24)).toNat = (4 * n + 2) / 16777216 :=
      toNat_ofNat_lt (by omega)
    have hd := decodes_quad R (UInt8.ofNat (4 * n + 2))
      [UInt8.ofNat ((4 * n + 2) / 2 ^ 8), UInt8.ofNat ((4 * n + 2) / 2 ^ 16),
        UInt8.ofNat ((4 * n + 2) / 2 ^ 24)] (by omega) rfl
    have hn : valueLE [] = 0 := rfl
    rw [valueLE_cons, valueLE_cons, valueLE_cons, hn, hb, hx, hy, hz] at hd
    have hv : ((4 * n + 2) % 256 + 256 * ((4 * n + 2) / 256 % 256 + 256 *
        ((4 * n + 2) / 65536 % 256 + 256 * ((4 * n + 2) / 16777216 + 256 * 0)))) / 4 = n := by
      omega
    rwa [hv] at hd
  · have hlong : 3 < (bytesLE n).length := lt_length_bytesLE (by omega)
    have hshort : (bytesLE n).length ≤ 8 := length_bytesLE_le (by omega)
    have hb : (UInt8.ofNat (4 * ((bytesLE n).length - 4) + 3)).toNat =
        4 * ((bytesLE n).length - 4) + 3 := toNat_ofNat_lt (by omega)
    have hd := decodes_big R (UInt8.ofNat (4 * ((bytesLE n).length - 4) + 3)) (bytesLE n)
      (by omega) (by omega)
    rwa [valueLE_bytesLE, asLong_of_small h] at hd

end Decoder

section Encoder

variable (R : Script)

theorem shiftLeft_or {mode : ℕ} (h : mode < 2 ^ 2) (n : ℕ) :
    (n <<< 2) ||| mode = 4 * n + mode := by
  rw [← Nat.shiftLeft_add_eq_or_of_lt h, Nat.shiftLeft_eq]
  omega

theorem and_low_six (n : ℕ) : n &&& 0x3F = n % 64 := Nat.and_two_pow_sub_one_eq_mod n 6

theorem and_low_byte (n : ℕ) : n &&& 0xFF = n % 256 := Nat.and_two_pow_sub_one_eq_mod n 8

/-- The mask of the two-byte mode keeps six of the eight upper bits. -/
theorem and_middle_six (n : ℕ) : (n &&& 0xFC0) >>> 6 = n / 64 % 64 := by
  rw [Nat.shiftRight_and_distrib, Nat.shiftRight_eq_div_pow]
  exact and_low_six (n / 64)

theorem ofNat_congr {m n : ℕ} (h : m % 256 = n % 256) : UInt8.ofNat m = UInt8.ofNat n := by
  apply UInt8.toNat_inj.1
  rw [UInt8.toNat_ofNat', UInt8.toNat_ofNat']
  exact h

def Encodes (n : ℕ) (bs : List UInt8) : Prop :=
  ∃ ci, encodeCompactInteger n = .ok ci ∧ ci.length = bs.length ∧ writeCompactToBuf ci = bs

theorem encode_single {n : ℕ} (h : n ≤ 63) : Encodes n [UInt8.ofNat (4 * n)] := by
  have hs : n <<< 2 = 4 * n := by
    rw [Nat.shiftLeft_eq]
    omega
  rw [Encodes, encodeCompactInteger]
  simp only [if_pos h, hs]
  exact ⟨_, rfl, rfl, rfl⟩

def doubleBytes (n : ℕ) : List UInt8 :=
  [UInt8.ofNat (4 * (n % 64) + 1), UInt8.ofNat (n / 64 % 64)]

theorem encode_double {n : ℕ} (h : 63 < n) (h' : n ≤ 0x3FFF) : Encodes n (doubleBytes n) := by
  rw [Encodes, encodeCompactInteger]
  simp only [if_neg (by omega : ¬ n ≤ 63), if_pos h', and_low_six,
    shiftLeft_or (by norm_num : 1 < 2 ^ 2), and_middle_six]
  exact ⟨_, rfl, rfl, rfl⟩

theorem encode_quad {n : ℕ} (h : 0x3FFF < n) (h' : n ≤ 0x3FFFFFFF) :
    Encodes n [UInt8.ofNat (4 * (n % 64) + 2), UInt8.ofNat (n / 64), UInt8.ofNat (n / 2 ^ 14),
      UInt8.ofNat (n / 2 ^ 22)] := by
  rw [Encodes, encodeCompactInteger]
  simp only [if_neg (by omega : ¬ n ≤ 63), if_neg (by omega : ¬ n ≤ 0x3FFF), if_pos h',
    and_low_six, shiftLeft_or (by norm_num : 2 < 2 ^ 2)]
  refine ⟨_, rfl, rfl, ?_⟩
  change [_, UInt8.ofNat ((n >>> 6) &&& 0xFF), UInt8.ofNat ((n >>> 6 >>> 8) &&& 0xFF),
    UInt8.ofNat ((n >>> 6 >>> 8 >>> 8) &&& 0xFF)] = _
  simp only [and_low_byte, Nat.shiftRight_eq_div_pow, Nat.div_div_eq_div_mul, UInt8.ofNat_mod_size']
  norm_num

theorem bytesLE_pos {n : ℕ} (h : n ≠ 0) :
    bytesLE n = UInt8.ofNat (n % 256) :: bytesLE (n / 256) := by
  rw [bytesLE, Nat.digits_def' (by norm_num) (by omega), List.map_cons]
  rfl

theorem take_set_succ {α : Type} (l : List α) (i : ℕ) (v : α) (h : i < l.length) :
    (l.set i v).take (i + 1) = l.take i ++ [v] := by
  rw [List.take_succ_eq_append_getElem (by simpa using h)]
  simp [List.take_set_of_le]

theorem room_step {i : ℕ} (h : i < 8) : 256 ^ (8 - i) = 256 * 256 ^ (8 - (i + 1)) := by
  rw [← Nat.pow_succ']
  congr 1
  omega

theorem storeWhile_spec (bytes : FixedBytes 8) (rounds i n : ℕ) (hi : i ≤ 8)
    (hn : n < 256 ^ (8 - i)) (hr : 8 - i ≤ rounds) :
    ∃ out, storeWhile bytes rounds i n = .ok (i + (bytesLE n).length, out) ∧
      out.toList = bytes.toList.take i ++ bytesLE n ++
        bytes.toList.drop (i + (bytesLE n).length) := by
  have hstop : ∀ m, m = 0 → bytesLE m = [] := by
    rintro m rfl
    simp [bytesLE]
  induction rounds generalizing bytes i n with
  | zero =>
    have h0 : n = 0 := by
      have : 8 - i = 0 := by omega
      rw [this] at hn
      omega
    rw [hstop n h0]
    exact ⟨bytes, rfl, by simp⟩
  | succ rounds ih =>
    by_cases h0 : n = 0
    · rw [hstop n h0]
      exact ⟨bytes, by simp [storeWhile, h0], by simp⟩
    · have hlt : i < 8 := by
        by_contra hge
        have : 8 - i = 0 := by omega
        rw [this] at hn
        omega
      have hpow := room_step hlt
      have hdiv : n / 256 < 256 ^ (8 - (i + 1)) := by
        rw [Nat.div_lt_iff_lt_mul (by norm_num)]
        omega
      have hmask : UInt8.ofNat (n &&& 0xFF) = UInt8.ofNat (n % 256) := by rw [and_low_byte]
      have hshift : n >>> 8 = n / 256 := Nat.shiftRight_eq_div_pow n 8
      obtain ⟨out, hout, hlist⟩ := ih
        ⟨bytes.toList.set i (UInt8.ofNat (n % 256)), by simp⟩ (i + 1) (n / 256) (by omega)
        hdiv (by omega)
      refine ⟨out, ?_, ?_⟩
      · rw [storeWhile, if_neg h0, storeByte, if_pos hlt, hmask, hshift]
        change storeWhile _ rounds (i + 1) (n / 256) = _
        rw [hout, bytesLE_pos h0, List.length_cons]
        congr 2
        omega
      · rw [hlist, take_set_succ _ _ _ (by simpa using hlt), bytesLE_pos h0, List.length_cons,
          List.drop_set_of_lt (by omega)]
        simp [Nat.add_assoc, Nat.add_comm]

theorem encode_big {n : ℕ} (h : 0x3FFFFFFF < n) (h' : n < 2 ^ 56) :
    Encodes n (UInt8.ofNat (4 * ((bytesLE n).length - 4) + 3) :: bytesLE n) := by
  obtain ⟨out, hout, hlist⟩ := storeWhile_spec (FixedBytes.zero 8) 16 1 n (by norm_num)
    (by simpa using h') (by norm_num)
  have hsub : 1 + (bytesLE n).length - 5 = (bytesLE n).length - 4 := by omega
  rw [Encodes, encodeCompactInteger]
  simp only [if_neg (by omega : ¬ n ≤ 63), if_neg (by omega : ¬ n ≤ 0x3FFF),
    if_neg (by omega : ¬ n ≤ 0x3FFFFFFF), hout]
  refine ⟨_, rfl, Nat.add_comm 1 _, ?_⟩
  change (out.toList.set 0 (UInt8.ofNat (((1 + (bytesLE n).length - 5) <<< 2) ||| 3))).take
    (1 + (bytesLE n).length) = _
  rw [hlist, hsub, shiftLeft_or (by norm_num)]
  have hz : (FixedBytes.zero 8).toList.take 1 = [0] := rfl
  rw [hz]
  simp [Nat.add_comm 1]

/-- The encoder follows the format wherever the two-byte mask loses no bit. -/
theorem encode_compact {n : ℕ} (h : n < 2 ^ 56) (hgap : n < 2 ^ 12 ∨ 2 ^ 14 ≤ n) :
    Encodes n (compact n) := by
  unfold compact
  split_ifs with h₁ h₂ h₃
  · exact encode_single (by omega)
  · rw [← ofNat_congr (by omega : (4 * (n % 64) + 1) % 256 = (4 * n + 1) % 256),
      ← ofNat_congr (by omega : n / 64 % 64 % 256 = (4 * n + 1) / 2 ^ 8 % 256)]
    exact encode_double (by omega) (by omega)
  · rw [← ofNat_congr (by omega : (4 * (n % 64) + 2) % 256 = (4 * n + 2) % 256),
      ← ofNat_congr (by omega : n / 64 % 256 = (4 * n + 2) / 2 ^ 8 % 256),
      ← ofNat_congr (by omega : n / 2 ^ 14 % 256 = (4 * n + 2) / 2 ^ 16 % 256),
      ← ofNat_congr (by omega : n / 2 ^ 22 % 256 = (4 * n + 2) / 2 ^ 24 % 256)]
    exact encode_quad (by omega) (by omega)
  · exact encode_big (by omega) h

theorem decodes_doubleBytes (n : ℕ) :
    Decodes R decodeCompactInteger (doubleBytes n) (n % 2 ^ 12 : ℕ) := by
  have hb : (UInt8.ofNat (4 * (n % 64) + 1)).toNat = 4 * (n % 64) + 1 :=
    toNat_ofNat_lt (by omega)
  have hc : (UInt8.ofNat (n / 64 % 64)).toNat = n / 64 % 64 := toNat_ofNat_lt (by omega)
  have hd := decodes_double R (b := UInt8.ofNat (4 * (n % 64) + 1))
    (c := UInt8.ofNat (n / 64 % 64)) (by omega)
  have hv : (4 * (n % 64) + 1) / 4 + 64 * (n / 64 % 64) = n % 2 ^ 12 := by omega
  rwa [hb, hc, hv] at hd

theorem exists_encodes {n : ℕ} (h : n < 2 ^ 56) :
    ∃ bs, Encodes n bs ∧ bs.length = (compact n).length := by
  by_cases hgap : n < 2 ^ 12 ∨ 2 ^ 14 ≤ n
  · exact ⟨compact n, encode_compact h hgap, rfl⟩
  · refine ⟨doubleBytes n, encode_double (by omega) (by omega), ?_⟩
    rw [compact, if_neg (by omega), if_pos (by omega)]
    rfl

/-- A value of eight bytes or more is stored past the end of the array. -/
theorem storeWhile_overflow (bytes : FixedBytes 8) (rounds i n : ℕ) (hi : i ≤ 8)
    (hn : 256 ^ (8 - i) ≤ n) (hr : 8 - i < rounds) :
    storeWhile bytes rounds i n = .error .undefined := by
  induction rounds generalizing bytes i n with
  | zero => omega
  | succ rounds ih =>
    have hpos : 0 < 256 ^ (8 - i) := by positivity
    rw [storeWhile, if_neg (by omega)]
    by_cases hlt : i < 8
    · have hpow := room_step hlt
      have hdiv : 256 ^ (8 - (i + 1)) ≤ n / 256 := by
        rw [Nat.le_div_iff_mul_le (by norm_num)]
        omega
      have hshift : n >>> 8 = n / 256 := Nat.shiftRight_eq_div_pow n 8
      rw [storeByte, if_pos hlt, hshift]
      exact ih _ (i + 1) (n / 256) (by omega) hdiv (by omega)
    · rw [storeByte, if_neg hlt]
      rfl

theorem encode_overflow {n : ℕ} (h : 2 ^ 56 ≤ n) :
    encodeCompactInteger n = .error .undefined := by
  have hloop := storeWhile_overflow (FixedBytes.zero 8) 16 1 n (by norm_num) (by norm_num; omega)
    (by norm_num)
  rw [encodeCompactInteger]
  simp only [if_neg (by omega : ¬ n ≤ 63), if_neg (by omega : ¬ n ≤ 0x3FFF),
    if_neg (by omega : ¬ n ≤ 0x3FFFFFFF), hloop]
  rfl

theorem encode_width {n : ℕ} {ci : CompactIntegerLEBytes} (h : encodeCompactInteger n = .ok ci) :
    n < 2 ^ 56 ∧ ci.length = (compact n).length ∧ (writeCompactToBuf ci).length = ci.length := by
  have hlt : n < 2 ^ 56 := by
    by_contra hge
    rw [encode_overflow (by omega)] at h
    cases h
  obtain ⟨bs, ⟨ci', hci, hlength, hwrite⟩, hwidth⟩ := exists_encodes hlt
  obtain rfl : ci' = ci := Except.ok.inj (hci.symm.trans h)
  exact ⟨hlt, hlength.trans hwidth, by rw [hwrite, hlength]⟩

theorem compact_length_eq_one_iff (n : ℕ) : (compact n).length = 1 ↔ n < 64 := by
  unfold compact
  split_ifs with h₁ h₂ h₃
  · simp
    omega
  · simp
    omega
  · simp
    omega
  · have hlong : 3 < (bytesLE n).length := lt_length_bytesLE (by omega)
    simp only [List.length_cons]
    omega

theorem compact_length_bounds {n : ℕ} (h : n < 2 ^ 56) :
    1 ≤ (compact n).length ∧ (compact n).length ≤ 8 := by
  unfold compact
  split_ifs with h₁ h₂ h₃
  · simp
  · simp
  · simp
  · have hshort : (bytesLE n).length ≤ 7 := length_bytesLE_le (by omega)
    simp only [List.length_cons]
    omega

end Encoder

/-- Encoding then decoding gives back `n` and the rest of the stream exactly
outside the range where the two-byte mask drops bits. -/
theorem decode_encode_iff (n : ℕ) (h : n < 2 ^ 56) :
    ∃ ci, encodeCompactInteger n = .ok ci ∧ ∀ text rest, Spells (writeCompactToBuf ci) text →
      (decodeCompactInteger (m := Reader) (text ++ rest) = .ok ((n : ℤ), rest) ↔
        n < 2 ^ 12 ∨ 2 ^ 14 ≤ n) := by
  by_cases hgap : n < 2 ^ 12 ∨ 2 ^ 14 ≤ n
  · obtain ⟨ci, hci, -, hw⟩ := encode_compact h hgap
    refine ⟨ci, hci, fun text rest ht => iff_of_true ?_ hgap⟩
    exact decodes_compact anyCase n (by omega) text rest (hw ▸ ht)
  · obtain ⟨ci, hci, -, hw⟩ := encode_double (n := n) (by omega) (by omega)
    refine ⟨ci, hci, fun text rest ht => iff_of_false ?_ hgap⟩
    rw [decodes_doubleBytes anyCase n text rest (hw ▸ ht)]
    intro he
    simp only [Except.ok.injEq, Prod.mk.injEq, Nat.cast_inj] at he
    omega

theorem decode_encode_iff_amount : (10 ^ 12 < 2 ^ 56) ∧ ∃ ci,
    encodeCompactInteger (10 ^ 12) = .ok ci ∧ ∀ text rest, Spells (writeCompactToBuf ci) text →
      (decodeCompactInteger (m := Reader) (text ++ rest) = .ok (((10 ^ 12 : ℕ) : ℤ), rest) ↔
        10 ^ 12 < 2 ^ 12 ∨ 2 ^ 14 ≤ 10 ^ 12) :=
  ⟨by norm_num, decode_encode_iff (10 ^ 12) (by norm_num)⟩

theorem decode_encode_fails : ¬ ∀ n < 2 ^ 56, ∀ rest : Str, ∃ ci,
    encodeCompactInteger n = .ok ci ∧
      decodeCompactInteger (m := Reader) (upperText (writeCompactToBuf ci) ++ rest) =
        .ok ((n : ℤ), rest) := by
  intro h
  obtain ⟨ci, hci, hd⟩ := h 4096 (by norm_num) []
  have he : encodeCompactInteger 4096 = .ok ⟨2, ⟨[1, 0, 0, 0, 0, 0, 0, 0], rfl⟩⟩ := by
    decide +kernel
  rw [he] at hci
  cases hci
  revert hd
  decide +kernel

/-- A 128-bit value is encoded with stores inside the array, in at most its eight
bytes, exactly when it has at most seven bytes: the header byte takes the eighth. -/
theorem encode_inside_iff (n : BitVec 128) :
    (∃ ci, encodeCompactInteger n.toNat = .ok ci ∧ ci.length ≤ 8) ↔ n.toNat < 2 ^ 56 := by
  constructor
  · rintro ⟨ci, hci, -⟩
    exact (encode_width hci).1
  · intro h
    obtain ⟨bs, ⟨ci, hci, hlength, -⟩, hwidth⟩ := exists_encodes h
    refine ⟨ci, hci, ?_⟩
    rw [hlength, hwidth]
    exact (compact_length_bounds h).2

theorem encode_inside_fails :
    ¬ ∀ n : BitVec 128, ∃ ci, encodeCompactInteger n.toNat = .ok ci ∧ ci.length ≤ 8 := by
  intro hall
  obtain ⟨ci, hci, -⟩ := hall (2 ^ 56)
  have hover : encodeCompactInteger (2 ^ 56 : BitVec 128).toNat = .error .undefined := by
    decide +kernel
  rw [hover] at hci
  cases hci

end PolkadotApi.ScaleRoundTrip
