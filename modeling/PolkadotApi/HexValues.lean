import PolkadotApi.Converters
import PolkadotApi.PositionalNumerals

set_option autoImplicit false

namespace PolkadotApi.HexValues
open StreamReader HexText MachineModel Converters PositionalNumerals

def bigEndian (bytes : List UInt8) : ℕ := valueBE 256 (bytes.map UInt8.toNat)

def littleEndian (bytes : List UInt8) : ℕ := Nat.ofDigits 256 (bytes.map UInt8.toNat)

theorem littleEndian_reverse (bytes : List UInt8) :
    littleEndian bytes.reverse = bigEndian bytes := by
  rw [littleEndian, bigEndian, valueBE_eq_ofDigits, List.map_reverse]

theorem littleEndian_cons (b : UInt8) (bytes : List UInt8) :
    littleEndian (b :: bytes) = b.toNat + 256 * littleEndian bytes := by
  rw [littleEndian, List.map_cons, Nat.ofDigits_cons]
  rfl

section Words

variable {w : ℕ}

theorem joinLittle_eq (bytes : List UInt8) {byteOffset result : ℕ}
    (hroom : byteOffset + 8 * bytes.length ≤ w) (hresult : result < 2 ^ byteOffset) :
    joinLittle w bytes byteOffset result =
      .ok (result + 2 ^ byteOffset * littleEndian bytes) := by
  induction bytes generalizing byteOffset result with
  | nil => simp [joinLittle, littleEndian]
  | cons b bytes ih =>
    rw [List.length_cons] at hroom
    have hb := b.toNat_lt
    have hshift : b.toNat <<< byteOffset < 2 ^ (byteOffset + 8) := by
      rw [Nat.shiftLeft_eq, Nat.pow_add, Nat.mul_comm]
      exact Nat.mul_lt_mul_of_pos_left hb (Nat.two_pow_pos _)
    have hword : 2 ^ (byteOffset + 8) ≤ 2 ^ w := Nat.pow_le_pow_right (by norm_num) (by omega)
    have hjoined : (b.toNat <<< byteOffset) % 2 ^ w ||| result =
        result + 2 ^ byteOffset * b.toNat := by
      rw [Nat.mod_eq_of_lt (by omega), ← Nat.shiftLeft_add_eq_or_of_lt hresult, Nat.shiftLeft_eq,
        Nat.mul_comm, Nat.add_comm]
    have hnext : result + 2 ^ byteOffset * b.toNat < 2 ^ (byteOffset + 8) := by
      have hle : 2 ^ byteOffset * (b.toNat + 1) ≤ 2 ^ byteOffset * 256 :=
        Nat.mul_le_mul_left _ (by omega)
      rw [Nat.pow_add]
      rw [Nat.mul_succ] at hle
      omega
    rw [joinLittle, if_pos (by omega), hjoined, ih (by omega) hnext, littleEndian_cons]
    congr 1
    rw [Nat.pow_add]
    ring

theorem foldl_joinBig (bytes : List UInt8) (bits : ℕ) {result : ℕ} (hresult : result < 2 ^ bits)
    (hroom : bits + 8 * bytes.length ≤ w) :
    bytes.foldl (fun result b => ((result <<< 8) % 2 ^ w) ||| b.toNat) result =
      (bytes.map UInt8.toNat).foldl (fun n c => n * 256 + c) result := by
  induction bytes generalizing bits result with
  | nil => rfl
  | cons b bytes ih =>
    rw [List.length_cons] at hroom
    have hb := b.toNat_lt
    have hpow : 2 ^ (bits + 8) = 2 ^ bits * 256 := by rw [Nat.pow_add]
    have hword : 2 ^ (bits + 8) ≤ 2 ^ w := Nat.pow_le_pow_right (by norm_num) (by omega)
    have hjoined : (result <<< 8) % 2 ^ w ||| b.toNat = result * 256 + b.toNat := by
      have hshift : result <<< 8 = result * 256 := Nat.shiftLeft_eq _ _
      rw [Nat.mod_eq_of_lt (by omega),
        ← Nat.shiftLeft_add_eq_or_of_lt (show b.toNat < 2 ^ 8 from hb), hshift]
    rw [List.foldl_cons, List.map_cons, List.foldl_cons, hjoined]
    exact ih (bits + 8) (by omega) (by omega)

theorem joinBig_mod (hw : 8 ≤ w) (n : ℕ) (b : UInt8) :
    ((n % 2 ^ w) <<< 8) % 2 ^ w ||| b.toNat = (n * 256 + b.toNat) % 2 ^ w := by
  have hb : b.toNat < 2 ^ 8 := b.toNat_lt
  have hpow : 2 ^ w = 256 * 2 ^ (w - 8) := by
    have hsplit := Nat.pow_add 2 8 (w - 8)
    rwa [Nat.add_sub_cancel' hw] at hsplit
  have hhigh : ((n % 2 ^ w) <<< 8) % 2 ^ w = (n % 2 ^ (w - 8)) <<< 8 := by
    rw [Nat.shiftLeft_eq, Nat.shiftLeft_eq, Nat.mod_mul_mod, hpow, Nat.mul_comm n,
      Nat.mul_mod_mul_left, Nat.mul_comm]
  have hmod : (n * 256 + b.toNat) % 256 = b.toNat := by omega
  have hdiv : (n * 256 + b.toNat) / 256 = n := by omega
  rw [hhigh, ← Nat.shiftLeft_add_eq_or_of_lt hb, Nat.shiftLeft_eq, hpow, Nat.mod_mul, hmod, hdiv]
  omega

theorem foldl_joinBig_mod (hw : 8 ≤ w) (bytes : List UInt8) (n : ℕ) :
    bytes.foldl (fun result b => ((result <<< 8) % 2 ^ w) ||| b.toNat) (n % 2 ^ w) =
      (bytes.map UInt8.toNat).foldl (fun n c => n * 256 + c) n % 2 ^ w := by
  induction bytes generalizing n with
  | nil => rfl
  | cons b bytes ih => rw [List.foldl_cons, List.map_cons, List.foldl_cons, joinBig_mod hw, ih]

def textBytes (hexStr : Str) : List UInt8 :=
  hexBytes ((hexStr.drop (hexStart hexStr)).take (2 * pairsBelow hexStr))

/-- A text with more bytes than the word keeps the last ones. -/
theorem fromHex_big (hw : 8 ≤ w) {hexStr : Str} {n : ℕ} (h : fromHex w hexStr true = .ok n) :
    n = bigEndian (textBytes hexStr) % 2 ^ w := by
  obtain ⟨bytes, hbytes, hn⟩ := except_bind_eq_ok h
  rw [bytesUp] at hbytes
  split_ifs at hbytes
  obtain rfl := Except.ok.inj hbytes
  rw [if_pos rfl] at hn
  have hfold := foldl_joinBig_mod hw (textBytes hexStr) 0
  rw [Nat.zero_mod] at hfold
  exact (Except.ok.inj hn).symm.trans hfold

theorem fromHex_of_bytes {hexStr : Str} {bytes : List UInt8}
    (hbytes : bytesUp hexStr (pairsBelow hexStr) = .ok bytes) (hroom : 8 * bytes.length ≤ w) :
    fromHex w hexStr true = .ok (bigEndian bytes) ∧
      fromHex w hexStr false = .ok (littleEndian bytes) := by
  constructor
  · rw [fromHex, hbytes, except_ok_bind, if_pos rfl,
      foldl_joinBig bytes 0 (by norm_num) (by omega)]
    rfl
  · rw [fromHex, hbytes, except_ok_bind, if_neg (by decide),
      joinLittle_eq bytes (by omega) (by norm_num)]
    simp

end Words

section Texts

variable {bs t marker : List UInt8}

theorem hexStart_marked (t : Str) : hexStart (lit "0x" ++ t) = 2 := rfl

theorem drop_hexStart (h : Spells bs t) (hmarker : marker = [] ∨ marker = lit "0x") :
    hexStart (marker ++ t) = marker.length ∧ (marker ++ t).drop (hexStart (marker ++ t)) = t := by
  rcases hmarker with rfl | rfl
  · rw [List.nil_append, hexStart_spells h]
    exact ⟨rfl, rfl⟩
  · rw [hexStart_marked]
    exact ⟨rfl, rfl⟩

theorem marker_length (hmarker : marker = [] ∨ marker = lit "0x") :
    marker.length = 0 ∨ marker.length = 2 := by
  rcases hmarker with rfl | rfl
  · exact Or.inl rfl
  · exact Or.inr rfl

theorem text_length (h : Spells bs t) (hmarker : marker = [] ∨ marker = lit "0x")
    (hlength : (marker ++ t).length < 2 ^ 31) : (marker ++ t).length < 2 ^ 31 - 1 := by
  have hdigits := h.length
  have hfront := marker_length hmarker
  rw [List.length_append] at hlength ⊢
  omega

theorem bytesUp_text (h : Spells bs t) (hmarker : marker = [] ∨ marker = lit "0x")
    (hlength : (marker ++ t).length < 2 ^ 31) {pairs : ℕ}
    (hpairs : pairsBelow (marker ++ t) ≤ pairs) : bytesUp (marker ++ t) pairs = .ok bs := by
  rw [bytesUp_short (text_length h hmarker hlength) hpairs, (drop_hexStart h hmarker).2,
    hexBytes_spells h]

theorem pair_eq (h : Spells bs t) {k : ℕ} (hk : k < bs.length) :
    fromHexByte (t.getD (2 * k) 0) (t.getD (2 * k + 1) 0) = bs[k] := by
  induction h generalizing k with
  | nil => simp at hk
  | @cons b c d bs t high low tail ih =>
    cases k with
    | zero => exact fromHexByte_eq high low
    | succ k =>
      rw [show 2 * (k + 1) = 2 * k + 1 + 1 by omega]
      exact ih (by simpa using hk)

theorem bytesDown_text (h : Spells bs t) {rounds k : ℕ} (hk : k < bs.length) (hrounds : k < rounds) :
    bytesDown (marker ++ t) marker.length rounds (marker.length + 2 * k) =
      (bs.take (k + 1)).reverse := by
  have hget : ∀ i, (marker ++ t).getD (marker.length + i) 0 = t.getD i 0 := by
    intro i
    rw [List.getD_append_right _ _ _ _ (by omega), Nat.add_sub_cancel_left]
  have hbyte : ∀ k, (hk : k < bs.length) →
      fromHexByte ((marker ++ t).getD (marker.length + 2 * k) 0)
        ((marker ++ t).getD (marker.length + 2 * k + 1) 0) = bs[k] := by
    intro k hk
    rw [hget, Nat.add_assoc, hget]
    exact pair_eq h hk
  induction k generalizing rounds with
  | zero =>
    obtain ⟨rounds, rfl⟩ : ∃ r, rounds = r + 1 := ⟨rounds - 1, by omega⟩
    rw [bytesDown, hbyte 0 hk, if_pos (by omega), List.take_one, List.head?_eq_getElem?,
      List.getElem?_eq_getElem hk]
    rfl
  | succ k ih =>
    obtain ⟨rounds, rfl⟩ : ∃ r, rounds = r + 1 := ⟨rounds - 1, by omega⟩
    rw [bytesDown, hbyte (k + 1) hk, if_neg (by omega),
      show marker.length + 2 * (k + 1) - 2 = marker.length + 2 * k by omega,
      ih (by omega) (by omega), List.take_succ_eq_append_getElem hk, List.reverse_append]
    rfl

theorem fromHexVector_text (h : Spells bs t) (hmarker : marker = [] ∨ marker = lit "0x")
    (hne : bs ≠ []) (hlength : (marker ++ t).length < 2 ^ 31) :
    fromHexVector (marker ++ t) true = .ok bs ∧
      fromHexVector (marker ++ t) false = .ok bs.reverse := by
  have hpos := List.length_pos_iff.2 hne
  have htotal : (marker ++ t).length = marker.length + 2 * bs.length := by
    rw [List.length_append, h.length]
  obtain ⟨hstart, -⟩ := drop_hexStart h hmarker
  constructor
  · simp only [fromHexVector, if_true]
    rw [hstart, if_pos (by omega)]
    exact bytesUp_text h hmarker hlength (le_max_right _ _)
  · have hoffset : asInt ((marker ++ t).length - 2) =
        ((marker.length + 2 * (bs.length - 1) : ℕ) : ℤ) := by
      rw [← asInt_of_small (by omega : marker.length + 2 * (bs.length - 1) < 2 ^ 31)]
      congr 1
      omega
    simp only [fromHexVector, Bool.false_eq_true, if_false]
    rw [hoffset, if_pos (by omega), Int.toNat_natCast, hstart,
      bytesDown_text h (by omega) (by omega), Nat.sub_add_cancel hpos, List.take_length]

end Texts

/-- The text of a byte string is read back in both orders, as bytes if the text has
fewer than `2 ^ 31` characters and as a word of 64 or 128 bits if the bytes fit. -/
theorem hex_text_values {bs t marker : List UInt8} (h : Spells bs t)
    (hmarker : marker = [] ∨ marker = lit "0x") :
    (bs ≠ [] → (marker ++ t).length < 2 ^ 31 →
      fromHexVector (marker ++ t) true = .ok bs ∧
        fromHexVector (marker ++ t) false = .ok bs.reverse) ∧
    ∀ w, w = 128 ∨ w = 64 → 8 * bs.length ≤ w →
      fromHex w (marker ++ t) true = .ok (bigEndian bs) ∧
        fromHex w (marker ++ t) false = .ok (littleEndian bs) ∧
        ∀ u marker', Spells bs.reverse u → marker' = [] ∨ marker' = lit "0x" →
          fromHex w (marker' ++ u) false = fromHex w (marker ++ t) true := by
  have hword : ∀ {bs t marker : List UInt8}, Spells bs t → marker = [] ∨ marker = lit "0x" →
      ∀ w, w = 128 ∨ w = 64 → 8 * bs.length ≤ w →
        fromHex w (marker ++ t) true = .ok (bigEndian bs) ∧
          fromHex w (marker ++ t) false = .ok (littleEndian bs) := by
    intro bs t marker h hmarker w hw hroom
    have hlength : (marker ++ t).length < 2 ^ 31 := by
      have hfront := marker_length hmarker
      rw [List.length_append, h.length]
      omega
    exact fromHex_of_bytes (bytesUp_text h hmarker hlength le_rfl) hroom
  refine ⟨fun hne hlength => fromHexVector_text h hmarker hne hlength, ?_⟩
  intro w hw hroom
  obtain ⟨hbig, hlittle⟩ := hword h hmarker w hw hroom
  refine ⟨hbig, hlittle, ?_⟩
  intro u marker' hu hmarker'
  have hroom' : 8 * bs.reverse.length ≤ w := by rwa [List.length_reverse]
  rw [hbig, (hword hu hmarker' w hw hroom').2, littleEndian_reverse]

theorem hex_text_values_pair :
    fromHexVector (lit "0x" ++ lit "1fA0") true = .ok [0x1f, 0xa0] ∧
      fromHexVector (lit "0x" ++ lit "1fA0") false = .ok [0xa0, 0x1f] := by
  have hspell : Spells [0x1f, 0xa0] (lit "1fA0") :=
    .cons (by decide) (by decide) (.cons (by decide) (by decide) .nil)
  exact (hex_text_values hspell (Or.inr rfl)).1 (by simp) (by decide)

/-- From `2 ^ 31` characters on the length is a negative `int`, and the loop ends
after its first round. -/
theorem fromHexVector_long {hexStr : Str} (hlow : 2 ^ 31 ≤ hexStr.length)
    (hhigh : hexStr.length < 2 ^ 32) :
    fromHexVector hexStr true = .ok (hexBytes ((hexStr.drop (hexStart hexStr)).take 2)) := by
  have hint : asInt hexStr.length = hexStr.length - 2 ^ 32 := by
    have hmod : (hexStr.length : ℤ) % 2 ^ 32 = hexStr.length :=
      Int.emod_eq_of_lt (by omega) (by omega)
    unfold asInt
    simp only [hmod]
    rw [if_neg (by omega)]
  have hoverflow : ¬ offsetOverflows hexStr := by
    rw [offsetOverflows, hint]
    omega
  have hstart : hexStart hexStr ≤ 2 := by
    unfold hexStart
    split_ifs <;> omega
  have hpairs : pairsBelow hexStr = 0 := by
    rw [pairsBelow, hint]
    omega
  simp only [fromHexVector, if_true]
  rw [if_pos (by omega), bytesUp, if_neg hoverflow, hpairs]
  rfl

theorem hexBytes_length_le (t : Str) : (hexBytes t).length ≤ t.length := by
  fun_induction hexBytes t with
  | case1 => exact le_rfl
  | case2 => exact le_rfl
  | case3 c d t ih =>
    simp only [List.length_cons]
    omega

/-- The text of `2 ^ 30` zero bytes is read as one byte. -/
theorem hex_text_values_fails :
    ¬ ∀ bs t marker, Spells bs t → marker = [] ∨ marker = lit "0x" → bs ≠ [] →
      fromHexVector (marker ++ t) true = .ok bs ∧
        fromHexVector (marker ++ t) false = .ok bs.reverse := by
  intro hall
  have hzeros : (List.replicate (2 ^ 30) (0 : UInt8)).length = 2 ^ 30 := List.length_replicate
  generalize List.replicate (2 ^ 30) (0 : UInt8) = zeros at hzeros
  have hspell := DigitSet.upper.spells_text zeros
  have hlength : (DigitSet.upper.text zeros).length = 2 ^ 31 := by
    rw [hspell.length, hzeros]
    norm_num
  have hne : zeros ≠ [] := List.ne_nil_of_length_pos (by omega)
  have hread := (hall zeros _ [] hspell (Or.inl rfl) hne).1
  rw [List.nil_append, fromHexVector_long (by omega) (by omega)] at hread
  have hone := hexBytes_length_le
    (((DigitSet.upper.text zeros).drop (hexStart (DigitSet.upper.text zeros))).take 2)
  rw [Except.ok.inj hread, hzeros, List.length_take] at hone
  omega

end PolkadotApi.HexValues
