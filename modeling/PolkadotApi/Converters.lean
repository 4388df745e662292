import PolkadotApi.MachineModel

set_option autoImplicit false

namespace PolkadotApi.Converters
open HexText MachineModel

/-- A character that is no digit keeps its own code. -/
def digitOf (c : UInt8) : ℕ :=
  match hexValue c with
  | some v => v
  | none => c.toNat

def fromHexByte (c d : UInt8) : UInt8 := UInt8.ofNat ((digitOf c <<< 4) ||| digitOf d)

/-- The bytes at offsets `0, 2, ...` below the length; the terminating NUL stands
in for a missing second character. -/
def hexBytes : Str → List UInt8
  | [] => []
  | [c] => [fromHexByte c 0]
  | c :: d :: t => fromHexByte c d :: hexBytes t

def hexStart (hexStr : Str) : ℕ := if hexStr.getD 0 0 = 48 ∧ hexStr.getD 1 0 = 120 then 2 else 0

/-- The little-endian branch; a shift by the full width has no meaning. -/
def joinLittle (w : ℕ) : List UInt8 → ℕ → ℕ → Result ℕ
  | [], _, result => .ok result
  | b :: bytes, byteOffset, result =>
    if byteOffset < w then
      joinLittle w bytes (byteOffset + 8) ((b.toNat <<< byteOffset) % 2 ^ w ||| result)
    else .error .undefined

def pairsBelow (hexStr : Str) : ℕ := ((asInt hexStr.length - hexStart hexStr + 1) / 2).toNat

/-- The offset is an `int` as well, and it cannot pass the largest one. -/
def offsetOverflows (hexStr : Str) : Prop := asInt hexStr.length = 2 ^ 31 - 1

instance (hexStr : Str) : Decidable (offsetOverflows hexStr) :=
  inferInstanceAs (Decidable (asInt hexStr.length = 2 ^ 31 - 1))

def bytesUp (hexStr : Str) (pairs : ℕ) : Result (List UInt8) :=
  if offsetOverflows hexStr then .error .undefined
  else .ok (hexBytes ((hexStr.drop (hexStart hexStr)).take (2 * pairs)))

def fromHex (w : ℕ) (hexStr : Str) (bigEndianBytes : Bool) : Result ℕ := do
  let bytes ← bytesUp hexStr (pairsBelow hexStr)
  if bigEndianBytes then
    .ok (bytes.foldl (fun result b => ((result <<< 8) % 2 ^ w) ||| b.toNat) 0)
  else joinLittle w bytes 0 0

def bytesDown (hexStr : Str) (start : ℕ) : ℕ → ℕ → List UInt8
  | 0, _ => []
  | rounds + 1, offset =>
    let byte := fromHexByte (hexStr.getD offset 0) (hexStr.getD (offset + 1) 0)
    if offset < start + 2 then [byte] else byte :: bytesDown hexStr start rounds (offset - 2)

/-- `fromHex<vector<uint8_t>>`: the first byte is read before any bound is looked at. -/
def fromHexVector (hexStr : Str) (bigEndianBytes : Bool) : Result (List UInt8) :=
  let start := hexStart hexStr
  if bigEndianBytes then
    if start < hexStr.length then bytesUp hexStr (max 1 (pairsBelow hexStr)) else .error .undefined
  else
    let offset := asInt (hexStr.length - 2)
    if 0 ≤ offset then .ok (bytesDown hexStr start hexStr.length offset.toNat)
    else .error .undefined

section Decimal

def isBlank (c : UInt8) : Bool := c == 32 || c == 9 || c == 10 || c == 43

def isDigit (c : UInt8) : Bool := 48 ≤ c && c ≤ 57

/-- The loop from the last digit down: each cell takes the low bit of the cell
before it, which has not been changed yet. -/
def shiftDigits : ℕ → List ℕ → List ℕ
  | _, [] => []
  | before, d :: ds => (if before &&& 1 = 0 then d >>> 1 else (d >>> 1) ||| 8) :: shiftDigits d ds

/-- One round on the digits from `scanstart` on, which moves past new zeros. -/
def halveDigits (scratch : List ℕ) : List ℕ :=
  ((shiftDigits 0 scratch).dropWhile (· = 0)).map (fun d => if 7 < d then d - 3 else d)

/-- `while (scanstart < digits)`; the digits before `scanstart` are not read again. -/
def collectBits : ℕ → List ℕ → ℕ → ℕ → Option ℕ
  | _, [], result, _ => some result
  | 0, _ :: _, _, _ => none
  | rounds + 1, d :: scratch, result, mask =>
    let result := if (d :: scratch).getLastD 0 &&& 1 = 0 then result else result ||| mask
    collectBits rounds (halveDigits (d :: scratch)) result ((mask <<< 1) % 2 ^ 128)

/-- The digits go to `char scratch[255]`. A loop that never ended would be undefined. -/
def atoi128 (s : Str) : Result ℕ :=
  let s := s.dropWhile isBlank
  let sign : ℤ := if s.head? = some 45 then -1 else 1
  let s := if s.head? = some 45 then s.tail else s
  let digits := s.takeWhile isDigit
  if digits.length ≤ 255 then
    match collectBits (4 * digits.length + 1) (digits.map (fun c => c.toNat - 48)) 0 1 with
    | some result => .ok (result * asUInt128 sign % 2 ^ 128)
    | none => .error .undefined
  else .error .undefined

end Decimal

section HexText

theorem digitOf_eq {c : UInt8} {v : ℕ} (h : hexValue c = some v) : digitOf c = v := by
  rw [digitOf, h]

theorem fromHexByte_eq {b c d : UInt8} (high : hexValue c = some (b.toNat / 16))
    (low : hexValue d = some (b.toNat % 16)) : fromHexByte c d = b := by
  have hlt : b.toNat % 16 < 2 ^ 4 := Nat.mod_lt _ (by norm_num)
  rw [fromHexByte, digitOf_eq high, digitOf_eq low, ← Nat.shiftLeft_add_eq_or_of_lt hlt,
    Nat.shiftLeft_eq]
  have hb : b.toNat / 16 * 2 ^ 4 + b.toNat % 16 = b.toNat := by omega
  rw [hb, UInt8.ofNat_toNat]

theorem hexBytes_spells {bs t : List UInt8} (h : Spells bs t) : hexBytes t = bs := by
  induction h with
  | nil => rfl
  | cons high low _ ih => rw [hexBytes, fromHexByte_eq high low, ih]

theorem hexStart_spells {bs t : List UInt8} (h : Spells bs t) : hexStart t = 0 := by
  rw [hexStart, if_neg]
  rintro ⟨_, hx⟩
  cases h with
  | nil => exact absurd hx (by decide)
  | @cons b c d bs t high low tail =>
    have hd : d = 120 := hx
    subst d
    exact absurd low (by rw [show hexValue 120 = none by decide +kernel]; simp)

theorem bytesUp_short {hexStr : Str} {pairs : ℕ} (hlength : hexStr.length < 2 ^ 31 - 1)
    (hpairs : pairsBelow hexStr ≤ pairs) :
    bytesUp hexStr pairs = .ok (hexBytes (hexStr.drop (hexStart hexStr))) := by
  have hint : asInt hexStr.length = hexStr.length := asInt_of_small (by omega)
  have hoverflow : ¬ offsetOverflows hexStr := by
    rw [offsetOverflows, hint]
    omega
  rw [pairsBelow, hint] at hpairs
  rw [bytesUp, if_neg hoverflow, List.take_of_length_le]
  rw [List.length_drop]
  omega

theorem fromHexVector_spells {bs t : List UInt8} (h : Spells bs t) (hne : bs ≠ [])
    (hlength : t.length < 2 ^ 31 - 1) : fromHexVector t true = .ok bs := by
  have hlen := h.length
  have hpos : 0 < bs.length := List.length_pos_iff.2 hne
  simp only [fromHexVector, if_true]
  rw [hexStart_spells h, if_pos (by omega), bytesUp_short hlength (le_max_right _ _),
    hexStart_spells h, List.drop_zero, hexBytes_spells h]

theorem fromHex_byte {b : UInt8} {t : List UInt8} (h : Spells [b] t) (w : ℕ) :
    fromHex w t true = .ok b.toNat := by
  have hlen := h.length
  rw [List.length_singleton] at hlen
  rw [fromHex, bytesUp_short (by omega) le_rfl, hexStart_spells h, List.drop_zero,
    hexBytes_spells h]
  simp [Bind.bind, Except.bind]

end HexText

end PolkadotApi.Converters
