import PolkadotApi.MachineModel

set_option autoImplicit false

namespace PolkadotApi.ScaleCodec
open StreamReader HexText MachineModel

section Parsers

variable {m : Type → Type} [Monad m] [Storing m] [Parsing m]

/-- The two digit pairs are read low byte first, but the return type keeps only
the low eight bits of the word. -/
def nextWord : m UInt8 := do
  let minor ← chars 2
  let major ← chars 2
  let word ← number (major ++ minor)
  return UInt8.ofNat word

def nextByte : m UInt8 := do
  let nb ← chars 2
  let byte ← number nb
  return UInt8.ofNat byte

def extractBytes : ℕ → m Str
  | 0 => pure []
  | len + 1 => do
    tick
    let c ← nextByte
    let s ← extractBytes len
    return c :: s

/-- The loop runs while the `int` length is positive. -/
def extractString (len : ℤ) : m Str := extractBytes (asInt len).toNat

/-- `number += nextByte(stream) * multiplier; multiplier *= 256`, `rounds` times. -/
def addBytes : ℕ → ℕ → ℕ → m ℕ
  | 0, number, _ => pure number
  | rounds + 1, number, multiplier => do
    tick
    let b ← nextByte
    addBytes rounds ((number + b.toNat * multiplier) % 2 ^ 64) (multiplier * 256 % 2 ^ 64)

def decodeFlag (first_byte : UInt8) : m ℤ :=
  match first_byte.toNat &&& 0b11 with
  | 0b00 => return asLong (first_byte.toNat >>> 2)
  | 0b01 => do
    let second_byte ← nextByte
    return asLong (((first_byte.toNat &&& 0b11111100) + second_byte.toNat * 256) >>> 2)
  | 0b10 => do
    let number ← addBytes 3 first_byte.toNat 256
    return asLong (number >>> 2)
  | 0b11 => do
    let value ← addBytes ((first_byte.toNat >>> 2) + 4) 0 1
    return asLong value
  | _ => raise (.compactInteger (lit "CompactInteger decode error: unknown flag"))

def decodeCompactInteger : m ℤ := do
  let first_byte ← nextByte
  decodeFlag first_byte

end Parsers

theorem extractBytes_succ (len : ℕ) : (extractBytes (len + 1) : Reader Str) = (do
    let c ← nextByte
    let s ← extractBytes len
    return c :: s) := rfl

theorem addBytes_succ (rounds value multiplier : ℕ) :
    (addBytes (rounds + 1) value multiplier : Reader ℕ) = (do
      let b ← nextByte
      addBytes rounds ((value + b.toNat * multiplier) % 2 ^ 64) (multiplier * 256 % 2 ^ 64)) := rfl

structure CompactIntegerLEBytes where
  length : ℕ
  bytes : FixedBytes 8
  deriving DecidableEq

def storeByte (bytes : FixedBytes 8) (i : ℕ) (v : UInt8) : Result (FixedBytes 8) :=
  if i < 8 then .ok ⟨bytes.toList.set i v, by simp⟩ else .error .undefined

/-- `for (i = from; ...; ++i) { bytes[i] = n & 0xFF; n >>= 8; }` -/
def storeLow (bytes : FixedBytes 8) : ℕ → ℕ → ℕ → Result (FixedBytes 8)
  | 0, _, _ => .ok bytes
  | rounds + 1, i, n => do
    let bytes ← storeByte bytes i (UInt8.ofNat (n &&& 0xFF))
    storeLow bytes rounds (i + 1) (n >>> 8)

/-- `while (n) { bytes[byteNum++] = n & 0xFF; n >>= 8; }`; the store past the
array ends the loop before the sixteen rounds of a 128-bit value do. -/
def storeWhile (bytes : FixedBytes 8) : ℕ → ℕ → ℕ → Result (ℕ × FixedBytes 8)
  | 0, byteNum, _ => .ok (byteNum, bytes)
  | rounds + 1, byteNum, n =>
    if n = 0 then .ok (byteNum, bytes)
    else do
      let bytes ← storeByte bytes byteNum (UInt8.ofNat (n &&& 0xFF))
      storeWhile bytes rounds (byteNum + 1) (n >>> 8)

def encodeCompactInteger (n : ℕ) : Result CompactIntegerLEBytes :=
  let b := FixedBytes.zero 8
  if n ≤ 63 then do
    let b ← storeByte b 0 (UInt8.ofNat (n <<< 2))
    return ⟨1, b⟩
  else if n ≤ 0x3FFF then do
    let b ← storeByte b 0 (UInt8.ofNat (((n &&& 0x3F) <<< 2) ||| 0x01))
    let b ← storeByte b 1 (UInt8.ofNat ((n &&& 0xFC0) >>> 6))
    return ⟨2, b⟩
  else if n ≤ 0x3FFFFFFF then do
    let b ← storeByte b 0 (UInt8.ofNat (((n &&& 0x3F) <<< 2) ||| 0x02))
    let b ← storeLow b 3 1 (n >>> 6)
    return ⟨4, b⟩
  else do
    let (byteNum, b) ← storeWhile b 16 1 n
    let b ← storeByte b 0 (UInt8.ofNat (((byteNum - 5) <<< 2) ||| 0x03))
    return ⟨byteNum, b⟩

def writeCompactToBuf (ci : CompactIntegerLEBytes) : List UInt8 := ci.bytes.toList.take ci.length

section Reading

variable (R : Script)

theorem nextByte_pair (c d : UInt8) (rest : Str) :
    nextByte (m := Reader) (c :: d :: rest) = (stoul [c, d]).map (fun byte => (UInt8.ofNat byte, rest)) := by
  have hs : substr (c :: d :: rest) 0 2 = .ok [c, d] := by simp [substr]
  have hr : substrFrom (c :: d :: rest) 2 = .ok rest := by simp [substrFrom]
  have hchars : chars (m := Reader) 2 (c :: d :: rest) = .ok ([c, d], rest) := by
    change (substr (c :: d :: rest) 0 2 >>= fun nb => substrFrom (c :: d :: rest) 2 >>= fun s =>
      Except.ok (nb, s)) = _
    rw [hs, hr]
    rfl
  rw [nextByte, bind_ok hchars]
  change (lift (stoul [c, d]) >>= fun byte => pure (UInt8.ofNat byte)) rest = _
  cases stoul [c, d] <;> rfl

theorem nextByte_cons {b c d : UInt8} (high : hexValue c = some (b.toNat / 16))
    (low : hexValue d = some (b.toNat % 16)) (rest : Str) :
    nextByte (m := Reader) (c :: d :: rest) = .ok (b, rest) := by
  have hb : UInt8.ofNat b.toNat = b := UInt8.ofNat_toNat
  rw [nextByte_pair, stoul_pair high low]
  change Except.ok (UInt8.ofNat b.toNat, rest) = _
  rw [hb]

theorem decodes_nextByte (b : UInt8) : Decodes R nextByte [b] b := by
  intro text rest ht
  cases R.spells ht with
  | cons high low tail =>
    cases tail
    exact nextByte_cons high low rest

theorem decodes_extractBytes (bs : List UInt8) : Decodes R (extractBytes bs.length) bs bs := by
  induction bs with
  | nil => exact Decodes.of_pure (fun _ => rfl)
  | cons b bs ih =>
    rw [List.length_cons, extractBytes_succ]
    change Decodes R _ ([b] ++ bs) (b :: bs)
    apply (decodes_nextByte R b).bind
    exact ih.bind_end (Decodes.of_pure (fun _ => rfl))

theorem decodes_extractString (bs : List UInt8) (h : bs.length < 2 ^ 31) :
    Decodes R (extractString bs.length) bs bs := by
  rw [extractString, asInt_of_small h]
  exact decodes_extractBytes R bs

end Reading

end PolkadotApi.ScaleCodec
