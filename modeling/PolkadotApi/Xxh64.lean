import PolkadotApi.ByteWords
import PolkadotApi.MachineModel

set_option autoImplicit false

/-!
`xxh64` follows `xxhash.cpp` with its pointer into the input; a read behind the end of
the memory is undefined. `hash` is the same function on the bytes alone: four lanes that
do not depend on each other, and the units of the rest one after the other.
-/
namespace PolkadotApi.Xxh64
open StreamReader MachineModel ByteWords

def PRIME1 : UInt64 := 11400714785074694791

def PRIME2 : UInt64 := 14029467366897019727

def PRIME3 : UInt64 := 1609587929392839161

def PRIME4 : UInt64 := 9650029242287828579

def PRIME5 : UInt64 := 2870177450012600261

section Code

def round (acc input : UInt64) : UInt64 := rotl64 (acc + input * PRIME2) 31 * PRIME1

def mergeRound (acc val : UInt64) : UInt64 := (acc ^^^ round 0 val) * PRIME1 + PRIME4

def avalanche (h64 : UInt64) : UInt64 :=
  let h64 := h64 ^^^ (h64 >>> 33)
  let h64 := h64 * PRIME2
  let h64 := h64 ^^^ (h64 >>> 29)
  let h64 := h64 * PRIME3
  h64 ^^^ (h64 >>> 32)

/-- `XXH_readLE64`, `XXH_readLE32` and a byte, by the number of bytes. -/
def readLE (mem : List UInt8) (size p : ℕ) : Result UInt64 :=
  if p + size ≤ mem.length then .ok (wordLE ((mem.drop p).take size)) else .error .undefined

def step8 (h64 k : UInt64) : UInt64 := rotl64 (h64 ^^^ round 0 k) 27 * PRIME1 + PRIME4

def step4 (h64 k : UInt64) : UInt64 := rotl64 (h64 ^^^ (k * PRIME1)) 23 * PRIME2 + PRIME3

def step1 (h64 k : UInt64) : UInt64 := rotl64 (h64 ^^^ (k * PRIME5)) 11 * PRIME1

structure Cursor where
  h64 : UInt64
  p : ℕ
  len : ℕ

/-- `PROCESS8_64`, `PROCESS4_64` and `PROCESS1_64`. -/
def process (mem : List UInt8) (size : ℕ) (step : UInt64 → UInt64 → UInt64) (c : Cursor) :
    Result Cursor := do
  let k ← readLE mem size c.p
  return ⟨step c.h64 k, c.p + size, c.len - size⟩

/-- `while (len >= 8)` and `while (len > 0)`. -/
def processAll (mem : List UInt8) (size : ℕ) (hsize : 0 < size)
    (step : UInt64 → UInt64 → UInt64) (c : Cursor) : Result Cursor :=
  if size ≤ c.len then do
    let k ← readLE mem size c.p
    processAll mem size hsize step ⟨step c.h64 k, c.p + size, c.len - size⟩
  else .ok c
  termination_by c.len

theorem eight_pos : 0 < 8 := by decide

def finalize (mem : List UInt8) (h64 : UInt64) (p len : ℕ) : Result UInt64 := do
  let c ← processAll mem 8 eight_pos step8 ⟨h64, p, len &&& 31⟩
  let c ← if 4 ≤ c.len then process mem 4 step4 c else .ok c
  let c ← processAll mem 1 Nat.one_pos step1 c
  return avalanche c.h64

structure Lanes where
  v1 : UInt64
  v2 : UInt64
  v3 : UInt64
  v4 : UInt64

def stripe (mem : List UInt8) (p : ℕ) (v : Lanes) : Result Lanes := do
  let k1 ← readLE mem 8 p
  let k2 ← readLE mem 8 (p + 8)
  let k3 ← readLE mem 8 (p + 16)
  let k4 ← readLE mem 8 (p + 24)
  return ⟨round v.v1 k1, round v.v2 k2, round v.v3 k3, round v.v4 k4⟩

/-- `do … while (p <= limit)`. -/
def stripes (mem : List UInt8) (limit p : ℕ) (v : Lanes) : Result (Lanes × ℕ) := do
  let v ← stripe mem p v
  if p + 32 ≤ limit then stripes mem limit (p + 32) v else return (v, p + 32)
  termination_by limit - p

def startLanes (seed : UInt64) : Lanes :=
  ⟨seed + PRIME1 + PRIME2, seed + PRIME2, seed + 0, seed - PRIME1⟩

def merge (v : Lanes) : UInt64 :=
  let h64 := rotl64 v.v1 1 + rotl64 v.v2 7 + rotl64 v.v3 12 + rotl64 v.v4 18
  let h64 := mergeRound h64 v.v1
  let h64 := mergeRound h64 v.v2
  let h64 := mergeRound h64 v.v3
  mergeRound h64 v.v4

def xxh64 (mem : List UInt8) (len : ℕ) (seed : UInt64) : Result UInt64 := do
  if len ≥ 32 then
    let (v, p) ← stripes mem (len - 32) 0 (startLanes seed)
    finalize mem (merge v + UInt64.ofNat len) p len
  else finalize mem (seed + PRIME5 + UInt64.ofNat len) 0 len

end Code

section Specification

def laneWords (j : ℕ) (stripes : List (List UInt8)) : List UInt64 :=
  stripes.map fun s => wordLE ((s.drop (8 * j)).take 8)

/-- Each lane takes its own word of every 32 bytes. -/
def lanes (seed : UInt64) (stripes : List (List UInt8)) : Lanes where
  v1 := (laneWords 0 stripes).foldl round (startLanes seed).v1
  v2 := (laneWords 1 stripes).foldl round (startLanes seed).v2
  v3 := (laneWords 2 stripes).foldl round (startLanes seed).v3
  v4 := (laneWords 3 stripes).foldl round (startLanes seed).v4

/-- The rest by words of eight bytes, then one of four, then bytes. -/
def tail (h64 : UInt64) (rest : List UInt8) : UInt64 :=
  let h64 := ((groups 8 (rest.length / 8) rest).map wordLE).foldl step8 h64
  let rest := rest.drop (8 * (rest.length / 8))
  let h64 := if 4 ≤ rest.length then step4 h64 (wordLE (rest.take 4)) else h64
  let rest := if 4 ≤ rest.length then rest.drop 4 else rest
  ((groups 1 rest.length rest).map wordLE).foldl step1 h64

def hash (data : List UInt8) (seed : UInt64) : UInt64 :=
  let h64 := if 32 ≤ data.length then merge (lanes seed (groups 32 (data.length / 32) data))
    else seed + PRIME5
  avalanche (tail (h64 + UInt64.ofNat data.length) (data.drop (32 * (data.length / 32))))

end Specification

end PolkadotApi.Xxh64
