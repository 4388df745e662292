import PolkadotApi.BlockStreams
import PolkadotApi.ByteWords
import PolkadotApi.MachineModel

set_option autoImplicit false

/-!
The state is that of `blake2b.cpp`, with the counter and the flags as separate words. A
copy out of the 128 bytes of the buffer, and a block of fewer bytes, are undefined.
-/
namespace PolkadotApi.Blake2b
open StreamReader MachineModel ByteWords

abbrev BLOCKBYTES : ℕ := 128

abbrev OUTBYTES : ℕ := 64

abbrev KEYBYTES : ℕ := 64

section Compression

def iv : Vector UInt64 8 := #v[
  0x6a09e667f3bcc908, 0xbb67ae8584caa73b, 0x3c6ef372fe94f82b, 0xa54ff53a5f1d36f1,
  0x510e527fade682d1, 0x9b05688c2b3e6c1f, 0x1f83d9abfb41bd6b, 0x5be0cd19137e2179]

def sigma : Vector (Vector (Fin 16) 16) 12 := #v[#v[
  0, 1, 2, 3, 4, 5, 6, 7, 8, 9, 10, 11, 12, 13, 14, 15], #v[
  14, 10, 4, 8, 9, 15, 13, 6, 1, 12, 0, 2, 11, 7, 5, 3], #v[
  11, 8, 12, 0, 5, 2, 15, 13, 10, 14, 3, 6, 7, 1, 9, 4], #v[
  7, 9, 3, 1, 13, 12, 11, 14, 2, 6, 5, 10, 4, 0, 15, 8], #v[
  9, 0, 5, 7, 2, 4, 10, 15, 14, 1, 11, 12, 6, 8, 3, 13], #v[
  2, 12, 6, 10, 0, 11, 8, 3, 4, 13, 7, 5, 15, 14, 1, 9], #v[
  12, 5, 1, 15, 14, 13, 4, 10, 0, 7, 6, 3, 9, 2, 8, 11], #v[
  13, 11, 7, 14, 12, 1, 3, 9, 5, 0, 15, 4, 8, 6, 2, 10], #v[
  6, 15, 14, 9, 11, 3, 0, 8, 12, 2, 13, 7, 1, 4, 10, 5], #v[
  10, 2, 8, 4, 7, 6, 1, 5, 15, 11, 9, 14, 3, 12, 13, 0], #v[
  0, 1, 2, 3, 4, 5, 6, 7, 8, 9, 10, 11, 12, 13, 14, 15], #v[
  14, 10, 4, 8, 9, 15, 13, 6, 1, 12, 0, 2, 11, 7, 5, 3]]

def rotr64 (w : UInt64) (c : UInt64) : UInt64 := (w >>> c) ||| (w <<< (64 - c))

def load64 (src : List UInt8) : UInt64 := wordLE (src.take 8)

def store64 (w : UInt64) : List UInt8 :=
  (List.range 8).map fun i => (w >>> UInt64.ofNat (8 * i)).toUInt8

def mixG (m : Vector UInt64 16) (r : Fin 12) (i : Fin 8) (a b c d : Fin 16)
    (v : Vector UInt64 16) : Vector UInt64 16 :=
  let v := v.set a (v[a] + v[b] + m[sigma[r][2 * i.val]])
  let v := v.set d (rotr64 (v[d] ^^^ v[a]) 32)
  let v := v.set c (v[c] + v[d])
  let v := v.set b (rotr64 (v[b] ^^^ v[c]) 24)
  let v := v.set a (v[a] + v[b] + m[sigma[r][2 * i.val + 1]])
  let v := v.set d (rotr64 (v[d] ^^^ v[a]) 16)
  let v := v.set c (v[c] + v[d])
  v.set b (rotr64 (v[b] ^^^ v[c]) 63)

def round (m : Vector UInt64 16) (r : Fin 12) (v : Vector UInt64 16) : Vector UInt64 16 :=
  let v := mixG m r 0 0 4 8 12 v
  let v := mixG m r 1 1 5 9 13 v
  let v := mixG m r 2 2 6 10 14 v
  let v := mixG m r 3 3 7 11 15 v
  let v := mixG m r 4 0 5 10 15 v
  let v := mixG m r 5 1 6 11 12 v
  let v := mixG m r 6 2 7 8 13 v
  mixG m r 7 3 4 9 14 v

def rounds : List (Fin 12) := [0, 1, 2, 3, 4, 5, 6, 7, 8, 9, 10, 11]

def compressWords (h : Vector UInt64 8) (t0 t1 f0 f1 : UInt64) (block : List UInt8) :
    Vector UInt64 8 :=
  let m : Vector UInt64 16 := Vector.ofFn fun i => load64 (block.drop (8 * i.val))
  let v : Vector UInt64 16 := h ++ #v[iv[0], iv[1], iv[2], iv[3],
    iv[4] ^^^ t0, iv[5] ^^^ t1, iv[6] ^^^ f0, iv[7] ^^^ f1]
  let v := rounds.foldl (fun v r => round m r v) v
  Vector.ofFn fun i => h[i] ^^^ v[i.val] ^^^ v[i.val + 8]

end Compression

section States

structure State where
  h : Vector UInt64 8
  t0 : UInt64
  t1 : UInt64
  f0 : UInt64
  f1 : UInt64
  buf : List UInt8
  buflen : ℕ
  outlen : ℕ
  lastNode : UInt8

namespace State

def setLastblock (S : State) : State :=
  let S := if S.lastNode ≠ 0 then { S with f1 := 0xffffffffffffffff } else S
  { S with f0 := 0xffffffffffffffff }

def incrementCounter (S : State) (inc : UInt64) : State :=
  let t0 := S.t0 + inc
  { S with t0, t1 := S.t1 + if t0 < inc then 1 else 0 }

def compress (S : State) (block : List UInt8) : Result State :=
  if BLOCKBYTES ≤ block.length then
    .ok { S with h := compressWords S.h S.t0 S.t1 S.f0 S.f1 block }
  else .error .undefined

end State

def memcpyAt (buf : List UInt8) (offset : ℕ) (src : List UInt8) : Result (List UInt8) :=
  if offset + src.length ≤ buf.length then
    .ok (buf.take offset ++ (src ++ buf.drop (offset + src.length)))
  else .error .undefined

/-- The parameter block that `blake2b_init` and `blake2b_init_key` fill in. -/
def paramBlock (outlen keylen : ℕ) : List UInt8 :=
  [UInt8.ofNat outlen, UInt8.ofNat keylen, 1, 1] ++ List.replicate 60 0

def initParam (P : List UInt8) : State where
  h := Vector.ofFn fun i => iv[i] ^^^ load64 (P.drop (8 * i.val))
  t0 := 0
  t1 := 0
  f0 := 0
  f1 := 0
  buf := List.replicate BLOCKBYTES 0
  buflen := 0
  outlen := (P.headD 0).toNat
  lastNode := 0

def init (outlen : ℕ) : Option State :=
  if outlen = 0 ∨ OUTBYTES < outlen then none else some (initParam (paramBlock outlen 0))

/-- The blocks that `blake2b_update` takes straight from its input. -/
def absorb (S : State) (input : List UInt8) : Result (State × List UInt8) :=
  if BLOCKBYTES < input.length then do
    let S ← (S.incrementCounter 128).compress input
    absorb S (input.drop BLOCKBYTES)
  else .ok (S, input)
  termination_by input.length
  decreasing_by
    simp only [List.length_drop, BLOCKBYTES] at *
    omega

def keep (S : State) (input : List UInt8) : Result State := do
  let buf ← memcpyAt S.buf S.buflen input
  return { S with buf, buflen := S.buflen + input.length }

def update (S : State) (input : List UInt8) : Result State :=
  if 0 < input.length then
    let left := S.buflen
    let fill := BLOCKBYTES - left
    if fill < input.length then do
      let buf ← memcpyAt S.buf left (input.take fill)
      let S := ({ S with buflen := 0, buf } : State).incrementCounter 128
      let S ← S.compress S.buf
      let (S, input) ← absorb S (input.drop fill)
      keep S input
    else keep S input
  else .ok S

def initKey (outlen : ℕ) (key : List UInt8) : Result (Option State) :=
  if outlen = 0 ∨ OUTBYTES < outlen then .ok none
  else if key.length = 0 ∨ KEYBYTES < key.length then .ok none
  else do
    let S := initParam (paramBlock outlen key.length)
    let S ← update S (key ++ List.replicate (BLOCKBYTES - key.length) 0)
    return some S

/-- `outlen` is the room at `out`; no output stands for the result -1. -/
def final (S : State) (outlen : ℕ) : Result (State × Option (List UInt8)) :=
  if outlen < S.outlen then .ok (S, none)
  else if S.f0 ≠ 0 then .ok (S, none)
  else do
    let S := (S.incrementCounter (UInt64.ofNat S.buflen)).setLastblock
    let buf ← memcpyAt S.buf S.buflen (List.replicate (BLOCKBYTES - S.buflen) 0)
    let S ← ({ S with buf } : State).compress buf
    return (S, some ((S.h.toList.flatMap store64).take S.outlen))

def opened (outlen : ℕ) (key : List UInt8) : Result (Option State) :=
  if 0 < key.length then initKey outlen key else .ok (init outlen)

def hashed (outlen : ℕ) (input : List UInt8) (S : State) : Result (Option (List UInt8)) := do
  let S ← update S input
  let r ← final S outlen
  return r.2

def blake2b (outlen : ℕ) (input key : List UInt8) : Result (Option (List UInt8)) :=
  if outlen = 0 ∨ OUTBYTES < outlen then .ok none
  else if KEYBYTES < key.length then .ok none
  else do
    let S ← opened outlen key
    S.elim (.ok none) (hashed outlen input)

end States

end PolkadotApi.Blake2b
