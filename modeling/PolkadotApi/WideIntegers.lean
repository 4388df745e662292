import PolkadotApi.WordPairs

set_option autoImplicit false

/-!
`absl::uint128` without the compiler's own 128-bit type: two words of 64 bits. The
operators are those of `int128.h`, in the branch that uses no intrinsic. A shift by a
negative amount, or by 128 and more, is undefined.
-/
namespace PolkadotApi.WideIntegers
open WordPairs

structure Uint128 where
  hi : UInt64
  lo : UInt64
  deriving DecidableEq

inductive Stop where
  | assertion
  | undefinedShift
  deriving DecidableEq

namespace Uint128

section Operators

def makeUint128 (high low : UInt64) : Uint128 := ⟨high, low⟩

def ofUInt64 (v : UInt64) : Uint128 := ⟨0, v⟩

def lt (lhs rhs : Uint128) : Bool :=
  if lhs.hi = rhs.hi then lhs.lo < rhs.lo else lhs.hi < rhs.hi

def gt (lhs rhs : Uint128) : Bool :=
  if lhs.hi = rhs.hi then lhs.lo > rhs.lo else lhs.hi > rhs.hi

def le (lhs rhs : Uint128) : Bool :=
  if lhs.hi = rhs.hi then lhs.lo ≤ rhs.lo else lhs.hi ≤ rhs.hi

def ge (lhs rhs : Uint128) : Bool :=
  if lhs.hi = rhs.hi then lhs.lo ≥ rhs.lo else lhs.hi ≥ rhs.hi

def neg (val : Uint128) : Uint128 :=
  let hi := ~~~val.hi
  let lo := ~~~val.lo + 1
  if lo = 0 then makeUint128 (hi + 1) lo else makeUint128 hi lo

def complement (val : Uint128) : Uint128 := makeUint128 (~~~val.hi) (~~~val.lo)

def or (lhs rhs : Uint128) : Uint128 := makeUint128 (lhs.hi ||| rhs.hi) (lhs.lo ||| rhs.lo)

def and (lhs rhs : Uint128) : Uint128 := makeUint128 (lhs.hi &&& rhs.hi) (lhs.lo &&& rhs.lo)

def xor (lhs rhs : Uint128) : Uint128 := makeUint128 (lhs.hi ^^^ rhs.hi) (lhs.lo ^^^ rhs.lo)

def shiftLeft (lhs : Uint128) (amount : ℕ) : Uint128 :=
  if amount < 64 then
    if amount ≠ 0 then
      makeUint128 (lhs.hi <<< UInt64.ofNat amount ||| lhs.lo >>> UInt64.ofNat (64 - amount))
        (lhs.lo <<< UInt64.ofNat amount)
    else lhs
  else makeUint128 (lhs.lo <<< UInt64.ofNat (amount - 64)) 0

def shiftRight (lhs : Uint128) (amount : ℕ) : Uint128 :=
  if amount < 64 then
    if amount ≠ 0 then
      makeUint128 (lhs.hi >>> UInt64.ofNat amount)
        (lhs.lo >>> UInt64.ofNat amount ||| lhs.hi <<< UInt64.ofNat (64 - amount))
    else lhs
  else makeUint128 0 (lhs.hi >>> UInt64.ofNat (amount - 64))

def add (lhs rhs : Uint128) : Uint128 :=
  let result := makeUint128 (lhs.hi + rhs.hi) (lhs.lo + rhs.lo)
  if result.lo < lhs.lo then makeUint128 (result.hi + 1) result.lo else result

def sub (lhs rhs : Uint128) : Uint128 :=
  let result := makeUint128 (lhs.hi - rhs.hi) (lhs.lo - rhs.lo)
  if lhs.lo < rhs.lo then makeUint128 (result.hi - 1) result.lo else result

def mul (lhs rhs : Uint128) : Uint128 :=
  let a32 := lhs.lo >>> 32
  let a00 := lhs.lo &&& 0xffffffff
  let b32 := rhs.lo >>> 32
  let b00 := rhs.lo &&& 0xffffffff
  let result := makeUint128 (lhs.hi * rhs.lo + lhs.lo * rhs.hi + a32 * b32) (a00 * b00)
  let result := result.add ((ofUInt64 (a32 * b00)).shiftLeft 32)
  result.add ((ofUInt64 (a00 * b32)).shiftLeft 32)

/-- A shift by a computed `int`. -/
def shiftLeftInt (lhs : Uint128) (amount : ℤ) : Except Stop Uint128 :=
  if 0 ≤ amount ∧ amount < 128 then .ok (lhs.shiftLeft amount.toNat) else .error .undefinedShift

end Operators

section Values

def toNat (v : Uint128) : ℕ := v.hi.toNat * 2 ^ 64 + v.lo.toNat

variable (a b : Uint128)

theorem toNat_lt : a.toNat < 2 ^ 128 := by
  have hhi := a.hi.toNat_lt
  have hlo := a.lo.toNat_lt
  rw [toNat]
  omega

theorem toNat_injective : Function.Injective toNat := by
  intro a b h
  have ha := a.lo.toNat_lt
  have hb := b.lo.toNat_lt
  simp only [toNat] at h
  have hhi : a.hi = b.hi := UInt64.toNat_inj.1 (by omega)
  have hlo : a.lo = b.lo := UInt64.toNat_inj.1 (by omega)
  exact Uint128.mk.injEq .. ▸ ⟨hhi, hlo⟩

theorem toNat_ofUInt64 (v : UInt64) : (ofUInt64 v).toNat = v.toNat := by
  simp [toNat, ofUInt64]

theorem lt_eq : a.lt b = decide (a.toNat < b.toNat) := by
  simp only [lt, toNat, pair_lt_iff a.lo.toNat_lt b.lo.toNat_lt, UInt64.toNat_inj,
    UInt64.lt_iff_toNat_lt]
  split_ifs <;> rfl

theorem gt_eq : a.gt b = b.lt a := by
  simp only [gt, lt, eq_comm]

theorem le_eq : a.le b = !b.lt a := by
  simp only [le, lt, eq_comm (a := b.hi), ← UInt64.not_lt, decide_not]
  split_ifs <;> rfl

theorem ge_eq : a.ge b = b.le a := by
  simp only [ge, le, eq_comm]

theorem toNat_add : (a.add b).toNat = (a.toNat + b.toNat) % 2 ^ 128 := by
  have hahi := a.hi.toNat_lt
  have halo := a.lo.toNat_lt
  have hbhi := b.hi.toNat_lt
  have hblo := b.lo.toNat_lt
  simp only [add, makeUint128, UInt64.lt_iff_toNat_lt, UInt64.toNat_add]
  split_ifs <;> simp only [toNat, UInt64.toNat_add, UInt64.toNat_one] <;> omega

theorem toNat_sub : (a.sub b).toNat = (a.toNat + (2 ^ 128 - b.toNat)) % 2 ^ 128 := by
  have hahi := a.hi.toNat_lt
  have halo := a.lo.toNat_lt
  have hbhi := b.hi.toNat_lt
  have hblo := b.lo.toNat_lt
  simp only [sub, makeUint128, UInt64.lt_iff_toNat_lt]
  split_ifs <;> simp only [toNat, UInt64.toNat_sub, UInt64.toNat_one] <;> omega

theorem toNat_sub_of_le (h : b.toNat ≤ a.toNat) : (a.sub b).toNat = a.toNat - b.toNat := by
  have ha := a.toNat_lt
  rw [toNat_sub]
  omega

theorem toNat_neg : a.neg.toNat = (2 ^ 128 - a.toNat) % 2 ^ 128 := by
  have hhi := a.hi.toNat_lt
  have hlo := a.lo.toNat_lt
  simp only [neg, makeUint128, ← UInt64.toNat_inj, UInt64.toNat_add, UInt64.toNat_not,
    UInt64.size, UInt64.toNat_one, UInt64.toNat_zero]
  split_ifs <;> simp only [toNat, UInt64.toNat_add, UInt64.toNat_not, UInt64.size,
    UInt64.toNat_one] <;> omega

theorem toNat_complement : a.complement.toNat = 2 ^ 128 - 1 - a.toNat := by
  have hhi := a.hi.toNat_lt
  have hlo := a.lo.toNat_lt
  simp only [complement, makeUint128, toNat, UInt64.toNat_not, UInt64.size]
  omega

theorem toNat_or : (a.or b).toNat = a.toNat ||| b.toNat := by
  simp only [or, makeUint128, toNat, UInt64.toNat_or]
  exact (bitwise_pair rfl a.lo.toNat_lt b.lo.toNat_lt _ _).symm

theorem toNat_and : (a.and b).toNat = a.toNat &&& b.toNat := by
  simp only [and, makeUint128, toNat, UInt64.toNat_and]
  exact (bitwise_pair rfl a.lo.toNat_lt b.lo.toNat_lt _ _).symm

theorem toNat_xor : (a.xor b).toNat = a.toNat ^^^ b.toNat := by
  simp only [xor, makeUint128, toNat, UInt64.toNat_xor]
  exact (bitwise_pair rfl a.lo.toNat_lt b.lo.toNat_lt _ _).symm

end Values

section Shifts

theorem toNat_ofNat_of_lt {n : ℕ} (h : n < 64) : (UInt64.ofNat n).toNat = n := by
  rw [UInt64.toNat_ofNat']
  omega

theorem toNat_wordShiftLeft (x : UInt64) {n : ℕ} (h : n < 64) :
    (x <<< UInt64.ofNat n).toNat = x.toNat * 2 ^ n % 2 ^ 64 := by
  rw [UInt64.toNat_shiftLeft, toNat_ofNat_of_lt h, Nat.mod_eq_of_lt h, Nat.shiftLeft_eq]

theorem toNat_wordShiftRight (x : UInt64) {n : ℕ} (h : n < 64) :
    (x >>> UInt64.ofNat n).toNat = x.toNat / 2 ^ n := by
  rw [UInt64.toNat_shiftRight, toNat_ofNat_of_lt h, Nat.mod_eq_of_lt h, Nat.shiftRight_eq_div_pow]

theorem or_eq_add {n c : ℕ} (h : c < 2 ^ n) (x : ℕ) : x * 2 ^ n ||| c = x * 2 ^ n + c := by
  rw [Nat.mul_comm, Nat.two_pow_add_eq_or_of_lt h]

theorem two_pow_split {n : ℕ} (h : n < 64) : 2 ^ n * 2 ^ (64 - n) = 2 ^ 64 := by
  rw [← pow_add]
  congr 1
  omega

theorem toNat_shiftLeft (a : Uint128) {amount : ℕ} (h : amount < 128) :
    (a.shiftLeft amount).toNat = a.toNat * 2 ^ amount % 2 ^ 128 := by
  have hlt := a.toNat_lt
  have hlo := a.lo.toNat_lt
  have hword : (2 : ℕ) ^ 128 = 2 ^ 64 * 2 ^ 64 := by rw [← pow_add]
  rw [shiftLeft]
  split_ifs with hsmall hne
  · have hsplit := two_pow_split hsmall
    have hp : 0 < 2 ^ amount := Nat.two_pow_pos amount
    have hq : 0 < 2 ^ (64 - amount) := Nat.two_pow_pos (64 - amount)
    rw [← hsplit] at hlo
    have hdigit : a.lo.toNat / 2 ^ (64 - amount) < 2 ^ amount :=
      (Nat.div_lt_iff_lt_mul hq).2 hlo
    have hstay : a.hi.toNat * 2 ^ amount % 2 ^ 64 = a.hi.toNat % 2 ^ (64 - amount) * 2 ^ amount := by
      rw [← hsplit]
      exact mul_add_mod_word hq hp a.hi.toNat
    have hpair := pair_mul hp hq hlo a.hi.toNat
    rw [hsplit] at hpair
    simp only [toNat, makeUint128, UInt64.toNat_or, toNat_wordShiftLeft _ hsmall,
      toNat_wordShiftRight _ (show 64 - amount < 64 by omega)]
    rw [hword, hpair, hstay, or_eq_add hdigit]
  · rw [not_not] at hne
    rw [hne, pow_zero, Nat.mul_one, Nat.mod_eq_of_lt hlt]
  · have hsum : 2 ^ amount = 2 ^ (amount - 64) * 2 ^ 64 := by
      rw [← pow_add]
      congr 1
      omega
    have hdrop : (a.hi.toNat * 2 ^ 64 + a.lo.toNat) * 2 ^ amount =
        a.lo.toNat * 2 ^ (amount - 64) * 2 ^ 64 + a.hi.toNat * 2 ^ (amount - 64) * 2 ^ 128 := by
      rw [hsum, hword]
      ring
    simp only [toNat, makeUint128, toNat_wordShiftLeft _ (show amount - 64 < 64 by omega),
      UInt64.toNat_zero, Nat.add_zero]
    rw [hdrop, Nat.add_mul_mod_self_right, hword, Nat.mul_mod_mul_right]

theorem toNat_shiftRight (a : Uint128) {amount : ℕ} (h : amount < 128) :
    (a.shiftRight amount).toNat = a.toNat / 2 ^ amount := by
  have hlo := a.lo.toNat_lt
  rw [shiftRight]
  split_ifs with hsmall hne
  · have hsplit := two_pow_split hsmall
    have hp : 0 < 2 ^ amount := Nat.two_pow_pos amount
    rw [← hsplit] at hlo
    have hdigit : a.lo.toNat / 2 ^ amount < 2 ^ (64 - amount) := by
      rw [Nat.mul_comm] at hlo
      exact (Nat.div_lt_iff_lt_mul hp).2 hlo
    have hmoved : a.hi.toNat * 2 ^ (64 - amount) % 2 ^ 64 =
        a.hi.toNat % 2 ^ amount * 2 ^ (64 - amount) := by
      rw [← hsplit, Nat.mul_mod_mul_right]
    have hpair := pair_div (q := 2 ^ (64 - amount)) hp a.hi.toNat a.lo.toNat
    rw [hsplit] at hpair
    simp only [toNat, makeUint128, UInt64.toNat_or, toNat_wordShiftRight _ hsmall,
      toNat_wordShiftLeft _ (show 64 - amount < 64 by omega)]
    rw [hpair, hmoved, Nat.lor_comm, or_eq_add hdigit, Nat.add_comm (a.lo.toNat / 2 ^ amount)]
  · rw [not_not] at hne
    rw [hne, pow_zero, Nat.div_one]
  · have hsum : 2 ^ amount = 2 ^ 64 * 2 ^ (amount - 64) := by
      rw [← pow_add]
      congr 1
      omega
    simp only [toNat, makeUint128, toNat_wordShiftRight _ (show amount - 64 < 64 by omega),
      UInt64.toNat_zero, Nat.zero_mul, Nat.zero_add]
    rw [hsum, ← Nat.div_div_eq_div_mul]
    congr 1
    omega

end Shifts

section Product

theorem toNat_lowHalf (x : UInt64) : (x &&& 0xffffffff).toNat = x.toNat % 2 ^ 32 := by
  rw [UInt64.toNat_and]
  exact Nat.and_two_pow_sub_one_eq_mod x.toNat 32

theorem toNat_highHalf (x : UInt64) : (x >>> 32).toNat = x.toNat / 2 ^ 32 :=
  toNat_wordShiftRight x (by omega : 32 < 64)

theorem toNat_halfProduct {x y : UInt64} (hx : x.toNat < 2 ^ 32) (hy : y.toNat < 2 ^ 32) :
    (x * y).toNat = x.toNat * y.toNat := by
  have hlt : x.toNat * y.toNat < 2 ^ 32 * 2 ^ 32 := Nat.mul_lt_mul'' hx hy
  rw [UInt64.toNat_mul, Nat.mod_eq_of_lt (by omega)]

theorem toNat_mul (a b : Uint128) : (a.mul b).toNat = a.toNat * b.toNat % 2 ^ 128 := by
  have halo := a.lo.toNat_lt
  have hblo := b.lo.toNat_lt
  have ha32 : (a.lo >>> 32).toNat < 2 ^ 32 := by
    rw [toNat_highHalf]
    omega
  have hb32 : (b.lo >>> 32).toNat < 2 ^ 32 := by
    rw [toNat_highHalf]
    omega
  have ha00 : (a.lo &&& 0xffffffff).toNat < 2 ^ 32 := by
    rw [toNat_lowHalf]
    omega
  have hb00 : (b.lo &&& 0xffffffff).toNat < 2 ^ 32 := by
    rw [toNat_lowHalf]
    omega
  have hlow := toNat_halfProduct ha00 hb00
  have hlt := ((a.lo &&& 0xffffffff) * (b.lo &&& 0xffffffff)).toNat_lt
  rw [hlow] at hlt
  have hwords : a.lo.toNat * b.lo.toNat =
      (a.lo >>> 32).toNat * (b.lo >>> 32).toNat * 2 ^ 64 +
        (a.lo >>> 32).toNat * (b.lo &&& 0xffffffff).toNat * 2 ^ 32 +
        (a.lo &&& 0xffffffff).toNat * (b.lo >>> 32).toNat * 2 ^ 32 +
        (a.lo &&& 0xffffffff).toNat * (b.lo &&& 0xffffffff).toNat := by
    have ha := Nat.div_add_mod a.lo.toNat (2 ^ 32)
    have hb := Nat.div_add_mod b.lo.toNat (2 ^ 32)
    rw [← toNat_highHalf, ← toNat_lowHalf] at ha hb
    rw [← ha, ← hb]
    ring
  have hproduct : a.toNat * b.toNat = a.hi.toNat * b.hi.toNat * 2 ^ 128 +
      (a.hi.toNat * b.lo.toNat + a.lo.toNat * b.hi.toNat) * 2 ^ 64 + a.lo.toNat * b.lo.toNat := by
    simp only [toNat]
    ring
  simp only [mul, toNat_add, toNat_shiftLeft _ (show 32 < 128 by omega), toNat_ofUInt64,
    toNat_halfProduct ha32 hb00, toNat_halfProduct ha00 hb32]
  rw [hproduct, hwords]
  simp only [toNat, makeUint128, UInt64.toNat_add, UInt64.toNat_mul, hlow]
  generalize a.hi.toNat * b.hi.toNat = high
  generalize a.hi.toNat * b.lo.toNat = cross
  generalize a.lo.toNat * b.hi.toNat = cross'
  generalize (a.lo >>> 32).toNat * (b.lo >>> 32).toNat = top
  generalize (a.lo >>> 32).toNat * (b.lo &&& 0xffffffff).toNat = middle
  generalize (a.lo &&& 0xffffffff).toNat * (b.lo >>> 32).toNat = middle'
  generalize (a.lo &&& 0xffffffff).toNat * (b.lo &&& 0xffffffff).toNat = bottom at *
  omega

end Product

end Uint128

end PolkadotApi.WideIntegers
