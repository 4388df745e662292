import Mathlib.Data.Nat.Bitwise
import Mathlib.Data.Nat.Digits.Lemmas
import Mathlib.Data.UInt
import Mathlib.Logic.Function.Basic
import Mathlib.Tactic.Ring

set_option autoImplicit false

namespace PolkadotApi.ByteWords

section Words

def wordLE (bytes : List UInt8) : UInt64 := bytes.foldr (fun b w => w <<< 8 ||| b.toUInt64) 0

theorem wordLE_toNat {bytes : List UInt8} (h : bytes.length ≤ 8) :
    (wordLE bytes).toNat = Nat.ofDigits 256 (bytes.map UInt8.toNat) := by
  induction bytes with
  | nil => rfl
  | cons b bytes ih =>
    have hlength : bytes.length ≤ 7 := Nat.le_of_succ_le_succ h
    have hdigits : ∀ d ∈ bytes.map UInt8.toNat, d < 256 := by
      intro d hd
      obtain ⟨c, -, rfl⟩ := List.mem_map.1 hd
      exact c.toNat_lt
    have hlt : Nat.ofDigits 256 (bytes.map UInt8.toNat) < 256 ^ 7 := by
      have hbound := Nat.ofDigits_lt_base_pow_length (by norm_num) hdigits
      rw [List.length_map] at hbound
      exact hbound.trans_le (Nat.pow_le_pow_right (by norm_num) hlength)
    have hb := b.toNat_lt
    have hrest := ih (by omega)
    have hstep : wordLE (b :: bytes) = wordLE bytes <<< 8 ||| b.toUInt64 := rfl
    have hshift : (wordLE bytes <<< 8).toNat = (wordLE bytes).toNat <<< 8 := by
      have height : (8 : UInt64).toNat % 64 = 8 := rfl
      rw [UInt64.toNat_shiftLeft, height, hrest, Nat.shiftLeft_eq, Nat.mod_eq_of_lt (by omega)]
    have hor := (Nat.shiftLeft_add_eq_or_of_lt (i := 8) hb (wordLE bytes).toNat).symm
    rw [hstep, UInt64.toNat_or, hshift, UInt8.toNat_toUInt64, hor, hrest, List.map_cons,
      Nat.ofDigits_cons, Nat.shiftLeft_eq]
    omega

theorem wordLE_injective {a b : List UInt8} (ha : a.length ≤ 8) (hab : a.length = b.length)
    (h : wordLE a = wordLE b) : a = b := by
  have hvalue : Nat.ofDigits 256 (a.map UInt8.toNat) = Nat.ofDigits 256 (b.map UInt8.toNat) := by
    rw [← wordLE_toNat ha, ← wordLE_toNat (hab ▸ ha), h]
  have hdigits : ∀ bytes : List UInt8, ∀ d ∈ bytes.map UInt8.toNat, d < 256 := by
    intro bytes d hd
    obtain ⟨c, -, rfl⟩ := List.mem_map.1 hd
    exact c.toNat_lt
  have hmaps := Nat.ofDigits_inj_of_len_eq (by norm_num) (by simpa using hab) (hdigits a)
    (hdigits b) hvalue
  exact (List.map_inj_right fun _ _ hxy => UInt8.toNat_inj.1 hxy).1 hmaps

end Words

section Groups

variable {α : Type}

def groups (size : ℕ) : ℕ → List α → List (List α)
  | 0, _ => []
  | k + 1, data => data.take size :: groups size k (data.drop size)

theorem groups_take {size k n : ℕ} (data : List α) (h : k * size ≤ n) :
    groups size k (data.take n) = groups size k data := by
  induction k generalizing data n with
  | zero => rfl
  | succ k ih =>
    rw [Nat.add_mul, Nat.one_mul] at h
    rw [groups, groups, List.take_take, Nat.min_eq_left (by omega), List.drop_take,
      ih _ (by omega)]

theorem groups_append {size k : ℕ} {front : List α} (hfront : front.length = k * size) (n : ℕ)
    (data : List α) :
    groups size (k + n) (front ++ data) = groups size k front ++ groups size n data := by
  induction k generalizing front with
  | zero =>
    rw [Nat.zero_mul] at hfront
    rw [List.length_eq_zero_iff.1 hfront, Nat.zero_add]
    rfl
  | succ k ih =>
    have hle : size ≤ front.length := by
      rw [hfront, Nat.add_mul]
      omega
    have hrest : (front.drop size).length = k * size := by
      rw [List.length_drop, hfront, Nat.add_mul]
      omega
    rw [Nat.add_right_comm, groups, groups, List.take_append_of_le_length hle,
      List.drop_append_of_le_length hle, ih hrest, List.cons_append]

end Groups

section Mixing

theorem mul_injective {a : UInt64} (inverse : UInt64) (h : a * inverse = 1) :
    Function.Injective (fun x : UInt64 => x * a) := by
  intro x y hxy
  have hx : x * a * inverse = y * a * inverse := congrArg (· * inverse) hxy
  rwa [mul_assoc, mul_assoc, h, mul_one, mul_one] at hx

theorem add_injective (a : UInt64) : Function.Injective (fun x : UInt64 => x + a) :=
  fun _ _ h => add_right_cancel h

theorem xor_injective (a : UInt64) : Function.Injective (fun x : UInt64 => x ^^^ a) := by
  intro x y h
  have hx : x ^^^ a ^^^ a = y ^^^ a ^^^ a := congrArg (· ^^^ a) h
  simpa [UInt64.xor_assoc] using hx

theorem xor_exchange {a b c d : ℕ} (h : a ^^^ b = c ^^^ d) : a ^^^ c = b ^^^ d := by
  apply Nat.eq_of_testBit_eq
  intro i
  have hbit := congrArg (fun n => n.testBit i) h
  simp only [Nat.testBit_xor] at hbit ⊢
  generalize a.testBit i = p at *
  generalize b.testBit i = q at *
  generalize c.testBit i = r at *
  generalize d.testBit i = s at *
  revert p q r s
  decide

/-- The highest bits pass unchanged, and each gives the ones below it. -/
theorem xor_shift_injective {k : UInt64} (hk : 0 < k.toNat) (hlt : k.toNat < 64) :
    Function.Injective (fun x : UInt64 => x ^^^ (x >>> k)) := by
  intro x y h
  have hnat : x.toNat ^^^ (x.toNat >>> k.toNat) = y.toNat ^^^ (y.toNat >>> k.toNat) := by
    have := congrArg UInt64.toNat h
    simpa [UInt64.toNat_xor, UInt64.toNat_shiftRight, Nat.mod_eq_of_lt hlt] using this
  have hdiff : x.toNat ^^^ y.toNat = (x.toNat ^^^ y.toNat) >>> k.toNat := by
    rw [Nat.shiftRight_xor_distrib]
    exact xor_exchange hnat
  rw [Nat.shiftRight_eq_div_pow] at hdiff
  have hzero : x.toNat ^^^ y.toNat = 0 := by
    by_contra hne
    exact absurd hdiff.symm (Nat.div_lt_self (Nat.pos_of_ne_zero hne)
      (Nat.one_lt_two_pow hk.ne')).ne
  exact UInt64.toNat_inj.1 (Nat.xor_eq_zero_iff.1 hzero)

def rotl64 (x r : UInt64) : UInt64 := (x <<< r) ||| (x >>> (64 - r))

theorem rotl64_toNat (x : UInt64) {r : ℕ} (hr : 0 < r) (hlt : r < 64) :
    (rotl64 x (.ofNat r)).toNat = x.toNat % 2 ^ (64 - r) * 2 ^ r + x.toNat / 2 ^ (64 - r) := by
  have hx := x.toNat_lt
  have hleft : (UInt64.ofNat r).toNat = r := by
    rw [UInt64.toNat_ofNat']
    omega
  have hright : (64 - UInt64.ofNat r).toNat = 64 - r := by
    rw [UInt64.toNat_sub, hleft]
    change (2 ^ 64 - r + 64) % 2 ^ 64 = _
    omega
  have hword : 2 ^ (64 - r) * 2 ^ r = 2 ^ 64 := by
    rw [← pow_add]
    congr 1
    omega
  have hstay : x.toNat * 2 ^ r % 2 ^ 64 = x.toNat % 2 ^ (64 - r) * 2 ^ r := by
    rw [← hword, Nat.mul_mod_mul_right]
  have hmoved : x.toNat / 2 ^ (64 - r) < 2 ^ r := by
    rw [← hword] at hx
    exact Nat.div_lt_of_lt_mul hx
  rw [rotl64, UInt64.toNat_or, UInt64.toNat_shiftLeft, UInt64.toNat_shiftRight, hleft, hright,
    Nat.mod_eq_of_lt hlt, Nat.mod_eq_of_lt (by omega : 64 - r < 64), Nat.shiftLeft_eq, hstay,
    Nat.shiftRight_eq_div_pow, ← Nat.shiftLeft_eq, ← Nat.shiftLeft_add_eq_or_of_lt hmoved]

theorem rotl64_injective {r : ℕ} (hr : 0 < r) (hlt : r < 64) :
    Function.Injective (fun x : UInt64 => rotl64 x (.ofNat r)) := by
  intro x y h
  have hnat := congrArg UInt64.toNat h
  simp only [rotl64_toNat _ hr hlt] at hnat
  have hword : 2 ^ (64 - r) * 2 ^ r = 2 ^ 64 := by
    rw [← pow_add]
    congr 1
    omega
  have hpos : 0 < 2 ^ r := Nat.two_pow_pos r
  have hmoved : ∀ z : UInt64, z.toNat / 2 ^ (64 - r) < 2 ^ r := by
    intro z
    have hz := z.toNat_lt
    rw [← hword] at hz
    exact Nat.div_lt_of_lt_mul hz
  have hhigh : x.toNat / 2 ^ (64 - r) = y.toNat / 2 ^ (64 - r) := by
    have hmod := congrArg (· % 2 ^ r) hnat
    simpa [Nat.add_comm, Nat.add_mul_mod_self_right, Nat.mod_eq_of_lt (hmoved _)] using hmod
  have hlow : x.toNat % 2 ^ (64 - r) = y.toNat % 2 ^ (64 - r) := by
    rw [hhigh, Nat.add_right_cancel_iff] at hnat
    exact Nat.eq_of_mul_eq_mul_right hpos hnat
  apply UInt64.toNat_inj.1
  rw [← Nat.div_add_mod x.toNat (2 ^ (64 - r)), ← Nat.div_add_mod y.toNat (2 ^ (64 - r)), hhigh,
    hlow]

end Mixing

end PolkadotApi.ByteWords
