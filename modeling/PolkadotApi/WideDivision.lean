import PolkadotApi.StreamReader
import PolkadotApi.WideIntegers

set_option autoImplicit false

namespace PolkadotApi.WideIntegers
open StreamReader WordPairs

section HighestBit

def step64 (sh : ℕ) (n : UInt64) (pos : ℕ) : UInt64 × ℕ :=
  if n ≥ 1 <<< UInt64.ofNat sh then (n >>> UInt64.ofNat sh, pos ||| sh) else (n, pos)

def step32 (sh : ℕ) (n : UInt32) (pos : ℕ) : UInt32 × ℕ :=
  if n ≥ 1 <<< UInt32.ofNat sh then (n >>> UInt32.ofNat sh, pos ||| sh) else (n, pos)

def fls64 (n : UInt64) : Except Stop ℕ :=
  if n = 0 then .error .assertion
  else
    let (n, pos) := step64 0x20 n 0
    let n32 := n.toUInt32
    let (n32, pos) := step32 0x10 n32 pos
    let (n32, pos) := step32 0x08 n32 pos
    let (n32, pos) := step32 0x04 n32 pos
    .ok (pos + (((0x3333333322221100 : UInt64) >>> (n32 <<< 2).toUInt64) &&& 0x3).toNat)

def fls128 (n : Uint128) : Except Stop ℕ :=
  if n.hi ≠ 0 then (fls64 n.hi).map (· + 64) else fls64 n.lo

theorem step64_eq {sh : ℕ} (hsh : sh < 64) (n : UInt64) (pos : ℕ) :
    ((step64 sh n pos).1.toNat, (step64 sh n pos).2) = narrow sh n.toNat pos := by
  have hone : (1 <<< UInt64.ofNat sh : UInt64).toNat = 2 ^ sh := by
    rw [Uint128.toNat_wordShiftLeft 1 hsh, UInt64.toNat_one, Nat.one_mul]
    exact Nat.mod_eq_of_lt (Nat.pow_lt_pow_right (by omega) hsh)
  simp only [step64, narrow, ge_iff_le, UInt64.le_iff_toNat_le, hone]
  split_ifs
  · rw [Uint128.toNat_wordShiftRight n hsh]
  · rfl

theorem step32_eq {sh : ℕ} (hsh : sh < 32) (n : UInt32) (pos : ℕ) :
    ((step32 sh n pos).1.toNat, (step32 sh n pos).2) = narrow sh n.toNat pos := by
  have hsh' : (UInt32.ofNat sh).toNat % 32 = sh := by
    rw [UInt32.toNat_ofNat']
    omega
  have hone : (1 <<< UInt32.ofNat sh : UInt32).toNat = 2 ^ sh := by
    rw [UInt32.toNat_shiftLeft, hsh', UInt32.toNat_one, Nat.shiftLeft_eq, Nat.one_mul]
    exact Nat.mod_eq_of_lt (Nat.pow_lt_pow_right (by omega) hsh)
  simp only [step32, narrow, ge_iff_le, UInt32.le_iff_toNat_le, hone]
  split_ifs
  · rw [UInt32.toNat_shiftRight, hsh', Nat.shiftRight_eq_div_pow]
  · rfl

theorem narrowed_step64 {k found pos : ℕ} {n : UInt64} (hk : 2 ^ k < 64)
    (h : Narrowed (2 ^ (k + 1)) found n.toNat pos) :
    Narrowed (2 ^ k) found (step64 (2 ^ k) n pos).1.toNat (step64 (2 ^ k) n pos).2 := by
  have heq := step64_eq hk n pos
  have hstep := h.step
  rwa [← heq] at hstep

theorem narrowed_step32 {k found pos : ℕ} {n : UInt32} (hk : 2 ^ k < 32)
    (h : Narrowed (2 ^ (k + 1)) found n.toNat pos) :
    Narrowed (2 ^ k) found (step32 (2 ^ k) n pos).1.toNat (step32 (2 ^ k) n pos).2 := by
  have heq := step32_eq hk n pos
  have hstep := h.step
  rwa [← heq] at hstep

theorem table_eq {n : UInt32} (hne : n.toNat ≠ 0) (hlt : n.toNat < 16) :
    (((0x3333333322221100 : UInt64) >>> (n <<< 2).toUInt64) &&& 0x3).toNat = n.toNat.log2 := by
  have hall : ∀ i < 16, i ≠ 0 →
      (((0x3333333322221100 : UInt64) >>> (UInt32.ofNat i <<< 2).toUInt64) &&& 0x3).toNat =
        i.log2 := by decide
  have h := hall n.toNat hlt hne
  rwa [UInt32.ofNat_toNat] at h

theorem fls64_eq {n : UInt64} (h : n.toNat ≠ 0) : fls64 n = .ok n.toNat.log2 := by
  have hne : n ≠ 0 := by
    rintro rfl
    exact h rfl
  have h64 : Narrowed (2 ^ 6) n.toNat.log2 n.toNat 0 :=
    ⟨h, n.toNat_lt, Nat.dvd_zero _, Nat.zero_add _⟩
  have h32 := narrowed_step64 (k := 5) (by decide) h64
  have hcut : (step64 (2 ^ 5) n 0).1.toUInt32.toNat = (step64 (2 ^ 5) n 0).1.toNat := by
    rw [UInt64.toNat_toUInt32]
    exact Nat.mod_eq_of_lt h32.bounded
  rw [← hcut] at h32
  have h4 := narrowed_step32 (k := 2) (by decide)
    (narrowed_step32 (k := 3) (by decide) (narrowed_step32 (k := 4) (by decide) h32))
  have htable := table_eq h4.nonzero h4.bounded
  rw [fls64, if_neg hne]
  exact congrArg Except.ok ((congrArg (_ + ·) htable).trans h4.total)

theorem fls128_eq {n : Uint128} (h : n.toNat ≠ 0) : fls128 n = .ok n.toNat.log2 := by
  have hlo := n.lo.toNat_lt
  rw [fls128]
  split_ifs with hhi
  · have hne : n.hi.toNat ≠ 0 := fun h0 => hhi (UInt64.toNat_inj.1 h0)
    have hword : n.toNat / 2 ^ 64 = n.hi.toNat := by
      rw [Uint128.toNat]
      omega
    have hlog : n.toNat.log2 = 64 + (n.toNat / 2 ^ 64).log2 := by
      apply log2_div_two_pow
      rw [Uint128.toNat]
      omega
    rw [fls64_eq hne, hlog, hword, Nat.add_comm 64]
    rfl
  · rw [not_not] at hhi
    have hword : n.toNat = n.lo.toNat := by
      rw [Uint128.toNat, hhi, UInt64.toNat_zero, Nat.zero_mul, Nat.zero_add]
    rw [hword] at h ⊢
    exact fls64_eq h

end HighestBit

section Division

/-- The rounds that are left of the loop; quotient and remainder at its end. -/
def divLoop : ℕ → Uint128 → Uint128 → Uint128 → Uint128 × Uint128
  | 0, dividend, _, quotient => (quotient, dividend)
  | rounds + 1, dividend, denominator, quotient =>
    let quotient := quotient.shiftLeft 1
    if dividend.ge denominator then
      divLoop rounds (dividend.sub denominator) (denominator.shiftRight 1)
        (quotient.or (.ofUInt64 1))
    else divLoop rounds dividend (denominator.shiftRight 1) quotient

def divAligned (dividend divisor : Uint128) (shift : ℤ) : Except Stop (Uint128 × Uint128) := do
  let denominator ← divisor.shiftLeftInt shift
  return divLoop (shift + 1).toNat dividend denominator (.ofUInt64 0)

def divModImpl (dividend divisor : Uint128) : Except Stop (Uint128 × Uint128) :=
  if divisor = .ofUInt64 0 then .error .assertion
  else if divisor.gt dividend then .ok (.ofUInt64 0, dividend)
  else if divisor = dividend then .ok (.ofUInt64 1, .ofUInt64 0)
  else do
    let high ← fls128 dividend
    let low ← fls128 divisor
    divAligned dividend divisor ((high : ℤ) - low)

/-- `operator/` and `operator%` where there is no intrinsic. -/
def div (lhs rhs : Uint128) : Except Stop Uint128 := (divModImpl lhs rhs).map Prod.fst

def mod (lhs rhs : Uint128) : Except Stop Uint128 := (divModImpl lhs rhs).map Prod.snd

/-- The loop on words is the loop on numbers as long as the quotient has room. -/
theorem divLoop_eq (rounds : ℕ) : ∀ {dividend denominator quotient : Uint128},
    (quotient.toNat + 1) * 2 ^ rounds ≤ 2 ^ 128 →
      ((divLoop rounds dividend denominator quotient).1.toNat,
        (divLoop rounds dividend denominator quotient).2.toNat) =
          restore rounds dividend.toNat denominator.toNat quotient.toNat := by
  induction rounds with
  | zero => exact fun _ => rfl
  | succ rounds ih =>
    intro dividend denominator quotient hroom
    have hpow : 1 ≤ 2 ^ rounds := Nat.one_le_two_pow
    have hdouble : (quotient.toNat * 2 + 2) * 2 ^ rounds ≤ 2 ^ 128 := by
      rw [pow_succ] at hroom
      calc (quotient.toNat * 2 + 2) * 2 ^ rounds
          = (quotient.toNat + 1) * (2 ^ rounds * 2) := by ring
        _ ≤ 2 ^ 128 := hroom
    have hsmall : quotient.toNat * 2 + 2 ≤ 2 ^ 128 :=
      (Nat.le_mul_of_pos_right _ hpow).trans hdouble
    have hshift : (quotient.shiftLeft 1).toNat = quotient.toNat * 2 := by
      rw [Uint128.toNat_shiftLeft _ (by omega), pow_one, Nat.mod_eq_of_lt (by omega)]
    have hset : ((quotient.shiftLeft 1).or (.ofUInt64 1)).toNat = quotient.toNat * 2 + 1 := by
      rw [Uint128.toNat_or, hshift, Uint128.toNat_ofUInt64, UInt64.toNat_one]
      exact Uint128.or_eq_add (n := 1) (by omega) quotient.toNat
    have hhalf : (denominator.shiftRight 1).toNat = denominator.toNat / 2 := by
      rw [Uint128.toNat_shiftRight _ (by omega), pow_one]
    rw [divLoop, restore, Uint128.ge_eq, Uint128.le_eq, Uint128.lt_eq]
    by_cases hfits : denominator.toNat ≤ dividend.toNat
    · rw [if_pos hfits, if_pos (by simpa using hfits), ih (by rw [hset]; exact hdouble), hset, hhalf,
        Uint128.toNat_sub_of_le _ _ hfits]
    · have hroom' : ((quotient.shiftLeft 1).toNat + 1) * 2 ^ rounds ≤ 2 ^ 128 := by
        rw [hshift]
        exact (Nat.mul_le_mul_right _ (by omega)).trans hdouble
      rw [if_neg hfits, if_neg (by simpa using hfits), ih hroom', hshift, hhalf]

theorem aligned_bounds {m n : ℕ} (hn : n ≠ 0) (h : n ≤ m) :
    n.log2 ≤ m.log2 ∧ m < n * 2 ^ (m.log2 - n.log2 + 1) ∧
      n * 2 ^ (m.log2 - n.log2) < 2 ^ (m.log2 + 1) := by
  have hm : m ≠ 0 := by omega
  have hle : n.log2 ≤ m.log2 := by
    rw [Nat.log2_eq_log_two, Nat.log2_eq_log_two]
    exact Nat.log_mono_right h
  have hlow := Nat.log2_self_le hn
  have hhigh := Nat.lt_log2_self (n := n)
  have hpos := Nat.two_pow_pos (m.log2 - n.log2)
  have hsum : 2 ^ n.log2 * 2 ^ (m.log2 - n.log2 + 1) = 2 ^ (m.log2 + 1) := by
    rw [← pow_add]
    congr 1
    omega
  have hsum' : 2 ^ (n.log2 + 1) * 2 ^ (m.log2 - n.log2) = 2 ^ (m.log2 + 1) := by
    rw [← pow_add]
    congr 1
    omega
  refine ⟨hle, ?_, ?_⟩
  · calc m < 2 ^ (m.log2 + 1) := Nat.lt_log2_self
      _ = 2 ^ n.log2 * 2 ^ (m.log2 - n.log2 + 1) := hsum.symm
      _ ≤ n * 2 ^ (m.log2 - n.log2 + 1) := Nat.mul_le_mul_right _ hlow
  · calc n * 2 ^ (m.log2 - n.log2) < 2 ^ (n.log2 + 1) * 2 ^ (m.log2 - n.log2) :=
        Nat.mul_lt_mul_of_pos_right hhigh hpos
      _ = 2 ^ (m.log2 + 1) := hsum'

theorem ne_zero_iff {v : Uint128} : v ≠ .ofUInt64 0 ↔ v.toNat ≠ 0 := by
  rw [not_iff_not]
  constructor
  · rintro rfl
    rfl
  · intro h
    exact Uint128.toNat_injective (h.trans (Uint128.toNat_ofUInt64 0).symm)

theorem divAligned_eq (dividend divisor : Uint128) {amount : ℕ} (h : amount < 128) :
    divAligned dividend divisor amount =
      .ok (divLoop (amount + 1) dividend (divisor.shiftLeft amount) (.ofUInt64 0)) := by
  have hshift : divisor.shiftLeftInt amount = .ok (divisor.shiftLeft amount) := by
    rw [Uint128.shiftLeftInt, if_pos (by omega), Int.toNat_natCast]
  rw [divAligned, hshift, except_ok_bind, Int.toNat_natCast_add_one]
  rfl

theorem divLoop_aligned {dividend divisor : Uint128} {amount : ℕ} (hamount : amount < 128)
    (hdividend : dividend.toNat < divisor.toNat * 2 ^ (amount + 1))
    (hdivisor : divisor.toNat * 2 ^ amount < 2 ^ 128) :
    ((divLoop (amount + 1) dividend (divisor.shiftLeft amount) (.ofUInt64 0)).1.toNat,
      (divLoop (amount + 1) dividend (divisor.shiftLeft amount) (.ofUInt64 0)).2.toNat) =
        (dividend.toNat / divisor.toNat, dividend.toNat % divisor.toNat) := by
  have hzero : (Uint128.ofUInt64 0).toNat = 0 := Uint128.toNat_ofUInt64 0
  have hden : (divisor.shiftLeft amount).toNat = divisor.toNat * 2 ^ amount := by
    rw [Uint128.toNat_shiftLeft _ hamount, Nat.mod_eq_of_lt hdivisor]
  have hhalf : (divisor.shiftLeft amount).toNat = divisor.toNat * 2 ^ (amount + 1) / 2 := by
    rw [hden, pow_succ, ← Nat.mul_assoc, Nat.mul_div_cancel _ (by omega)]
  rw [divLoop_eq, restore_eq _ _ hdividend hhalf, hzero, Nat.zero_mul, Nat.zero_add]
  rw [hzero, Nat.zero_add, Nat.one_mul]
  exact Nat.pow_le_pow_right (by omega) hamount

theorem divModImpl_ok (dividend : Uint128) {divisor : Uint128} (h : divisor ≠ .ofUInt64 0) :
    ∃ quotient remainder, divModImpl dividend divisor = .ok (quotient, remainder) ∧
      quotient.toNat = dividend.toNat / divisor.toNat ∧
        remainder.toNat = dividend.toNat % divisor.toNat := by
  have hne := ne_zero_iff.1 h
  have hpos : 0 < divisor.toNat := Nat.pos_of_ne_zero hne
  rw [divModImpl, if_neg h, Uint128.gt_eq, Uint128.lt_eq]
  by_cases hlarge : dividend.toNat < divisor.toNat
  · refine ⟨.ofUInt64 0, dividend, if_pos (by simpa using hlarge), ?_, ?_⟩
    · rw [Nat.div_eq_of_lt hlarge, Uint128.toNat_ofUInt64, UInt64.toNat_zero]
    · rw [Nat.mod_eq_of_lt hlarge]
  rw [if_neg (by simpa using hlarge)]
  by_cases heq : divisor = dividend
  · subst heq
    refine ⟨.ofUInt64 1, .ofUInt64 0, if_pos rfl, ?_, ?_⟩
    · rw [Nat.div_self hpos, Uint128.toNat_ofUInt64, UInt64.toNat_one]
    · rw [Nat.mod_self, Uint128.toNat_ofUInt64, UInt64.toNat_zero]
  rw [if_neg heq]
  have hdividend0 : dividend.toNat ≠ 0 := by omega
  have hlog : dividend.toNat.log2 < 128 := (Nat.log2_lt hdividend0).2 dividend.toNat_lt
  obtain ⟨hle, hdividend, hdivisor⟩ := aligned_bounds hne (not_lt.1 hlarge)
  have hwide : 2 ^ (dividend.toNat.log2 + 1) ≤ 2 ^ 128 := Nat.pow_le_pow_right (by decide) hlog
  have hamount := (Nat.sub_le _ divisor.toNat.log2).trans_lt hlog
  have hloop := divLoop_aligned hamount hdividend (hdivisor.trans_le hwide)
  rw [fls128_eq hdividend0, fls128_eq hne]
  rw [except_ok_bind, except_ok_bind, ← Int.ofNat_sub hle, divAligned_eq _ _ hamount]
  obtain ⟨hquotient, hremainder⟩ := Prod.mk.inj hloop
  exact ⟨_, _, congrArg Except.ok Prod.mk.eta.symm, hquotient, hremainder⟩

end Division

section Intrinsics

def toIntrinsic (v : Uint128) : BitVec 128 :=
  (v.hi.toBitVec.setWidth 128 <<< 64) + v.lo.toBitVec.setWidth 128

def ofIntrinsic (v : BitVec 128) : Uint128 :=
  ⟨⟨(v >>> 64).setWidth 64⟩, ⟨(v &&& 0xffffffffffffffff#128).setWidth 64⟩⟩

theorem toNat_toIntrinsic (v : Uint128) : (toIntrinsic v).toNat = v.toNat := by
  have hhi := v.hi.toNat_lt
  have hlo := v.lo.toNat_lt
  simp only [toIntrinsic, Uint128.toNat, BitVec.toNat_add, BitVec.toNat_shiftLeft,
    BitVec.toNat_setWidth, UInt64.toNat_toBitVec, Nat.shiftLeft_eq]
  omega

theorem toNat_ofIntrinsic (v : BitVec 128) : (ofIntrinsic v).toNat = v.toNat := by
  have hlt := v.isLt
  have hmask : v.toNat &&& (0xffffffffffffffff#128).toNat = v.toNat % 2 ^ 64 :=
    Nat.and_two_pow_sub_one_eq_mod v.toNat 64
  simp only [ofIntrinsic, Uint128.toNat, UInt64.toNat, BitVec.toNat_setWidth,
    BitVec.toNat_ushiftRight, BitVec.toNat_and, hmask, Nat.shiftRight_eq_div_pow]
  omega

theorem eq_ofIntrinsic {v : Uint128} {x : BitVec 128} (h : v.toNat = x.toNat) :
    v = ofIntrinsic x :=
  Uint128.toNat_injective (h.trans (toNat_ofIntrinsic x).symm)

theorem divisions_agree (a : Uint128) {b : Uint128} (h : b ≠ .ofUInt64 0) :
    div a b = .ok (ofIntrinsic (toIntrinsic a / toIntrinsic b)) ∧
      mod a b = .ok (ofIntrinsic (toIntrinsic a % toIntrinsic b)) := by
  obtain ⟨quotient, remainder, hrun, hquotient, hremainder⟩ := divModImpl_ok a h
  have hdiv : quotient = ofIntrinsic (toIntrinsic a / toIntrinsic b) := by
    apply eq_ofIntrinsic
    rw [hquotient, BitVec.toNat_udiv, toNat_toIntrinsic, toNat_toIntrinsic]
  have hmod : remainder = ofIntrinsic (toIntrinsic a % toIntrinsic b) := by
    apply eq_ofIntrinsic
    rw [hremainder, BitVec.toNat_umod, toNat_toIntrinsic, toNat_toIntrinsic]
  rw [div, mod, hrun, ← hdiv, ← hmod]
  exact ⟨rfl, rfl⟩

/-- On every pair of operands the code without an intrinsic does what the compiler's
type does. -/
theorem operators_agree (a b : Uint128) :
    a.add b = ofIntrinsic (toIntrinsic a + toIntrinsic b) ∧
      a.sub b = ofIntrinsic (toIntrinsic a - toIntrinsic b) ∧
      a.neg = ofIntrinsic (-toIntrinsic a) ∧
      a.mul b = ofIntrinsic (toIntrinsic a * toIntrinsic b) ∧
      (a.or b = ofIntrinsic (toIntrinsic a ||| toIntrinsic b) ∧
        a.and b = ofIntrinsic (toIntrinsic a &&& toIntrinsic b) ∧
        a.xor b = ofIntrinsic (toIntrinsic a ^^^ toIntrinsic b) ∧
        a.complement = ofIntrinsic (~~~toIntrinsic a)) ∧
      (a.lt b = (toIntrinsic a).ult (toIntrinsic b) ∧
        a.le b = (toIntrinsic a).ule (toIntrinsic b) ∧ a.gt b = b.lt a ∧ a.ge b = b.le a) ∧
      (∀ amount < 128, a.shiftLeft amount = ofIntrinsic (toIntrinsic a <<< amount) ∧
        a.shiftRight amount = ofIntrinsic (toIntrinsic a >>> amount)) ∧
      (b ≠ .ofUInt64 0 → div a b = .ok (ofIntrinsic (toIntrinsic a / toIntrinsic b)) ∧
        mod a b = .ok (ofIntrinsic (toIntrinsic a % toIntrinsic b))) := by
  have ha := toNat_toIntrinsic a
  have hb := toNat_toIntrinsic b
  refine ⟨eq_ofIntrinsic ?_, eq_ofIntrinsic ?_, eq_ofIntrinsic ?_, eq_ofIntrinsic ?_,
    ⟨eq_ofIntrinsic ?_, eq_ofIntrinsic ?_, eq_ofIntrinsic ?_, eq_ofIntrinsic ?_⟩,
    ⟨?_, ?_, Uint128.gt_eq a b, Uint128.ge_eq a b⟩, ?_, divisions_agree a⟩
  · rw [Uint128.toNat_add, BitVec.toNat_add, ha, hb]
  · rw [Uint128.toNat_sub, BitVec.toNat_sub, ha, hb, Nat.add_comm]
  · rw [Uint128.toNat_neg, BitVec.toNat_neg, ha]
  · rw [Uint128.toNat_mul, BitVec.toNat_mul, ha, hb]
  · rw [Uint128.toNat_or, BitVec.toNat_or, ha, hb]
  · rw [Uint128.toNat_and, BitVec.toNat_and, ha, hb]
  · rw [Uint128.toNat_xor, BitVec.toNat_xor, ha, hb]
  · rw [Uint128.toNat_complement, BitVec.toNat_not, ha]
  · rw [Uint128.lt_eq, BitVec.ult, ha, hb]
  · rw [Uint128.le_eq, Uint128.lt_eq, BitVec.ule, ha, hb, ← decide_not]
    simp only [not_lt]
  · intro amount hamount
    have hleft := Uint128.toNat_shiftLeft a hamount
    have hright := Uint128.toNat_shiftRight a hamount
    refine ⟨eq_ofIntrinsic ?_, eq_ofIntrinsic ?_⟩
    · rw [hleft, BitVec.toNat_shiftLeft, ha, Nat.shiftLeft_eq]
    · rw [hright, BitVec.toNat_ushiftRight, ha, Nat.shiftRight_eq_div_pow]

theorem operators_agree_fiveWords : (⟨0, 3⟩ : Uint128) ≠ .ofUInt64 0 ∧
    div ⟨5, 7⟩ ⟨0, 3⟩ = .ok (ofIntrinsic (toIntrinsic ⟨5, 7⟩ / toIntrinsic ⟨0, 3⟩)) ∧
      mod ⟨5, 7⟩ ⟨0, 3⟩ = .ok (ofIntrinsic (toIntrinsic ⟨5, 7⟩ % toIntrinsic ⟨0, 3⟩)) := by
  have hne : (⟨0, 3⟩ : Uint128) ≠ .ofUInt64 0 := by decide
  obtain ⟨-, -, -, -, -, -, -, hdivision⟩ := operators_agree ⟨5, 7⟩ ⟨0, 3⟩
  exact ⟨hne, hdivision hne⟩

end Intrinsics

end PolkadotApi.WideIntegers
