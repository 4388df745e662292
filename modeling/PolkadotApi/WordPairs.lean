import Mathlib.Data.Nat.Bitwise
import Mathlib.Data.Nat.Log
import Mathlib.Tactic.Ring

set_option autoImplicit false

namespace PolkadotApi.WordPairs

section Words

theorem pair_lt_iff {B hi lo hi' lo' : ℕ} (h : lo < B) (h' : lo' < B) :
    hi * B + lo < hi' * B + lo' ↔ if hi = hi' then lo < lo' else hi < hi' := by
  split_ifs with heq
  · subst heq
    omega
  · rcases lt_or_gt_of_ne heq with hlt | hgt
    · have hmul : (hi + 1) * B ≤ hi' * B := Nat.mul_le_mul_right B hlt
      rw [Nat.add_mul] at hmul
      omega
    · have hmul : (hi' + 1) * B ≤ hi * B := Nat.mul_le_mul_right B hgt
      rw [Nat.add_mul] at hmul
      omega

theorem pair_mod (B x : ℕ) : x / B % B * B + x % B = x % (B * B) := by
  rw [Nat.mod_mul, Nat.mul_comm, Nat.add_comm]

theorem bitwise_pair {f : Bool → Bool → Bool} (hf : f false false = false) {i lo lo' : ℕ}
    (h : lo < 2 ^ i) (h' : lo' < 2 ^ i) (hi hi' : ℕ) :
    Nat.bitwise f (hi * 2 ^ i + lo) (hi' * 2 ^ i + lo') =
      Nat.bitwise f hi hi' * 2 ^ i + Nat.bitwise f lo lo' := by
  apply Nat.eq_of_testBit_eq
  intro j
  have hlow := Nat.bitwise_lt_two_pow (f := f) h h'
  simp only [Nat.mul_comm _ (2 ^ i), Nat.testBit_bitwise hf, Nat.testBit_two_pow_mul_add _ h,
    Nat.testBit_two_pow_mul_add _ h', Nat.testBit_two_pow_mul_add _ hlow]
  split_ifs <;> rfl

end Words

section Shifts

variable {p q : ℕ}

theorem mul_add_mod_word {c : ℕ} (hq : 0 < q) (hc : c < p) (x : ℕ) :
    (x * p + c) % (p * q) = x % q * p + c := by
  have hdigit : x % q + 1 ≤ q := Nat.mod_lt x hq
  have hbound : (x % q + 1) * p ≤ q * p := Nat.mul_le_mul_right p hdigit
  have hwhole := Nat.div_add_mod x q
  have hsplit : x * p + c = x % q * p + c + x / q * (p * q) := by
    calc x * p + c = (q * (x / q) + x % q) * p + c := by rw [hwhole]
      _ = _ := by ring
  rw [hsplit, Nat.add_mul_mod_self_right]
  apply Nat.mod_eq_of_lt
  rw [Nat.add_mul, Nat.mul_comm q p] at hbound
  omega

theorem pair_mul (hp : 0 < p) (hq : 0 < q) {lo : ℕ} (hlo : lo < p * q) (hi : ℕ) :
    (hi * (p * q) + lo) * p % (p * q * (p * q)) =
      (hi % q * p + lo / q) * (p * q) + lo * p % (p * q) := by
  have hlow : (hi * (p * q) + lo) * p % (p * q) = lo * p % (p * q) := by
    rw [Nat.add_mul, Nat.mul_right_comm, Nat.add_comm, Nat.add_mul_mod_self_right]
  have hcarry : lo * p / (p * q) = lo / q := by
    rw [Nat.mul_comm p q, Nat.mul_div_mul_right _ _ hp]
  have hhigh : (hi * (p * q) + lo) * p / (p * q) = hi * p + lo / q := by
    rw [Nat.add_mul, Nat.mul_right_comm, Nat.add_comm,
      Nat.add_mul_div_right _ _ (Nat.mul_pos hp hq), hcarry, Nat.add_comm]
  have hdigit : lo / q < p := (Nat.div_lt_iff_lt_mul hq).2 hlo
  rw [← pair_mod, hlow, hhigh, mul_add_mod_word hq hdigit]

theorem pair_div (hp : 0 < p) (hi lo : ℕ) :
    (hi * (p * q) + lo) / p = hi / p * (p * q) + (lo / p + hi * q % (p * q)) := by
  have hsplit : hi * (p * q) + lo = lo + hi * q * p := by ring
  have hmove : hi * q % (p * q) = hi % p * q := Nat.mul_mod_mul_right q hi p
  rw [hsplit, Nat.add_mul_div_right _ _ hp, hmove]
  have hwhole := Nat.div_add_mod hi p
  calc lo / p + hi * q = lo / p + (p * (hi / p) + hi % p) * q := by rw [hwhole]
    _ = hi / p * (p * q) + (lo / p + hi % p * q) := by ring

end Shifts

section HighestBit

/-- One step of the binary search for the highest set bit. -/
def narrow (sh n pos : ℕ) : ℕ × ℕ := if 2 ^ sh ≤ n then (n / 2 ^ sh, pos ||| sh) else (n, pos)

/-- What a search has found so far and what is left to search through: less than
`width` bits, and their number is added to a multiple of `width`. -/
structure Narrowed (width found n pos : ℕ) : Prop where
  nonzero : n ≠ 0
  bounded : n < 2 ^ width
  aligned : width ∣ pos
  total : pos + n.log2 = found

theorem log2_div_two_pow {n k : ℕ} (h : 2 ^ k ≤ n) : n.log2 = k + (n / 2 ^ k).log2 := by
  have hk : k ≤ Nat.log 2 n := Nat.le_log_of_pow_le (by norm_num) h
  rw [Nat.log2_eq_log_two, Nat.log2_eq_log_two, Nat.log_div_base_pow]
  omega

theorem Narrowed.step {k found n pos : ℕ} (h : Narrowed (2 ^ (k + 1)) found n pos) :
    Narrowed (2 ^ k) found (narrow (2 ^ k) n pos).1 (narrow (2 ^ k) n pos).2 := by
  obtain ⟨a, ha⟩ := h.aligned
  have hhalf : 2 ^ k ∣ pos := Dvd.dvd.trans ⟨2, by rw [pow_succ]⟩ h.aligned
  have hor : pos ||| 2 ^ k = pos + 2 ^ k := by
    rw [ha, Nat.two_pow_add_eq_or_of_lt (Nat.pow_lt_pow_right (by norm_num) (Nat.lt_succ_self k))]
  have hbound := h.bounded
  have htotal := h.total
  rw [pow_succ, Nat.mul_two, pow_add] at hbound
  rw [narrow]
  split_ifs with hlarge
  · have hlog := log2_div_two_pow hlarge
    have hpos : 0 < n / 2 ^ 2 ^ k := Nat.div_pos hlarge (Nat.two_pow_pos _)
    refine ⟨hpos.ne', Nat.div_lt_of_lt_mul hbound, ?_, ?_⟩
    · rw [hor]
      exact Nat.dvd_add hhalf (Nat.dvd_refl _)
    · change (pos ||| 2 ^ k) + (n / 2 ^ 2 ^ k).log2 = found
      rw [hor]
      omega
  · exact ⟨h.nonzero, not_le.1 hlarge, hhalf, htotal⟩

end HighestBit

section Division

/-- Rounds that double the quotient, subtract where the denominator fits, and halve the
denominator. -/
def restore : ℕ → ℕ → ℕ → ℕ → ℕ × ℕ
  | 0, dividend, _, quotient => (quotient, dividend)
  | rounds + 1, dividend, denominator, quotient =>
    if denominator ≤ dividend then
      restore rounds (dividend - denominator) (denominator / 2) (quotient * 2 + 1)
    else restore rounds dividend (denominator / 2) (quotient * 2)

theorem restore_eq {divisor : ℕ} (rounds : ℕ) : ∀ {dividend denominator : ℕ} (quotient : ℕ),
    dividend < divisor * 2 ^ rounds → denominator = divisor * 2 ^ rounds / 2 →
      restore rounds dividend denominator quotient =
        (quotient * 2 ^ rounds + dividend / divisor, dividend % divisor) := by
  induction rounds with
  | zero =>
    intro dividend denominator quotient hlt _
    rw [pow_zero, Nat.mul_one] at hlt
    rw [restore, Nat.div_eq_of_lt hlt, Nat.mod_eq_of_lt hlt, pow_zero, Nat.mul_one, Nat.add_zero]
  | succ rounds ih =>
    intro dividend denominator quotient hlt hden
    have hden' : denominator = divisor * 2 ^ rounds := by
      rw [hden, pow_succ, ← Nat.mul_assoc, Nat.mul_div_cancel _ (by norm_num)]
    rw [pow_succ, ← Nat.mul_assoc, ← hden'] at hlt
    have hhalf : denominator / 2 = divisor * 2 ^ rounds / 2 := by rw [hden']
    rw [restore]
    split_ifs with hfits
    · have hrest : dividend = dividend - denominator + divisor * 2 ^ rounds := by omega
      have hpos : 0 < divisor := by
        rcases Nat.eq_zero_or_pos divisor with rfl | hpos
        · omega
        · exact hpos
      rw [ih _ (by omega) hhalf]
      nth_rewrite 3 [hrest]
      nth_rewrite 4 [hrest]
      rw [Nat.mul_comm divisor, Nat.add_mul_div_right _ _ hpos, Nat.add_mul_mod_self_right]
      congr 1
      ring
    · rw [ih _ (by omega) hhalf]
      congr 1
      ring

end Division

end PolkadotApi.WordPairs
