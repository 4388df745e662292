import PolkadotApi.PositionalNumerals

set_option autoImplicit false

namespace PolkadotApi.DigitHalving
open PositionalNumerals

def halve (h : ℕ) : ℕ → List ℕ → List ℕ
  | _, [] => []
  | before, d :: ds => (h * (before % 2) + d / 2) :: halve h d ds

theorem halve_length (h before : ℕ) (ds : List ℕ) : (halve h before ds).length = ds.length := by
  induction ds generalizing before with
  | nil => rfl
  | cons d ds ih => rw [halve, List.length_cons, List.length_cons, ih]

theorem halve_lt {h : ℕ} (before : ℕ) {ds : List ℕ} (hds : ∀ d ∈ ds, d < 2 * h) :
    ∀ d ∈ halve h before ds, d < 2 * h := by
  induction ds generalizing before with
  | nil => simp [halve]
  | cons d ds ih =>
    have hd := hds d (by simp)
    have hbit : h * (before % 2) ≤ h * 1 := Nat.mul_le_mul_left h (by omega)
    intro e he
    rcases List.mem_cons.1 he with rfl | he
    · omega
    · exact ih d (fun x hx => hds x (by simp [hx])) e he

theorem valueBE_halve (h before : ℕ) (ds : List ℕ) : valueBE (2 * h) (halve h before ds) =
    (before % 2 * (2 * h) ^ ds.length + valueBE (2 * h) ds) / 2 := by
  induction ds generalizing before with
  | nil =>
    change 0 = (before % 2 * 1 + 0) / 2
    omega
  | cons d ds ih =>
    have hd : d = 2 * (d / 2) + d % 2 := (Nat.div_add_mod d 2).symm
    rw [halve, valueBE_cons, halve_length, ih, valueBE_cons, List.length_cons]
    generalize valueBE (2 * h) ds = v
    generalize hp : (2 * h) ^ ds.length = p
    have hsum : before % 2 * (2 * h) ^ (ds.length + 1) + (d * p + v) =
        2 * ((h * (before % 2) + d / 2) * p) + (d % 2 * p + v) := by
      conv_lhs => rw [hd]
      rw [pow_succ, hp]
      ring
    rw [hsum, Nat.mul_add_div (by norm_num)]

theorem valueBE_mod_two (h : ℕ) (ds : List ℕ) : valueBE (2 * h) ds % 2 = ds.getLastD 0 % 2 := by
  induction ds using List.reverseRecOn with
  | nil => rfl
  | append_singleton ds d _ =>
    have heven : valueBE (2 * h) ds * (2 * h) = 2 * (valueBE (2 * h) ds * h) := by ring
    rw [valueBE_concat, List.getLastD_concat, heven]
    omega

theorem valueBE_dropWhile (m : ℕ) (ds : List ℕ) :
    valueBE m (ds.dropWhile (· = 0)) = valueBE m ds := by
  induction ds with
  | nil => rfl
  | cons d ds ih =>
    by_cases hd : d = 0
    · rw [List.dropWhile_cons_of_pos (by simpa using hd), ih, hd, valueBE_cons, Nat.zero_mul,
        Nat.zero_add]
    · rw [List.dropWhile_cons_of_neg (by simpa using hd)]

theorem dropWhile_eq_nil {m : ℕ} (hm : 0 < m) {ds : List ℕ} (h : valueBE m ds = 0) :
    ds.dropWhile (· = 0) = [] := by
  induction ds with
  | nil => rfl
  | cons d ds ih =>
    have hpow : 0 < m ^ ds.length := Nat.pow_pos hm
    rw [valueBE_cons] at h
    have hd : d = 0 := by
      rcases Nat.mul_eq_zero.1 (by omega : d * m ^ ds.length = 0) with hd | hp
      · exact hd
      · omega
    rw [List.dropWhile_cons_of_pos (by simpa using hd)]
    exact ih (by omega)

/-- The `k`-th bit joins the word below it; past the width the mask is zero. -/
theorem collect_bit (w n k : ℕ) :
    (if n / 2 ^ k % 2 = 0 then n % 2 ^ k % 2 ^ w else n % 2 ^ k % 2 ^ w ||| 2 ^ k % 2 ^ w) =
      n % 2 ^ (k + 1) % 2 ^ w := by
  have hsucc : n % 2 ^ (k + 1) = n % 2 ^ k + 2 ^ k * (n / 2 ^ k % 2) := Nat.mod_pow_succ
  by_cases hbit : n / 2 ^ k % 2 = 0
  · rw [if_pos hbit, hsucc, hbit, Nat.mul_zero, Nat.add_zero]
  · have hone : n / 2 ^ k % 2 = 1 := by omega
    rw [if_neg hbit, hsucc, hone, Nat.mul_one]
    by_cases hk : k < w
    · have hlow : n % 2 ^ k < 2 ^ k := Nat.mod_lt _ (by positivity)
      have hpow : 2 ^ (k + 1) ≤ 2 ^ w := Nat.pow_le_pow_right (by norm_num) hk
      have hor := Nat.two_pow_add_eq_or_of_lt hlow 1
      rw [Nat.mul_one] at hor
      rw [pow_succ] at hpow
      rw [Nat.mod_eq_of_lt (by omega : n % 2 ^ k < 2 ^ w), Nat.mod_eq_of_lt (by omega : 2 ^ k < 2 ^ w),
        Nat.mod_eq_of_lt (by omega : n % 2 ^ k + 2 ^ k < 2 ^ w), Nat.lor_comm, ← hor,
        Nat.add_comm]
    · have hdvd : 2 ^ w ∣ 2 ^ k := pow_dvd_pow 2 (by omega)
      rw [Nat.mod_eq_zero_of_dvd hdvd, Nat.or_zero, Nat.add_mod, Nat.mod_eq_zero_of_dvd hdvd,
        Nat.add_zero, Nat.mod_mod]

end PolkadotApi.DigitHalving
