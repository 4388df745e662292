import PolkadotApi.Converters
import PolkadotApi.DigitHalving

set_option autoImplicit false

namespace PolkadotApi.DecimalTexts
open MachineModel Converters PositionalNumerals DigitHalving

section Rounds

theorem shiftDigits_fixed (before : ℕ) {ds : List ℕ} (h : ∀ d ∈ ds, d < 10) :
    (shiftDigits before ds).map (fun d => if 7 < d then d - 3 else d) = halve 5 before ds := by
  induction ds generalizing before with
  | nil => rfl
  | cons d ds ih =>
    have hd := h d (by simp)
    have hcell : (if 7 < (if before &&& 1 = 0 then d >>> 1 else (d >>> 1) ||| 8)
        then (if before &&& 1 = 0 then d >>> 1 else (d >>> 1) ||| 8) - 3
        else (if before &&& 1 = 0 then d >>> 1 else (d >>> 1) ||| 8)) =
        5 * (before % 2) + d / 2 := by
      have hor : (d / 2) ||| 8 = d / 2 + 8 := by
        interval_cases d <;> rfl
      rw [Nat.and_one_is_mod, Nat.shiftRight_one, hor]
      split_ifs <;> omega
    rw [shiftDigits, List.map_cons, hcell, halve, ih d (fun x hx => h x (by simp [hx]))]

/-- The correction keeps zeros apart from the other digits, so they can be dropped after it. -/
theorem halveDigits_eq {ds : List ℕ} (h : ∀ d ∈ ds, d < 10) :
    halveDigits ds = (halve 5 0 ds).dropWhile (· = 0) := by
  have hzero : (fun d : ℕ => decide (d = 0)) ∘ (fun d => if 7 < d then d - 3 else d) =
      fun d => decide (d = 0) := by
    funext d
    simp only [Function.comp_apply, decide_eq_decide]
    split_ifs <;> omega
  rw [← shiftDigits_fixed 0 h, List.dropWhile_map, hzero]
  rfl

theorem halveDigits_lt {ds : List ℕ} (h : ∀ d ∈ ds, d < 10) : ∀ d ∈ halveDigits ds, d < 10 := by
  intro d hd
  rw [halveDigits_eq h] at hd
  exact halve_lt (h := 5) 0 h d (List.dropWhile_subset _ hd)

theorem valueBE_halveDigits {ds : List ℕ} (h : ∀ d ∈ ds, d < 10) :
    valueBE 10 (halveDigits ds) = valueBE 10 ds / 2 := by
  have hvalue := valueBE_halve 5 0 ds
  rw [Nat.zero_mod, Nat.zero_mul, Nat.zero_add] at hvalue
  rw [halveDigits_eq h, valueBE_dropWhile]
  exact hvalue

theorem halveDigits_eq_nil {ds : List ℕ} (h : ∀ d ∈ ds, d < 10)
    (hz : valueBE 10 (halveDigits ds) = 0) : halveDigits ds = [] := by
  rw [halveDigits_eq h] at hz ⊢
  rw [valueBE_dropWhile] at hz
  exact dropWhile_eq_nil (by norm_num) hz

theorem collectBits_round (n rounds k d : ℕ) (scratch : List ℕ)
    (hvalue : valueBE 10 (d :: scratch) = n / 2 ^ k) :
    collectBits (rounds + 1) (d :: scratch) (n % 2 ^ k % 2 ^ 128) (2 ^ k % 2 ^ 128) =
      collectBits rounds (halveDigits (d :: scratch)) (n % 2 ^ (k + 1) % 2 ^ 128)
        (2 ^ (k + 1) % 2 ^ 128) := by
  have hbit : (d :: scratch).getLastD 0 &&& 1 = n / 2 ^ k % 2 := by
    rw [Nat.and_one_is_mod, ← valueBE_mod_two 5, hvalue]
  have hmask : (2 ^ k % 2 ^ 128) <<< 1 % 2 ^ 128 = 2 ^ (k + 1) % 2 ^ 128 := by
    rw [Nat.shiftLeft_eq, pow_one, Nat.mod_mul_mod, pow_succ 2 k]
  simp only [collectBits, hbit, collect_bit, hmask]

theorem mod_of_div_eq_zero {n m : ℕ} (hm : 0 < m) (h : n / m = 0) : n % m = n :=
  Nat.mod_eq_of_lt ((Nat.div_eq_zero_iff.1 h).resolve_left (by omega))

/-- After `k` rounds the digits stand for `n / 2 ^ k`, and the low `k` bits of `n` are
collected; digits that stand for zero are gone, so the loop ends with the value. -/
theorem collectBits_eq (n rounds k : ℕ) {scratch : List ℕ} (hdigits : ∀ d ∈ scratch, d < 10)
    (hvalue : valueBE 10 scratch = n / 2 ^ k) (hrounds : n / 2 ^ k < 2 ^ rounds)
    (hnormal : n / 2 ^ k = 0 → scratch = []) :
    collectBits rounds scratch (n % 2 ^ k % 2 ^ 128) (2 ^ k % 2 ^ 128) = some (n % 2 ^ 128) := by
  induction rounds generalizing k scratch with
  | zero =>
    have hz : n / 2 ^ k = 0 := by omega
    rw [hnormal hz, collectBits, mod_of_div_eq_zero (by positivity) hz]
  | succ rounds ih =>
    cases scratch with
    | nil => rw [collectBits, mod_of_div_eq_zero (by positivity) hvalue.symm]
    | cons d scratch =>
      have hhalf : n / 2 ^ k / 2 = n / 2 ^ (k + 1) := by rw [Nat.div_div_eq_div_mul, pow_succ]
      have hnext := valueBE_halveDigits hdigits
      rw [hvalue, hhalf] at hnext
      rw [collectBits_round n rounds k d scratch hvalue]
      apply ih (k + 1) (halveDigits_lt hdigits) hnext
      · omega
      · intro hz
        exact halveDigits_eq_nil hdigits (hnext.trans hz)

end Rounds

section Texts

def digitValues (digits : Str) : List ℕ := digits.map (fun c => c.toNat - 48)

def decimalValue (digits : Str) : ℕ := valueBE 10 (digitValues digits)

def hasMinus (s : Str) : Bool := (s.dropWhile isBlank).head? = some 45

def digitRun (s : Str) : Str :=
  (if hasMinus s then (s.dropWhile isBlank).tail else s.dropWhile isBlank).takeWhile isDigit

def signedValue (minus : Bool) (digits : Str) : ℤ :=
  if minus then -(decimalValue digits : ℤ) else decimalValue digits

theorem digitValues_lt {digits : Str} (h : ∀ c ∈ digits, isDigit c) :
    ∀ d ∈ digitValues digits, d < 10 := by
  intro d hd
  obtain ⟨c, hc, rfl⟩ := List.mem_map.1 hd
  have hdigit := h c hc
  simp only [isDigit, Bool.and_eq_true, decide_eq_true_eq, UInt8.le_iff_toNat_le] at hdigit
  have hupper : c.toNat ≤ 57 := hdigit.2
  omega

/-- Every decimal digit takes at most four rounds. Leading zeros stay until the
first one, which therefore stands apart from the loop's invariant. -/
theorem collectBits_digits {digits : Str} (h : ∀ c ∈ digits, isDigit c) :
    collectBits (4 * digits.length + 1) (digitValues digits) 0 1 =
      some (decimalValue digits % 2 ^ 128) := by
  have hlt := digitValues_lt h
  have hbound := valueBE_lt (by norm_num : 1 < 10) hlt
  have hlength : (digitValues digits).length = digits.length := List.length_map _
  have hpow : 10 ^ digits.length ≤ 2 ^ (4 * digits.length) := by
    rw [pow_mul]
    exact Nat.pow_le_pow_left (by norm_num) _
  rw [hlength] at hbound
  have hnext := valueBE_halveDigits hlt
  rw [decimalValue]
  generalize digitValues digits = scratch at *
  cases scratch with
  | nil => rfl
  | cons d scratch =>
    have hfirst := collectBits_round (valueBE 10 (d :: scratch)) (4 * digits.length) 0 d scratch
      (by rw [pow_zero, Nat.div_one])
    rw [pow_zero, Nat.mod_one] at hfirst
    refine hfirst.trans (collectBits_eq _ _ 1 (halveDigits_lt hlt) hnext ?_ ?_)
    · rw [pow_one]
      omega
    · intro hz
      exact halveDigits_eq_nil hlt (hnext.trans hz)

theorem asUInt128_cast (z : ℤ) : (asUInt128 z : ℤ) = z % 2 ^ 128 :=
  Int.toNat_of_nonneg (Int.emod_nonneg z (by norm_num))

theorem asUInt128_mul (n : ℕ) (z : ℤ) :
    n % 2 ^ 128 * asUInt128 z % 2 ^ 128 = asUInt128 (n * z) := by
  apply Int.natCast_inj.1
  simp only [Int.natCast_mod, Int.natCast_mul, Nat.cast_pow, Nat.cast_ofNat, asUInt128_cast]
  exact (Int.mul_emod _ _ _).symm

theorem atoi128_eq (s : Str) : atoi128 s = if (digitRun s).length ≤ 255 then
      .ok (asUInt128 (signedValue (hasMinus s) (digitRun s)))
    else .error .undefined := by
  have hdigits : ∀ c ∈ digitRun s, isDigit c := fun c hc => List.mem_takeWhile_imp hc
  have hloop := collectBits_digits hdigits
  have hrun : (if (s.dropWhile isBlank).head? = some 45 then (s.dropWhile isBlank).tail
      else s.dropWhile isBlank).takeWhile isDigit = digitRun s := by
    simp only [digitRun, hasMinus, decide_eq_true_eq]
  have hsign : (if (s.dropWhile isBlank).head? = some 45 then (-1 : ℤ) else 1) =
      if hasMinus s then -1 else 1 := by
    simp only [hasMinus, decide_eq_true_eq]
  rw [digitValues] at hloop
  simp only [atoi128, hrun, hsign, hloop, asUInt128_mul, signedValue]
  congr 3
  split_ifs <;> ring

end Texts

theorem dropWhile_run {p : UInt8 → Bool} {run rest : Str} (hrun : ∀ c ∈ run, p c)
    (hnext : ∀ c ∈ rest.head?, p c = false) : (run ++ rest).dropWhile p = rest := by
  rw [List.dropWhile_append_of_pos hrun]
  cases rest with
  | nil => rfl
  | cons c rest => exact List.dropWhile_cons_of_neg (by simp [hnext c (by simp)])

theorem takeWhile_run {p : UInt8 → Bool} {run rest : Str} (hrun : ∀ c ∈ run, p c)
    (hnext : ∀ c ∈ rest.head?, p c = false) : (run ++ rest).takeWhile p = run := by
  rw [List.takeWhile_append_of_pos hrun]
  cases rest with
  | nil => simp
  | cons c rest => rw [List.takeWhile_cons_of_neg (by simp [hnext c (by simp)]), List.append_nil]

/-- The parts of a text: the longest run of blanks and plus signs, a minus sign if one
is next, and the longest run of digits after it. -/
structure Parts where
  blanks : Str
  minus : Bool
  digits : Str
  rest : Str

namespace Parts

def number (p : Parts) : Str := p.digits ++ p.rest

def signed (p : Parts) : Str := (if p.minus then [45] else []) ++ p.number

def text (p : Parts) : Str := p.blanks ++ p.signed

structure Maximal (p : Parts) : Prop where
  blanks : ∀ c ∈ p.blanks, isBlank c
  blanks_end : ∀ c ∈ p.signed.head?, isBlank c = false
  no_minus : p.minus = false → p.number.head? ≠ some 45
  digits : ∀ c ∈ p.digits, isDigit c
  digits_end : ∀ c ∈ p.rest.head?, isDigit c = false

variable {p : Parts}

theorem Maximal.hasMinus_eq (h : p.Maximal) : hasMinus p.text = p.minus := by
  rw [hasMinus, text, dropWhile_run h.blanks h.blanks_end, signed]
  cases hminus : p.minus with
  | true => simp
  | false => simpa [hminus] using h.no_minus hminus

theorem Maximal.digitRun_eq (h : p.Maximal) : digitRun p.text = p.digits := by
  have hnumber : p.number.takeWhile isDigit = p.digits := takeWhile_run h.digits h.digits_end
  rw [digitRun, h.hasMinus_eq, text, dropWhile_run h.blanks h.blanks_end, signed]
  cases p.minus with
  | true => exact hnumber
  | false => exact hnumber

end Parts

theorem atoi128_parts (p : Parts) (h : p.Maximal) (hcount : p.digits.length ≤ 255) :
    atoi128 p.text = .ok (asUInt128 (signedValue p.minus p.digits)) := by
  rw [atoi128_eq, h.digitRun_eq, h.hasMinus_eq, if_pos hcount]

/-- The text ` +-012x`. -/
theorem atoi128_parts_negative :
    atoi128 [32, 43, 45, 48, 49, 50, 120] = .ok (asUInt128 (-12)) :=
  atoi128_parts ⟨[32, 43], true, [48, 49, 50], [120]⟩
    ⟨by simp [isBlank], by simp [Parts.signed, isBlank], by simp, by simp [isDigit], by simp [isDigit]⟩
    (by decide)

end PolkadotApi.DecimalTexts
