import Mathlib

set_option autoImplicit false

/-!
Numerals are little-endian digit lists. `mulAddDigits` is the schoolbook loop
that multiplies a numeral in base `b` by `m` and adds a carry, in unsigned
arithmetic modulo `word`; when nothing wraps it computes the numeral of the
new value. The last section is reversal of an array by swaps.
-/
namespace PolkadotApi.PositionalNumerals

def carryPass (word m b : ℕ) : ℕ → List ℕ → List ℕ × ℕ
  | carry, [] => ([], carry)
  | carry, d :: ds =>
    let c := (carry + d * m) % word
    let r := carryPass word m b (c / b) ds
    (c % b :: r.1, r.2)

def pushCarry (b : ℕ) : ℕ → ℕ → List ℕ
  | 0, _ => []
  | rounds + 1, carry => if carry = 0 then [] else carry % b :: pushCarry b rounds (carry / b)

def mulAddDigits (word m b carry : ℕ) (ds : List ℕ) : List ℕ :=
  let r := carryPass word m b carry ds
  r.1 ++ pushCarry b r.2 r.2

def numeral (b n : ℕ) : List ℕ := if n = 0 then [0] else Nat.digits b n

def valueBE (m : ℕ) (cs : List ℕ) : ℕ := cs.foldl (fun n c => n * m + c) 0

section Numerals

variable {b : ℕ}

theorem numeral_lt (hb : 1 < b) (n : ℕ) : ∀ d ∈ numeral b n, d < b := by
  intro d hd
  unfold numeral at hd
  split_ifs at hd
  · rw [List.mem_singleton] at hd
    omega
  · exact Nat.digits_lt_base hb hd

theorem ofDigits_numeral (b n : ℕ) : Nat.ofDigits b (numeral b n) = n := by
  unfold numeral
  split_ifs with h
  · simp [h]
  · exact Nat.ofDigits_digits b n

theorem numeral_length_pos (hb : 1 < b) (n : ℕ) : 0 < (numeral b n).length := by
  unfold numeral
  split_ifs with h
  · simp
  · have := (Nat.lt_digits_length_iff hb n (k := 0)).2 (by rw [Nat.pow_zero]; omega)
    omega

theorem numeral_cons (hb : 1 < b) {d : ℕ} (hd : d < b) (q : ℕ) :
    numeral b (d + b * q) = d :: Nat.digits b q := by
  by_cases hz : d + b * q = 0
  · have hdz : d = 0 := by omega
    have hq : q = 0 := by
      have : b * q = 0 := by omega
      rcases Nat.mul_eq_zero.1 this with h | h <;> omega
    subst d q
    simp [numeral]
  · rw [numeral, if_neg hz, Nat.digits_def' hb (by omega), Nat.add_mul_mod_self_left,
      Nat.mod_eq_of_lt hd, Nat.add_mul_div_left _ _ (by omega), Nat.div_eq_of_lt hd, Nat.zero_add]

theorem numeral_headD (hb : 1 < b) (n : ℕ) : (numeral b n).headD 0 = n % b := by
  have hsplit := numeral_cons hb (Nat.mod_lt n (by omega)) (n / b)
  rw [Nat.mod_add_div] at hsplit
  rw [hsplit, List.headD_cons]

theorem pow_numeral_length_le (hb : 1 < b) {n : ℕ} (h : n ≠ 0) :
    b ^ ((numeral b n).length - 1) ≤ n := by
  rw [numeral, if_neg h, ← Nat.lt_digits_length_iff hb]
  have := numeral_length_pos hb n
  rw [numeral, if_neg h] at this
  omega

theorem valueBE_concat (m : ℕ) (cs : List ℕ) (c : ℕ) :
    valueBE m (cs ++ [c]) = valueBE m cs * m + c := by
  simp [valueBE]

theorem valueBE_eq_ofDigits (m : ℕ) (cs : List ℕ) :
    valueBE m cs = Nat.ofDigits m cs.reverse := by
  induction cs using List.reverseRecOn with
  | nil => rfl
  | append_singleton cs c ih =>
    rw [valueBE_concat, ih, List.reverse_append, List.reverse_singleton, List.singleton_append,
      Nat.ofDigits_cons]
    ring

theorem getLast_ne_zero_of_le (hb : 1 < b) {ds : List ℕ} (hne : ds ≠ []) (hd : ∀ d ∈ ds, d < b)
    (hv : b ^ (ds.length - 1) ≤ Nat.ofDigits b ds) : ds.getLast hne ≠ 0 := by
  intro hz
  have hsplit := List.dropLast_append_getLast hne
  rw [hz] at hsplit
  have hval : Nat.ofDigits b ds = Nat.ofDigits b ds.dropLast := by
    conv_lhs => rw [← hsplit, Nat.ofDigits_append]
    simp
  have hlt := Nat.ofDigits_lt_base_pow_length hb
    (fun d hm => hd d (List.mem_of_mem_dropLast hm) : ∀ d ∈ ds.dropLast, d < b)
  rw [List.length_dropLast] at hlt
  omega

theorem eq_numeral (hb : 1 < b) {ds : List ℕ} (hne : ds ≠ []) (hd : ∀ d ∈ ds, d < b)
    (hpos : Nat.ofDigits b ds ≠ 0) (hv : b ^ (ds.length - 1) ≤ Nat.ofDigits b ds) :
    ds = numeral b (Nat.ofDigits b ds) := by
  rw [numeral, if_neg hpos]
  exact (Nat.digits_ofDigits b hb ds hd (fun _ => getLast_ne_zero_of_le hb hne hd hv)).symm

theorem valueBE_cons (m c : ℕ) (cs : List ℕ) :
    valueBE m (c :: cs) = c * m ^ cs.length + valueBE m cs := by
  rw [valueBE_eq_ofDigits, valueBE_eq_ofDigits, List.reverse_cons, Nat.ofDigits_append,
    Nat.ofDigits_singleton, List.length_reverse]
  ring

theorem valueBE_lt {m : ℕ} (hm : 1 < m) {cs : List ℕ} (h : ∀ c ∈ cs, c < m) :
    valueBE m cs < m ^ cs.length := by
  rw [valueBE_eq_ofDigits, ← List.length_reverse]
  exact Nat.ofDigits_lt_base_pow_length hm (by simpa using h)

theorem numeral_valueBE {b c : ℕ} (hb : 1 < b) {cs : List ℕ} (h : ∀ d ∈ c :: cs, d < b)
    (hc : c ≠ 0) : numeral b (valueBE b (c :: cs)) = (c :: cs).reverse := by
  have hv : b ^ cs.length ≤ valueBE b (c :: cs) := by
    rw [valueBE_cons]
    have : 1 * b ^ cs.length ≤ c * b ^ cs.length := Nat.mul_le_mul_right _ (by omega)
    omega
  have hpos : 0 < b ^ cs.length := Nat.pow_pos (by omega)
  rw [valueBE_eq_ofDigits] at hv ⊢
  symm
  apply eq_numeral hb (by simp) (fun d hd => h d (List.mem_reverse.1 hd)) (by omega)
  simpa using hv

theorem takeWhile_zero_numeral {b n : ℕ} (hn : n ≠ 0) :
    (numeral b n).reverse.takeWhile (· = 0) = [] := by
  have hne : Nat.digits b n ≠ [] := Nat.digits_ne_nil_iff_ne_zero.2 hn
  have hlast := Nat.getLast_digit_ne_zero b hn
  rw [numeral, if_neg hn]
  rw [← List.dropLast_append_getLast hne, List.reverse_append, List.reverse_singleton,
    List.singleton_append, List.takeWhile_cons]
  simp [hlast]

theorem numeral_length {b n k : ℕ} (hb : 1 < b) (h : b ^ k ≤ n) (h' : n < b ^ (k + 1)) :
    (numeral b n).length = k + 1 := by
  have hn : n ≠ 0 := by
    have : 0 < b ^ k := Nat.pow_pos (by omega)
    omega
  rw [numeral, if_neg hn]
  have h₁ := (Nat.lt_digits_length_iff hb n).2 h
  have h₂ := (Nat.digits_length_le_iff hb n).2 h'
  omega

end Numerals

section Rebase

/-- The digits in base `b'` of the value that `ds` has in base `b`, most significant
first, behind one zero for each leading zero of `ds`. -/
def rebase (b b' : ℕ) (ds : List ℕ) : List ℕ :=
  List.replicate (ds.takeWhile (· = 0)).length 0 ++ (numeral b' (valueBE b ds)).reverse

theorem valueBE_zeros (m k : ℕ) (cs : List ℕ) :
    valueBE m (List.replicate k 0 ++ cs) = valueBE m cs := by
  induction k with
  | zero => rfl
  | succ k ih => rw [List.replicate_succ, List.cons_append, valueBE_cons, Nat.zero_mul, Nat.zero_add, ih]

theorem takeWhile_zeros (k : ℕ) {cs : List ℕ} (h : cs.takeWhile (· = 0) = []) :
    (List.replicate k 0 ++ cs).takeWhile (· = 0) = List.replicate k 0 := by
  induction k with
  | zero => exact h
  | succ k ih => rw [List.replicate_succ, List.cons_append, List.takeWhile_cons_of_pos (by simp), ih]

theorem exists_leading {ds : List ℕ} (h : ∃ d ∈ ds, d ≠ 0) :
    ∃ k c cs, ds = List.replicate k 0 ++ c :: cs ∧ c ≠ 0 := by
  induction ds with
  | nil => simp at h
  | cons d ds ih =>
    by_cases hd : d = 0
    · subst d
      obtain ⟨k, c, cs, rfl, hc⟩ := ih (by simpa using h)
      exact ⟨k + 1, c, cs, rfl, hc⟩
    · exact ⟨0, d, ds, rfl, hd⟩

theorem rebase_leading (b b' k : ℕ) {cs : List ℕ} (h : cs.takeWhile (· = 0) = []) :
    rebase b b' (List.replicate k 0 ++ cs) =
      List.replicate k 0 ++ (numeral b' (valueBE b cs)).reverse := by
  rw [rebase, takeWhile_zeros k h, valueBE_zeros, List.length_replicate]

theorem rebase_zeros (b b' : ℕ) {ds : List ℕ} (h : ∀ d ∈ ds, d = 0) :
    rebase b b' ds = List.replicate (ds.length + 1) 0 := by
  obtain ⟨k, rfl⟩ : ∃ k, ds = List.replicate k 0 := ⟨ds.length, List.eq_replicate_of_mem h⟩
  rw [← List.append_nil (List.replicate k 0), rebase_leading b b' k rfl, List.append_nil,
    List.length_replicate, List.replicate_succ']
  simp [valueBE, numeral]

theorem rebase_rebase {b : ℕ} (b' : ℕ) (hb : 1 < b) {ds : List ℕ} (h : ∀ d ∈ ds, d < b)
    (hz : ∃ d ∈ ds, d ≠ 0) : rebase b' b (rebase b b' ds) = ds := by
  obtain ⟨k, c, cs, rfl, hc⟩ := exists_leading hz
  have hdigits : ∀ d ∈ c :: cs, d < b := fun d hd => h d (by simp only [List.mem_append, hd, or_true])
  have hnumeral := numeral_valueBE hb hdigits hc
  have hvalue : valueBE b (c :: cs) ≠ 0 := by
    intro hv
    have hpow : 0 < b ^ cs.length := Nat.pow_pos (by omega)
    have hpos : 0 < c * b ^ cs.length := Nat.mul_pos (by omega) hpow
    rw [valueBE_cons] at hv
    omega
  rw [rebase_leading b b' k (by simp [hc]), rebase_leading b' b k (takeWhile_zero_numeral hvalue),
    valueBE_eq_ofDigits b', List.reverse_reverse, ofDigits_numeral, hnumeral, List.reverse_reverse]

end Rebase

section CarryLoop

variable {word m b : ℕ}

theorem pushCarry_eq_digits (hb : 1 < b) (rounds carry : ℕ) (h : carry ≤ rounds) :
    pushCarry b rounds carry = Nat.digits b carry := by
  induction rounds generalizing carry with
  | zero =>
    have : carry = 0 := by omega
    subst carry
    simp [pushCarry]
  | succ rounds ih =>
    by_cases hz : carry = 0
    · subst carry
      simp [pushCarry]
    · have hdiv : carry / b < carry := Nat.div_lt_self (by omega) hb
      rw [pushCarry, if_neg hz, Nat.digits_def' hb (by omega), ih _ (by omega)]

theorem carryPass_length (word m b carry : ℕ) (ds : List ℕ) :
    (carryPass word m b carry ds).1.length = ds.length := by
  induction ds generalizing carry with
  | nil => rfl
  | cons d ds ih => rw [carryPass, List.length_cons, List.length_cons, ih]

theorem length_le_mulAddDigits (word m b carry : ℕ) (ds : List ℕ) :
    ds.length ≤ (mulAddDigits word m b carry ds).length := by
  rw [mulAddDigits, List.length_append, carryPass_length]
  exact Nat.le_add_right _ _

theorem carryPass_lt (hb : 0 < b) (carry : ℕ) (ds : List ℕ) :
    ∀ d ∈ (carryPass word m b carry ds).1, d < b := by
  induction ds generalizing carry with
  | nil => simp [carryPass]
  | cons d ds ih =>
    intro x hx
    rcases List.mem_cons.1 hx with rfl | hx
    · exact Nat.mod_lt _ hb
    · exact ih _ x hx

section Bounded

variable {t : ℕ}

/-- Once the first word is below `t * b` the carries stay below `t`, and so no later
word reaches `t * b`. -/
theorem carryPass_value (hmt : m ≤ t) (hw : t * b ≤ word) (ds : List ℕ) (carry : ℕ)
    (hc : carry + ds.headD 0 * m < t * b) (hd : ∀ d ∈ ds, d < b) :
    Nat.ofDigits b (carryPass word m b carry ds).1 +
      b ^ ds.length * (carryPass word m b carry ds).2 = carry + m * Nat.ofDigits b ds := by
  induction ds generalizing carry with
  | nil => simp [carryPass]
  | cons d ds ih =>
    have hb : 0 < b := Nat.zero_lt_of_lt (hd d (by simp))
    have hsum : carry + d * m < t * b := hc
    have hmod : (carry + d * m) % word = carry + d * m := Nat.mod_eq_of_lt (by omega)
    have hquot : (carry + d * m) / b < t := by
      rw [Nat.div_lt_iff_lt_mul hb]
      exact hsum
    have hds : ∀ x ∈ ds, x < b := fun x hx => hd x (by simp [hx])
    have hhead : ds.headD 0 < b := by
      cases ds with
      | nil => exact hb
      | cons e ds => exact hds e (by simp)
    have hnext : (carry + d * m) / b + ds.headD 0 * m < t * b := by
      calc
        (carry + d * m) / b + ds.headD 0 * m < t + ds.headD 0 * m := by omega
        _ ≤ t + ds.headD 0 * t := Nat.add_le_add_left (Nat.mul_le_mul_left _ hmt) _
        _ = t * (ds.headD 0 + 1) := by ring
        _ ≤ t * b := Nat.mul_le_mul_left t hhead
    have hrest := ih ((carry + d * m) / b) hnext hds
    have hdm := Nat.mod_add_div (carry + d * m) b
    simp only [carryPass, hmod]
    rw [Nat.ofDigits_cons, Nat.ofDigits_cons, List.length_cons, pow_succ]
    calc
      _ = (carry + d * m) % b + b * (Nat.ofDigits b (carryPass word m b ((carry + d * m) / b) ds).1 +
            b ^ ds.length * (carryPass word m b ((carry + d * m) / b) ds).2) := by ring
      _ = (carry + d * m) % b + b * ((carry + d * m) / b) + b * (m * Nat.ofDigits b ds) := by
        rw [hrest]
        ring
      _ = _ := by
        rw [hdm]
        ring

theorem mulAddDigits_lt (hb : 1 < b) (carry : ℕ) (ds : List ℕ) :
    ∀ d ∈ mulAddDigits word m b carry ds, d < b := by
  intro d hmem
  rw [mulAddDigits, pushCarry_eq_digits hb _ _ le_rfl] at hmem
  rcases List.mem_append.1 hmem with h | h
  · exact carryPass_lt (by omega) carry ds d h
  · exact Nat.digits_lt_base hb h

theorem mulAddDigits_value (hb : 1 < b) (hmt : m ≤ t) (hw : t * b ≤ word) (ds : List ℕ)
    (carry : ℕ) (hc : carry + ds.headD 0 * m < t * b) (hd : ∀ d ∈ ds, d < b) :
    Nat.ofDigits b (mulAddDigits word m b carry ds) = carry + m * Nat.ofDigits b ds := by
  rw [mulAddDigits, pushCarry_eq_digits hb _ _ le_rfl, Nat.ofDigits_append, Nat.ofDigits_digits,
    carryPass_length]
  exact carryPass_value hmt hw ds carry hc hd

/-- The result has as many digits as its value needs: either the pass keeps the
length of a numeral that only grew, or the pushed digits end in a nonzero one. -/
theorem pow_mulAddDigits_length_le (hb : 1 < b) (hm : 0 < m) (hmt : m ≤ t) (hw : t * b ≤ word)
    (n carry : ℕ) (hc : carry + n % b * m < t * b) (hz : n * m + carry ≠ 0) :
    b ^ ((mulAddDigits word m b carry (numeral b n)).length - 1) ≤ n * m + carry := by
  rw [← numeral_headD hb] at hc
  have hpass := carryPass_value hmt hw (numeral b n) carry hc (numeral_lt hb n)
  simp only [mulAddDigits, pushCarry_eq_digits hb _ _ le_rfl, List.length_append, carryPass_length]
  generalize (carryPass word m b carry (numeral b n)).1 = low at hpass
  generalize (carryPass word m b carry (numeral b n)).2 = top at hpass
  rw [ofDigits_numeral, Nat.mul_comm m n] at hpass
  by_cases hr : top = 0
  · rw [hr, Nat.digits_zero, List.length_nil, Nat.add_zero]
    by_cases hn : n = 0
    · subst n
      simp only [numeral, if_pos, List.length_singleton, Nat.sub_self, pow_zero]
      omega
    · have hle := pow_numeral_length_le hb hn
      have hgrow : n * 1 ≤ n * m := Nat.mul_le_mul_left n hm
      omega
  · have hdig := pow_numeral_length_le hb hr
    have hdpos := numeral_length_pos hb top
    rw [numeral, if_neg hr] at hdig hdpos
    have hlow := Nat.mul_le_mul_left (b ^ (numeral b n).length) hdig
    rw [← pow_add, ← Nat.add_sub_assoc (by omega)] at hlow
    omega

/-- The carry loop takes the numeral of `n` to the numeral of `n * m + carry`, for
any carry that leaves the first word below `t * b`. -/
theorem mulAddDigits_numeral_wide (hb : 1 < b) (hm : 0 < m) (hmt : m ≤ t) (hw : t * b ≤ word)
    (n carry : ℕ) (hc : carry + n % b * m < t * b) :
    mulAddDigits word m b carry (numeral b n) = numeral b (n * m + carry) := by
  have hlt : ∀ d ∈ mulAddDigits word m b carry (numeral b n), d < b := mulAddDigits_lt hb carry _
  have hval := mulAddDigits_value hb hmt hw (numeral b n) carry (by rwa [numeral_headD hb])
    (numeral_lt hb n)
  rw [ofDigits_numeral, Nat.add_comm, Nat.mul_comm] at hval
  by_cases hz : n * m + carry = 0
  · have hn : n = 0 := by
      have : n * m = 0 := by omega
      rcases Nat.mul_eq_zero.1 this with h | h <;> omega
    have hcarry : carry = 0 := by omega
    subst n carry
    simp [numeral, mulAddDigits, carryPass, pushCarry]
  · have hfull := pow_mulAddDigits_length_le hb hm hmt hw n carry hc hz
    have hne : mulAddDigits word m b carry (numeral b n) ≠ [] := by
      intro hnil
      rw [hnil, Nat.ofDigits_nil] at hval
      omega
    rw [eq_numeral hb hne hlt (by omega) (by rw [hval]; exact hfull), hval]

end Bounded

theorem mulAddDigits_numeral (hb : 1 < b) (hw : m * b ≤ word) (n carry : ℕ) (hc : carry < m) :
    mulAddDigits word m b carry (numeral b n) = numeral b (n * m + carry) := by
  have hword : carry + n % b * m < m * b := by
    calc
      carry + n % b * m < m + n % b * m := by omega
      _ = m * (n % b + 1) := by ring
      _ ≤ m * b := Nat.mul_le_mul_left m (Nat.mod_lt n (by omega))
  exact mulAddDigits_numeral_wide hb (by omega) le_rfl hw n carry hword

/-- A carry of `word - k` wraps at a nonzero low digit: it counts as `-k`, which a
borrow of one from that digit makes `m - k`. -/
theorem mulAddDigits_borrow (hb : 1 < b) (hw : m * b ≤ word) {carry k : ℕ}
    (hcarry : carry + m = word + k) (hk : k < m) {n : ℕ} (hn : n % b ≠ 0) :
    mulAddDigits word m b carry (numeral b n) = numeral b ((n - 1) * m + k) := by
  obtain ⟨d, hd⟩ := Nat.exists_eq_succ_of_ne_zero hn
  have hlow : n % b < b := Nat.mod_lt n (by omega)
  have hdb : d + 1 < b := by omega
  have hsplit : n = (d + 1) + b * (n / b) := by
    have := Nat.mod_add_div n b
    omega
  have hpred : n - 1 = d + b * (n / b) := by omega
  have hfirst : (carry + (d + 1) * m) % word = (k + d * m) % word := by
    have : carry + (d + 1) * m = word + (k + d * m) := by
      calc
        carry + (d + 1) * m = carry + m + d * m := by ring
        _ = word + (k + d * m) := by rw [hcarry, Nat.add_assoc]
    rw [this, Nat.add_mod_left]
  rw [← mulAddDigits_numeral hb hw (n - 1) k hk, hpred, numeral_cons hb (by omega)]
  conv_lhs => rw [hsplit, numeral_cons hb hdb]
  simp only [mulAddDigits, carryPass, hfirst]

theorem foldl_mulAddDigits_numeral (hb : 1 < b) (hw : m * b ≤ word) (cs : List ℕ)
    (hc : ∀ c ∈ cs, c < m) (n : ℕ) :
    cs.foldl (fun ds c => mulAddDigits word m b c ds) (numeral b n) =
      numeral b (cs.foldl (fun n c => n * m + c) n) := by
  induction cs generalizing n with
  | nil => rfl
  | cons c cs ih =>
    rw [List.foldl_cons, mulAddDigits_numeral hb hw n c (hc c (by simp)),
      ih (fun x hx => hc x (by simp [hx])), List.foldl_cons]

theorem foldl_mulAddDigits (hb : 1 < b) (hw : m * b ≤ word) (cs : List ℕ)
    (hc : ∀ c ∈ cs, c < m) :
    cs.foldl (fun ds c => mulAddDigits word m b c ds) [0] = numeral b (valueBE m cs) :=
  foldl_mulAddDigits_numeral hb hw cs hc 0

end CarryLoop

section Reversal

def swap (r : List ℕ) (i j : ℕ) : List ℕ := (r.set i (r.getD j 0)).set j (r.getD i 0)

/-- Swaps of index `i` with `n - i - 1` for `i` from `z + rounds - 1` down to `z`. -/
def swapDown (n z : ℕ) : ℕ → List ℕ → List ℕ
  | 0, r => r
  | rounds + 1, r => swapDown n z rounds (swap r (z + rounds) (n - (z + rounds) - 1))

theorem swap_length (r : List ℕ) (i j : ℕ) : (swap r i j).length = r.length := by simp [swap]

theorem swapDown_length (n z rounds : ℕ) (r : List ℕ) :
    (swapDown n z rounds r).length = r.length := by
  induction rounds generalizing r with
  | zero => rfl
  | succ rounds ih => rw [swapDown, ih, swap_length]

theorem swap_getD (r : List ℕ) {i j : ℕ} (hi : i < r.length) (hj : j < r.length) (p : ℕ) :
    (swap r i j).getD p 0 =
      if p = j then r.getD i 0 else if p = i then r.getD j 0 else r.getD p 0 := by
  simp only [swap, List.getD_eq_getElem?_getD, List.getElem?_set, List.length_set]
  by_cases h₁ : j = p
  · subst p
    simp [hj]
  · by_cases h₂ : i = p
    · subst p
      simp [h₁, hi, Ne.symm h₁]
    · simp [h₁, h₂, Ne.symm h₁, Ne.symm h₂]

theorem swapDown_getD (n z rounds : ℕ) (r : List ℕ) (hr : r.length = n) (hz : n ≤ 2 * z)
    (hk : z + rounds ≤ n) (p : ℕ) (hp : p < n) :
    (swapDown n z rounds r).getD p 0 =
      if (z ≤ p ∧ p < z + rounds) ∨ (z ≤ n - 1 - p ∧ n - 1 - p < z + rounds)
      then r.getD (n - 1 - p) 0 else r.getD p 0 := by
  induction rounds generalizing r with
  | zero =>
    rw [if_neg (by omega)]
    rfl
  | succ rounds ih =>
    have hi : z + rounds < r.length := by omega
    have hj : n - (z + rounds) - 1 < r.length := by omega
    rw [swapDown, ih (swap r _ _) (by rw [swap_length, hr]) (by omega), swap_getD r hi hj,
      swap_getD r hi hj]
    by_cases h₁ : p = z + rounds
    · subst p
      rw [if_neg (by omega), if_neg (by omega), if_pos rfl, if_pos (by omega)]
      congr 1
      omega
    · by_cases h₂ : p = n - (z + rounds) - 1
      · subst p
        rw [if_neg (by omega), if_pos rfl, if_pos (by omega)]
        congr 1
        omega
      · have hcond : ((z ≤ p ∧ p < z + (rounds + 1)) ∨
            (z ≤ n - 1 - p ∧ n - 1 - p < z + (rounds + 1))) ↔
            ((z ≤ p ∧ p < z + rounds) ∨ (z ≤ n - 1 - p ∧ n - 1 - p < z + rounds)) := by omega
        simp only [hcond]
        rw [if_neg (by omega : ¬ n - 1 - p = n - (z + rounds) - 1),
          if_neg (by omega : ¬ n - 1 - p = z + rounds), if_neg h₂, if_neg h₁]

theorem swapDown_reverse (r : List ℕ) :
    swapDown r.length (r.length / 2 + r.length % 2)
      (r.length - (r.length / 2 + r.length % 2)) r = r.reverse := by
  have hl := swapDown_length r.length (r.length / 2 + r.length % 2)
    (r.length - (r.length / 2 + r.length % 2)) r
  apply List.ext_getElem (by rw [hl, List.length_reverse])
  intro p hp _
  rw [hl] at hp
  have h := swapDown_getD r.length (r.length / 2 + r.length % 2)
    (r.length - (r.length / 2 + r.length % 2)) r rfl (by omega) (by omega) p hp
  rw [List.getD_eq_getElem _ 0 (by rw [hl]; exact hp)] at h
  rw [h, List.getElem_reverse]
  split_ifs with hc
  · rw [List.getD_eq_getElem]
  · rw [List.getD_eq_getElem _ 0 hp]
    congr 1
    omega

end Reversal

end PolkadotApi.PositionalNumerals
