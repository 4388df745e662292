import PolkadotApi.AddressCodec

set_option autoImplicit false

namespace PolkadotApi.DecodedValues
open MachineModel PositionalNumerals AddressCodec

/-- The entry of `ALPHABET_MAP` for a byte, `-1` also past the table. -/
def symbolDigit (c : UInt8) : ℤ := alphabetMap.getD c.toNat (-1)

def word (a : ℤ) : ℕ := (a % 2 ^ 32).toNat

def Mapped (a : ℤ) : Prop := -1 ≤ a ∧ a < 58

def absorb (n : ℕ) (a : ℤ) : ℕ :=
  if a = -1 then if n % 256 = 0 then n * 58 + (2 ^ 32 - 1) else n * 58 - 1
  else n * 58 + a.toNat

def absorbed (as : List ℤ) : ℕ := as.foldl absorb 0

/-- The number that the table entries spell in base 58. -/
def spelled (as : List ℤ) : ℤ := as.foldl (fun n a => n * 58 + a) 0

/-- The symbol at index `t` is unknown and adds its whole word. -/
def AddsWord (as : List ℤ) (t : ℕ) : Prop :=
  as[t]? = some (-1) ∧ (256 : ℤ) ∣ spelled (as.take t)

section Symbols

theorem symbolDigit_mapped (c : UInt8) : Mapped (symbolDigit c) := by
  have htable : ∀ a ∈ alphabetMap, -1 ≤ a ∧ a < 58 := by decide +kernel
  by_cases hc : c.toNat < alphabetMap.length
  · rw [symbolDigit, List.getD_eq_getElem _ _ hc]
    exact htable _ (List.getElem_mem hc)
  · rw [symbolDigit, List.getD_eq_default _ _ (by omega)]
    exact ⟨le_rfl, by norm_num⟩

theorem mapped_of_mem (str : Str) : ∀ a ∈ str.map symbolDigit, Mapped a := by
  intro a ha
  obtain ⟨c, _, rfl⟩ := List.mem_map.1 ha
  exact symbolDigit_mapped c

theorem symbolDigit_ne_zero {c : UInt8} (h : c ≠ 49) : symbolDigit c ≠ 0 := by
  have htable : ∀ i : Fin 128, alphabetMap.getD i.val (-1) = 0 → i.val = 49 := by
    decide +kernel
  have hlength : alphabetMap.length = 128 := rfl
  intro hzero
  by_cases hc : c.toNat < 128
  · have hbyte : c.toNat = 49 := htable ⟨c.toNat, hc⟩ hzero
    exact h (UInt8.toNat_inj.1 hbyte)
  · rw [symbolDigit, List.getD_eq_default _ _ (by omega)] at hzero
    omega

theorem alphabet_mapped : ∀ c ∈ alphabet, c.toNat < 128 ∧ symbolDigit c ≠ -1 := by
  decide +kernel

theorem symbolValue_mapped {c : UInt8} (h : c.toNat < 128) :
    symbolValue c = .ok (word (symbolDigit c)) := by
  have hc : c.toNat < alphabetMap.length := h
  rw [symbolValue, List.getElem?_eq_getElem hc, symbolDigit, List.getD_eq_getElem _ _ hc, word]

theorem symbolValue_unmapped {c : UInt8} (h : 128 ≤ c.toNat) :
    symbolValue c = .error .undefined := by
  have hc : alphabetMap.length ≤ c.toNat := h
  rw [symbolValue, List.getElem?_eq_none hc]

end Symbols

section CarryLoop

theorem mulAddDigits_absorb (n : ℕ) {a : ℤ} (h : Mapped a) :
    mulAddDigits (2 ^ 32) 58 256 (word a) (numeral 256 n) = numeral 256 (absorb n a) := by
  obtain ⟨hlow, hhigh⟩ := h
  rw [absorb]
  split_ifs with ha hn
  · have hword : word a = 2 ^ 32 - 1 := by rw [ha]; rfl
    rw [hword]
    exact mulAddDigits_numeral_wide (t := 2 ^ 24) (by norm_num) (by norm_num) (by norm_num)
      (by norm_num) n _ (by rw [hn]; norm_num)
  · have hword : word a = 2 ^ 32 - 1 := by rw [ha]; rfl
    have hpred : n * 58 - 1 = (n - 1) * 58 + 57 := by omega
    rw [hword, hpred]
    exact mulAddDigits_borrow (by norm_num) (by norm_num) (by norm_num) (by norm_num) hn
  · have hword : word a = a.toNat := by
      rw [word, Int.emod_eq_of_lt (by omega) (by omega)]
    rw [hword]
    exact mulAddDigits_numeral (by norm_num) (by norm_num) n _ (by omega)

theorem foldl_absorb_numeral {as : List ℤ} (h : ∀ a ∈ as, Mapped a) (n : ℕ) :
    (as.map word).foldl (fun r c => mulAddDigits (2 ^ 32) 58 256 c r) (numeral 256 n) =
      numeral 256 (as.foldl absorb n) := by
  induction as generalizing n with
  | nil => rfl
  | cons a as ih =>
    rw [List.map_cons, List.foldl_cons, mulAddDigits_absorb n (h a (by simp)),
      ih (fun x hx => h x (by simp [hx])), List.foldl_cons]

theorem decodeDigits_mapped {str : Str} (h : ∀ c ∈ str, c.toNat < 128) (result : List ℕ) :
    decodeDigits str result = .ok (((str.map symbolDigit).map word).foldl
      (fun r c => mulAddDigits (2 ^ 32) 58 256 c r) result) := by
  induction str generalizing result with
  | nil => rfl
  | cons c str ih =>
    rw [decodeDigits, symbolValue_mapped (h c (by simp))]
    exact ih (fun x hx => h x (by simp [hx])) _

theorem decodeBase58_mapped {str : Str} (h : ∀ c ∈ str, c.toNat < 128) :
    decodeBase58 str = .ok ((numeral 256 (absorbed (str.map symbolDigit)) ++
      List.replicate (str.takeWhile (· = 49)).length 0).reverse.map UInt8.ofNat) := by
  have hdigits := decodeDigits_mapped h (numeral 256 0)
  rw [foldl_absorb_numeral (mapped_of_mem str)] at hdigits
  exact decodeBase58_of_digits hdigits

theorem absorbed_leading (str : Str) :
    absorbed (str.map symbolDigit) = absorbed ((str.dropWhile (· = 49)).map symbolDigit) := by
  induction str with
  | nil => rfl
  | cons c str ih =>
    by_cases hc : c = 49
    · subst c
      exact ih
    · rw [List.dropWhile_cons_of_neg (by simpa using hc)]

theorem headD_leading {str : Str} (h : (str.dropWhile (· = 49)).map symbolDigit ≠ []) :
    ((str.dropWhile (· = 49)).map symbolDigit).headD 0 ≠ 0 := by
  induction str with
  | nil => exact absurd rfl h
  | cons c str ih =>
    by_cases hc : c = 49
    · rw [List.dropWhile_cons_of_pos (by simpa using hc)] at h ⊢
      exact ih h
    · rw [List.dropWhile_cons_of_neg (by simpa using hc)]
      exact symbolDigit_ne_zero hc

end CarryLoop

section Prefixes

theorem absorb_emod {n : ℕ} {z a : ℤ} (h : (n : ℤ) % 256 = z % 256) (ha : Mapped a) :
    (absorb n a : ℤ) % 256 = (z * 58 + a) % 256 := by
  obtain ⟨hlow, _⟩ := ha
  rw [absorb]
  split_ifs <;> omega

theorem absorbed_emod {as : List ℤ} (h : ∀ a ∈ as, Mapped a) :
    (absorbed as : ℤ) % 256 = spelled as % 256 := by
  induction as using List.reverseRecOn with
  | nil => rfl
  | append_singleton as a ih =>
    have hrun := ih (fun x hx => h x (by simp [hx]))
    rw [absorbed, spelled, List.foldl_append, List.foldl_append]
    exact absorb_emod hrun (h a (by simp))

theorem addsWord_iff {as : List ℤ} (h : ∀ a ∈ as, Mapped a) (t : ℕ) :
    AddsWord as t ↔ as[t]? = some (-1) ∧ absorbed (as.take t) % 256 = 0 := by
  have hmod := absorbed_emod (fun a ha => h a (List.mem_of_mem_take ha) : ∀ a ∈ as.take t, Mapped a)
  rw [AddsWord, Int.dvd_iff_emod_eq_zero, ← hmod]
  exact and_congr_right fun _ => by omega

theorem absorbed_take_succ {as : List ℤ} {t : ℕ} {a : ℤ} (h : as[t]? = some a) :
    absorbed (as.take (t + 1)) = absorb (absorbed (as.take t)) a := by
  rw [absorbed, List.take_add_one, h, List.foldl_append]
  rfl

theorem absorbed_split (as : List ℤ) (t : ℕ) :
    absorbed as = (as.drop t).foldl absorb (absorbed (as.take t)) := by
  rw [absorbed, absorbed, ← List.foldl_append, List.take_append_drop]

end Prefixes

section Bounds

theorem absorb_le (n : ℕ) {a : ℤ} (h : Mapped a) : absorb n a ≤ n * 58 + (2 ^ 32 - 1) := by
  obtain ⟨_, hhigh⟩ := h
  rw [absorb]
  split_ifs <;> omega

theorem absorb_quiet {n : ℕ} {a : ℤ} (h : Mapped a) (hq : ¬ (a = -1 ∧ n % 256 = 0)) :
    absorb n a ≤ n * 58 + 57 := by
  obtain ⟨_, hhigh⟩ := h
  rw [absorb]
  split_ifs <;> omega

theorem le_absorb (n : ℕ) (a : ℤ) : n * 58 ≤ absorb n a + 1 := by
  rw [absorb]
  split_ifs <;> omega

theorem foldl_absorb_le {as : List ℤ} (h : ∀ a ∈ as, Mapped a) (n : ℕ) :
    57 * as.foldl absorb n + (2 ^ 32 - 1) ≤ 58 ^ as.length * (57 * n + (2 ^ 32 - 1)) := by
  induction as generalizing n with
  | nil => simp
  | cons a as ih =>
    have hstep := absorb_le n (h a (by simp))
    rw [List.foldl_cons, List.length_cons]
    calc
      _ ≤ 58 ^ as.length * (57 * absorb n a + (2 ^ 32 - 1)) := ih (fun x hx => h x (by simp [hx])) _
      _ ≤ 58 ^ as.length * (58 * (57 * n + (2 ^ 32 - 1))) := Nat.mul_le_mul_left _ (by omega)
      _ = _ := by ring

theorem le_foldl_absorb (as : List ℤ) {n : ℕ} (hn : 0 < n) :
    58 ^ as.length * (57 * n) + 1 ≤ 57 * as.foldl absorb n + 58 ^ as.length := by
  induction as generalizing n with
  | nil => simp
  | cons a as ih =>
    have hstep := le_absorb n a
    have hrest := ih (show 0 < absorb n a by omega)
    have hmul : 58 ^ as.length * (58 * (57 * n)) ≤ 58 ^ as.length * (57 * absorb n a + 57) :=
      Nat.mul_le_mul_left _ (by omega)
    rw [Nat.mul_add] at hmul
    rw [List.foldl_cons, List.length_cons, pow_succ, Nat.mul_assoc]
    omega

theorem absorbed_quiet {as : List ℤ} (h : ∀ a ∈ as, Mapped a) {t : ℕ}
    (hq : ∀ s < t, ¬ AddsWord as s) : absorbed (as.take t) < 58 ^ t := by
  induction t with
  | zero => simp [absorbed]
  | succ t ih =>
    have hrun := ih (fun s hs => hq s (by omega))
    have hpow : 58 ^ (t + 1) = 58 ^ t * 58 := pow_succ 58 t
    cases ha : as[t]? with
    | none =>
      rw [List.take_add_one, ha, Option.toList_none, List.append_nil]
      omega
    | some a =>
      have hmapped := h a (List.mem_of_getElem? ha)
      have hword : ¬ (a = -1 ∧ absorbed (as.take t) % 256 = 0) := by
        rintro ⟨rfl, hzero⟩
        exact hq t (by omega) ((addsWord_iff h t).2 ⟨ha, hzero⟩)
      have hstep := absorb_quiet hmapped hword
      rw [absorbed_take_succ ha]
      omega

theorem absorbed_pos {as : List ℤ} (h : ∀ a ∈ as, Mapped a) (hhead : as.headD 0 ≠ 0) :
    0 < absorbed as := by
  cases as with
  | nil => exact absurd rfl hhead
  | cons a as =>
    obtain ⟨hlow, _⟩ := h a (by simp)
    have hfirst : 0 < absorb 0 a := by
      rw [List.headD_cons] at hhead
      rw [absorb]
      split_ifs <;> omega
    have hrest := le_foldl_absorb as hfirst
    have hpow : 0 < 58 ^ as.length := Nat.pow_pos (by norm_num)
    have hmul : 58 ^ as.length * 1 ≤ 58 ^ as.length * (57 * absorb 0 a) :=
      Nat.mul_le_mul_left _ (by omega)
    change 0 < as.foldl absorb (absorb 0 a)
    omega

/-- One added word on top of `n` is too much for as many bytes as symbols, if the
symbols behind it cannot make up for it. -/
theorem le_absorbed {as : List ℤ} (h : ∀ a ∈ as, Mapped a) {t n : ℕ} (hword : AddsWord as t)
    (hn : n ≤ absorbed (as.take t))
    (hbig : 57 * 256 ^ as.length + 58 ^ (as.length - (t + 1)) ≤
      58 ^ (as.length - (t + 1)) * (57 * (n * 58 + (2 ^ 32 - 1))) + 1) :
    256 ^ as.length ≤ absorbed as := by
  obtain ⟨ha, hzero⟩ := (addsWord_iff h t).1 hword
  have hstep : absorbed (as.take (t + 1)) = absorbed (as.take t) * 58 + (2 ^ 32 - 1) := by
    rw [absorbed_take_succ ha, absorb, if_pos rfl, if_pos hzero]
  have hpos : 0 < absorbed (as.take (t + 1)) := by
    rw [hstep]
    exact Nat.add_pos_right _ (by norm_num)
  have hrest := le_foldl_absorb (as.drop (t + 1)) hpos
  rw [← absorbed_split, List.length_drop, hstep] at hrest
  have hmul : 58 ^ (as.length - (t + 1)) * (57 * (n * 58 + (2 ^ 32 - 1))) ≤
      58 ^ (as.length - (t + 1)) * (57 * (absorbed (as.take t) * 58 + (2 ^ 32 - 1))) := by
    gcongr
  omega

theorem absorbed_lt {as : List ℤ} (h : ∀ a ∈ as, Mapped a) {t : ℕ} (hq : ∀ s < t, ¬ AddsWord as s)
    (hsmall : 58 ^ (as.length - t) * (57 * 58 ^ t + (2 ^ 32 - 1)) ≤ 57 * 256 ^ as.length) :
    absorbed as < 256 ^ as.length := by
  have hquiet := absorbed_quiet h hq
  have hrest := foldl_absorb_le
    (fun a ha => h a (List.mem_of_mem_drop ha) : ∀ a ∈ as.drop t, Mapped a) (absorbed (as.take t))
  rw [← absorbed_split, List.length_drop] at hrest
  have hmul : 58 ^ (as.length - t) * (57 * absorbed (as.take t) + (2 ^ 32 - 1)) ≤
      58 ^ (as.length - t) * (57 * 58 ^ t + (2 ^ 32 - 1)) :=
    Nat.mul_le_mul_left _ (by omega)
  omega

end Bounds

section Fits

theorem addsWord_lt {as : List ℤ} {t : ℕ} (h : AddsWord as t) : t < as.length := by
  by_contra hlen
  rw [AddsWord, List.getElem?_eq_none (by omega)] at h
  exact Option.some_ne_none _ h.1.symm

theorem not_addsWord_one {as : List ℤ} (h : ∀ a ∈ as, Mapped a) (hhead : as.headD 0 ≠ 0) :
    ¬ AddsWord as 1 := by
  cases as with
  | nil => exact absurd rfl hhead
  | cons a as =>
    obtain ⟨hlow, hhigh⟩ := h a (by simp)
    rw [List.headD_cons] at hhead
    rintro ⟨_, hdvd⟩
    have hvalue : spelled ((a :: as).take 1) = a := by simp [spelled]
    rw [hvalue] at hdvd
    omega

theorem words_fit {m : ℕ} (h : 13 ≤ m) : 58 ^ m * (57 + (2 ^ 32 - 1)) ≤ 57 * 256 ^ m := by
  induction m, h using Nat.le_induction with
  | base => norm_num
  | succ m _ ih =>
    calc
      58 ^ (m + 1) * (57 + (2 ^ 32 - 1)) = 58 ^ m * (57 + (2 ^ 32 - 1)) * 58 := by ring
      _ ≤ 57 * 256 ^ m * 58 := Nat.mul_le_mul_right _ ih
      _ ≤ 57 * 256 ^ m * 256 := Nat.mul_le_mul_left _ (by norm_num)
      _ = 57 * 256 ^ (m + 1) := by ring

theorem room_of_addsWord {as : List ℤ} (h : ∀ a ∈ as, Mapped a) {t n room : ℕ}
    (hn : n ≤ absorbed (as.take t))
    (hbig : ∀ m, t < m → m < room →
      57 * 256 ^ m + 58 ^ (m - (t + 1)) ≤ 58 ^ (m - (t + 1)) * (57 * (n * 58 + (2 ^ 32 - 1))) + 1)
    (hlt : absorbed as < 256 ^ as.length) (hword : AddsWord as t) : room ≤ as.length := by
  by_contra hshort
  have hlong := le_absorbed h hword hn (hbig _ (addsWord_lt hword) (by omega))
  omega

theorem absorbed_lt_of_room {as : List ℤ} (h : ∀ a ∈ as, Mapped a) (hhead : as.headD 0 ≠ 0)
    (h₀ : AddsWord as 0 → 13 ≤ as.length) (h₂ : AddsWord as 2 → 7 ≤ as.length)
    (h₃ : AddsWord as 3 → 5 ≤ as.length) : absorbed as < 256 ^ as.length := by
  have h₁ := not_addsWord_one h hhead
  -- the shorter the text, the longer the prefix that has to be free of added words:
  -- none from 13 symbols on, then two, three, and in the end all of them
  rcases Nat.lt_or_ge as.length 13 with hlen₀ | hlen₀
  · have hq₀ : ¬ AddsWord as 0 := fun hword => absurd (h₀ hword) (by omega)
    rcases Nat.lt_or_ge as.length 7 with hlen₂ | hlen₂
    · have hq₂ : ¬ AddsWord as 2 := fun hword => absurd (h₂ hword) (by omega)
      have hq : ∀ s < 3, ¬ AddsWord as s := by
        intro s hs
        interval_cases s <;> assumption
      rcases Nat.lt_or_ge as.length 5 with hlen₃ | hlen₃
      · have hq₃ : ¬ AddsWord as 3 := fun hword => absurd (h₃ hword) (by omega)
        have hall : ∀ s < as.length, ¬ AddsWord as s := by
          intro s hs
          rcases Nat.lt_or_ge s 3 with hs | hs
          · exact hq s hs
          · exact (show s = 3 by omega) ▸ hq₃
        have hquiet := absorbed_quiet h hall
        rw [List.take_length] at hquiet
        exact hquiet.trans_le (Nat.pow_le_pow_left (by norm_num) _)
      · apply absorbed_lt h hq
        generalize as.length = m at hlen₂ hlen₃
        interval_cases m <;> norm_num
    · have hq : ∀ s < 2, ¬ AddsWord as s := by
        intro s hs
        interval_cases s <;> assumption
      apply absorbed_lt h hq
      generalize as.length = m at hlen₀ hlen₂
      interval_cases m <;> norm_num
  · apply absorbed_lt h (fun s hs => absurd hs (Nat.not_lt_zero s))
    exact words_fit hlen₀

/-- The number fits as many bytes as there are symbols, unless a word is added near
the front of a short text. -/
theorem absorbed_lt_iff {as : List ℤ} (h : ∀ a ∈ as, Mapped a) (hhead : as.headD 0 ≠ 0) :
    absorbed as < 256 ^ as.length ↔
      (AddsWord as 0 → 13 ≤ as.length) ∧ (AddsWord as 2 → 7 ≤ as.length) ∧
        (AddsWord as 3 → 5 ≤ as.length) := by
  constructor
  · intro hlt
    refine ⟨?_, ?_, ?_⟩
    · apply room_of_addsWord h (Nat.zero_le _) _ hlt
      intro m hm hroom
      interval_cases m <;> norm_num
    · apply room_of_addsWord h (Nat.zero_le _) _ hlt
      intro m hm hroom
      interval_cases m <;> norm_num
    · have hpos : 0 < absorbed (as.take 3) := by
        apply absorbed_pos (fun a ha => h a (List.mem_of_mem_take ha))
        cases as with
        | nil => exact hhead
        | cons a as => exact hhead
      apply room_of_addsWord h hpos _ hlt
      intro m hm hroom
      interval_cases m
      norm_num
  · rintro ⟨h₀, h₂, h₃⟩
    exact absorbed_lt_of_room h hhead h₀ h₂ h₃

end Fits

end PolkadotApi.DecodedValues
