import PolkadotApi.DecimalTexts
import PolkadotApi.NumeralTexts
import PolkadotApi.WideDivision

set_option autoImplicit false

namespace PolkadotApi.WideTexts
open StreamReader MachineModel Converters PositionalNumerals NumeralTexts DecimalTexts
open WideIntegers

section Streams

/-- The base field of a stream's flags; no flag, or more than one, means decimal. -/
inductive Base where
  | hex
  | oct
  | dec
  deriving DecidableEq

inductive Adjust where
  | left
  | internal
  | right
  deriving DecidableEq

structure Flags where
  base : Base
  adjust : Adjust
  showbase : Bool
  uppercase : Bool

namespace Base

def radix : Base → ℕ
  | hex => 16
  | oct => 8
  | dec => 10

/-- The largest power of the base below 2^64. -/
def div : Base → UInt64
  | hex => 0x1000000000000000
  | oct => 0x8000000000000000
  | dec => 10000000000000000000

def divBaseLog : Base → ℕ
  | hex => 15
  | oct => 21
  | dec => 19

end Base

def digitChar (uppercase : Bool) (d : ℕ) : UInt8 :=
  if d < 10 then .ofNat (48 + d) else .ofNat ((if uppercase then 65 else 97) + (d - 10))

def basePrefix (flags : Flags) : Str :=
  match flags.base with
  | .hex => if flags.uppercase then lit "0X" else lit "0x"
  | .oct => lit "0"
  | .dec => []

def numberText (flags : Flags) (n : ℕ) : Str :=
  (if flags.showbase ∧ n ≠ 0 then basePrefix flags else []) ++
    plainText (digitChar flags.uppercase) flags.base.radix n

/-- A word printed after `noshowbase`, with zeros up to the width. -/
def paddedWord (flags : Flags) (v : UInt64) : Str :=
  padLeft flags.base.divBaseLog 48 (numberText { flags with showbase := false } v.toNat)

def uint128ToFormattedString (v : Uint128) (flags : Flags) : Except Stop Str := do
  let div := Uint128.ofUInt64 flags.base.div
  let (high, low) ← divModImpl v div
  let (high, mid) ← divModImpl high div
  if high.lo ≠ 0 then
    return numberText flags high.lo.toNat ++ (paddedWord flags mid.lo ++ paddedWord flags low.lo)
  else if mid.lo ≠ 0 then
    return numberText flags mid.lo.toNat ++ paddedWord flags low.lo
  else return numberText flags low.lo.toNat

def inField (flags : Flags) (width : ℕ) (fill : UInt8) (v : Uint128) (rep : Str) : Str :=
  if width > rep.length then
    let padding := List.replicate (width - rep.length) fill
    if flags.adjust = .left then rep ++ padding
    else if flags.adjust = .internal ∧ flags.showbase ∧ flags.base = .hex ∧ v ≠ .ofUInt64 0 then
      rep.take 2 ++ (padding ++ rep.drop 2)
    else padding ++ rep
  else rep

def streamOut (flags : Flags) (width : ℕ) (fill : UInt8) (v : Uint128) : Except Stop Str :=
  (uint128ToFormattedString v flags).map (inField flags width fill v)

end Streams

section Pieces

theorem div_eq (base : Base) : base.div.toNat = base.radix ^ base.divBaseLog := by
  cases base <;> rfl

theorem digitChar_zero (uppercase : Bool) : digitChar uppercase 0 = 48 := rfl

theorem paddedWord_eq (flags : Flags) (v : UInt64) : paddedWord flags v =
    padLeft flags.base.divBaseLog 48
      (plainText (digitChar flags.uppercase) flags.base.radix v.toNat) := by
  simp [paddedWord, numberText]

theorem numberText_split (flags : Flags) {q : ℕ} {v : UInt64} (hq : q ≠ 0)
    (hv : v.toNat < flags.base.radix ^ flags.base.divBaseLog) :
    numberText flags (q * flags.base.radix ^ flags.base.divBaseLog + v.toNat) =
      numberText flags q ++ paddedWord flags v := by
  have hradix : 1 < flags.base.radix := by cases flags.base <;> decide
  have hwidth : 0 < flags.base.divBaseLog := by cases flags.base <;> decide
  have hne : q * flags.base.radix ^ flags.base.divBaseLog + v.toNat ≠ 0 := by
    have hpos : 0 < q * flags.base.radix ^ flags.base.divBaseLog :=
      Nat.mul_pos (Nat.pos_of_ne_zero hq) (Nat.pow_pos (by omega))
    omega
  have hsplit := plainText_split (digitChar flags.uppercase) hradix hwidth hq hv
  rw [digitChar_zero] at hsplit
  rw [paddedWord_eq, numberText, numberText, hsplit, List.append_assoc]
  simp only [hq, hne, ne_eq, not_false_eq_true, and_true]

theorem lo_toNat {v : Uint128} (h : v.toNat < 2 ^ 64) : v.lo.toNat = v.toNat := by
  have hlo := v.lo.toNat_lt
  rw [Uint128.toNat] at h ⊢
  omega

theorem lo_eq_zero_iff {v : Uint128} (h : v.toNat < 2 ^ 64) : v.lo = 0 ↔ v.toNat = 0 := by
  rw [← lo_toNat h, ← UInt64.toNat_inj, UInt64.toNat_zero]

theorem div_bounds (base : Base) : 2 ^ 60 ≤ base.div.toNat ∧ base.div.toNat < 2 ^ 64 := by
  cases base <;> decide

/-- Printing in three parts gives the plain numeral, in every base and with every
flag. -/
theorem uint128ToFormattedString_eq (v : Uint128) (flags : Flags) :
    uint128ToFormattedString v flags = .ok (numberText flags v.toNat) := by
  obtain ⟨hmin, hmax⟩ := div_bounds flags.base
  have hv := v.toNat_lt
  have hne : Uint128.ofUInt64 flags.base.div ≠ .ofUInt64 0 := by
    rw [ne_zero_iff, Uint128.toNat_ofUInt64]
    omega
  obtain ⟨rest, low, hfirst, hrest, hlow⟩ := divModImpl_ok v hne
  obtain ⟨high, mid, hsecond, hhigh, hmid⟩ := divModImpl_ok rest hne
  rw [Uint128.toNat_ofUInt64] at hrest hlow hhigh hmid
  have hpos : 0 < flags.base.div.toNat := by omega
  have hwhole : rest.toNat * flags.base.div.toNat + low.toNat = v.toNat := by
    rw [hrest, hlow, Nat.mul_comm, Nat.div_add_mod]
  have hpart : high.toNat * flags.base.div.toNat + mid.toNat = rest.toNat := by
    rw [hhigh, hmid, Nat.mul_comm, Nat.div_add_mod]
  have hlow' : low.toNat < flags.base.div.toNat := hlow ▸ Nat.mod_lt _ hpos
  have hmid' : mid.toNat < flags.base.div.toNat := hmid ▸ Nat.mod_lt _ hpos
  have hrest' : rest.toNat < 2 ^ 68 := by
    rw [hrest]
    apply Nat.div_lt_of_lt_mul
    calc v.toNat < 2 ^ 60 * 2 ^ 68 := by rw [← pow_add]; exact hv
      _ ≤ flags.base.div.toNat * 2 ^ 68 := Nat.mul_le_mul_right _ hmin
  have hhigh' : high.toNat < 2 ^ 64 := by
    rw [hhigh]
    exact (Nat.div_le_div_left hmin (by decide)).trans_lt
      (Nat.div_lt_of_lt_mul (hrest'.trans (by decide)))
  have hlowWord := lo_toNat (hlow'.trans hmax)
  have hmidWord := lo_toNat (hmid'.trans hmax)
  have hhighWord := lo_toNat hhigh'
  have hcutLow : rest.toNat ≠ 0 →
      numberText flags v.toNat = numberText flags rest.toNat ++ paddedWord flags low.lo := by
    intro h
    rw [← hwhole, ← hlowWord, div_eq]
    exact numberText_split flags h (by rw [hlowWord, ← div_eq]; exact hlow')
  have hcutMid : high.toNat ≠ 0 →
      numberText flags rest.toNat = numberText flags high.toNat ++ paddedWord flags mid.lo := by
    intro h
    rw [← hpart, ← hmidWord, div_eq]
    exact numberText_split flags h (by rw [hmidWord, ← div_eq]; exact hmid')
  rw [uint128ToFormattedString]
  simp only [hfirst, hsecond, except_ok_bind, ne_eq, lo_eq_zero_iff hhigh',
    lo_eq_zero_iff (hmid'.trans hmax), hlowWord, hmidWord, hhighWord]
  by_cases h0 : high.toNat = 0
  · rw [h0, Nat.zero_mul, Nat.zero_add] at hpart
    rw [if_neg (not_not.2 h0)]
    by_cases h1 : mid.toNat = 0
    · rw [← hpart, h1, Nat.zero_mul, Nat.zero_add] at hwhole
      rw [if_neg (not_not.2 h1), hwhole]
      rfl
    · rw [if_pos h1, hcutLow (hpart ▸ h1), hpart]
      rfl
  · have hrest0 : rest.toNat ≠ 0 := by
      have := Nat.mul_pos (Nat.pos_of_ne_zero h0) hpos
      omega
    rw [if_pos h0, hcutLow hrest0, hcutMid h0, List.append_assoc]
    rfl

end Pieces

section RoundTrip

theorem digitChar_toNat (uppercase : Bool) {d : ℕ} (h : d < 10) :
    (digitChar uppercase d).toNat = 48 + d := by
  rw [digitChar, if_pos h, UInt8.toNat_ofNat']
  omega

theorem digitChar_isDigit (uppercase : Bool) {d : ℕ} (h : d < 10) :
    isDigit (digitChar uppercase d) := by
  have hnat := digitChar_toNat uppercase h
  have hlower : (48 : UInt8).toNat = 48 := rfl
  have hupper : (57 : UInt8).toNat = 57 := rfl
  simp only [isDigit, Bool.and_eq_true, decide_eq_true_eq, UInt8.le_iff_toNat_le, hnat, hlower,
    hupper]
  omega

theorem not_isBlank_of_isDigit {c : UInt8} (h : isDigit c) : isBlank c = false := by
  simp only [isDigit, Bool.and_eq_true, decide_eq_true_eq, UInt8.le_iff_toNat_le] at h
  have hlower : 48 ≤ c.toNat := h.1
  simp only [isBlank, Bool.or_eq_false_iff, beq_eq_false_iff_ne, ne_eq]
  refine ⟨⟨⟨?_, ?_⟩, ?_⟩, ?_⟩ <;> rintro rfl <;> exact absurd hlower (by decide)

theorem plainText_digits (uppercase : Bool) (n : ℕ) :
    ∀ c ∈ plainText (digitChar uppercase) 10 n, isDigit c := by
  intro c hc
  obtain ⟨d, hd, rfl⟩ := List.mem_map.1 hc
  exact digitChar_isDigit uppercase (numeral_lt (by decide) n d (List.mem_reverse.1 hd))

theorem decimalValue_plainText (uppercase : Bool) (n : ℕ) :
    decimalValue (plainText (digitChar uppercase) 10 n) = n := by
  have hvalues : digitValues (plainText (digitChar uppercase) 10 n) = (numeral 10 n).reverse := by
    rw [digitValues, plainText, List.map_map]
    refine (List.map_congr_left ?_).trans (List.map_id _)
    intro d hd
    have hlt := numeral_lt (by decide) n d (List.mem_reverse.1 hd)
    rw [Function.comp_apply, digitChar_toNat uppercase hlt, id]
    omega
  rw [decimalValue, hvalues, valueBE_eq_ofDigits, List.reverse_reverse, ofDigits_numeral]

theorem plainText_length_le (f : ℕ → UInt8) {n : ℕ} (h : n < 2 ^ 128) :
    (plainText f 10 n).length ≤ 39 := by
  have hdigits : (Nat.digits 10 n).length ≤ 39 :=
    (Nat.digits_length_le_iff (by decide) n).2 (h.trans (by decide))
  rw [plainText, List.length_map, List.length_reverse, numeral]
  split_ifs
  · decide
  · exact hdigits

theorem atoi128_numeral (uppercase : Bool) {n : ℕ} (hn : n < 2 ^ 128) {before after : Str}
    (hbefore : ∀ c ∈ before, isBlank c) (hafter : ∀ c ∈ after, isBlank c) :
    atoi128 (before ++ (plainText (digitChar uppercase) 10 n ++ after)) = .ok n := by
  have hdigits := plainText_digits uppercase n
  have hlength := plainText_length_le (digitChar uppercase) hn
  have hvalue := decimalValue_plainText uppercase n
  have hne : plainText (digitChar uppercase) 10 n ≠ [] := by
    have hpos := numeral_length_pos (b := 10) (by decide) n
    rw [plainText, ne_eq, List.map_eq_nil_iff, List.reverse_eq_nil_iff]
    exact List.ne_nil_of_length_pos hpos
  have hnoDigit : ∀ c ∈ after.head?, isDigit c = false := by
    intro c hc
    have hblank := hafter c (List.mem_of_mem_head? hc)
    by_contra hdigit
    rw [Bool.not_eq_false] at hdigit
    rw [not_isBlank_of_isDigit hdigit] at hblank
    exact Bool.false_ne_true hblank
  generalize plainText (digitChar uppercase) 10 n = digits at *
  cases digits with
  | nil => exact absurd rfl hne
  | cons d digits =>
    have hd : isDigit d := hdigits d List.mem_cons_self
    have hparts : (Parts.mk before false (d :: digits) after).Maximal := by
      refine ⟨hbefore, ?_, ?_, hdigits, hnoDigit⟩
      · rintro c ⟨⟩
        exact not_isBlank_of_isDigit hd
      · rintro - ⟨⟩
        exact absurd hd (by decide)
    have hrun := hparts.digitRun_eq
    have hminus := hparts.hasMinus_eq
    change digitRun (before ++ (d :: digits ++ after)) = d :: digits at hrun
    change hasMinus (before ++ (d :: digits ++ after)) = false at hminus
    rw [atoi128_eq, hrun, hminus, if_pos (by omega), signedValue, if_neg Bool.false_ne_true, hvalue]
    congr 1
    have hcast := asUInt128_cast (n : ℤ)
    omega

theorem numberText_dec {flags : Flags} (h : flags.base = .dec) (n : ℕ) :
    numberText flags n = plainText (digitChar flags.uppercase) 10 n := by
  simp [numberText, basePrefix, h, Base.radix]

theorem inField_dec (v : Uint128) {flags : Flags} (hbase : flags.base = .dec) (width : ℕ)
    (fill : UInt8) (rep : Str) : ∃ k l, inField flags width fill v rep =
      List.replicate k fill ++ (rep ++ List.replicate l fill) := by
  have hhex : ¬(flags.adjust = .internal ∧ flags.showbase ∧ flags.base = .hex ∧
      v ≠ .ofUInt64 0) := by
    rintro ⟨-, -, hhex, -⟩
    rw [hbase] at hhex
    cases hhex
  simp only [inField, if_neg hhex]
  split_ifs
  · exact ⟨0, width - rep.length, rfl⟩
  · refine ⟨width - rep.length, 0, ?_⟩
    rw [List.replicate_zero, List.append_nil]
  · refine ⟨0, 0, ?_⟩
    rw [List.replicate_zero, List.append_nil, List.nil_append]

/-- Printing in parts gives the plain numeral. In decimal, and in any field of blanks,
it is read back. -/
theorem printed_read_back (v : Uint128) (flags : Flags) :
    uint128ToFormattedString v flags = .ok (numberText flags v.toNat) ∧
      (flags.base = .dec → ∀ width fill, isBlank fill →
        ∃ text, streamOut flags width fill v = .ok text ∧ atoi128 text = .ok v.toNat) := by
  refine ⟨uint128ToFormattedString_eq v flags, ?_⟩
  intro hbase width fill hfill
  have hpadding : ∀ k, ∀ c ∈ List.replicate k fill, isBlank c := by
    intro k c hc
    rw [List.eq_of_mem_replicate hc]
    exact hfill
  refine ⟨inField flags width fill v (numberText flags v.toNat), ?_, ?_⟩
  · rw [streamOut, uint128ToFormattedString_eq]
    rfl
  obtain ⟨k, l, hfield⟩ := inField_dec v hbase width fill (numberText flags v.toNat)
  rw [hfield, numberText_dec hbase]
  exact atoi128_numeral flags.uppercase v.toNat_lt (hpadding k) (hpadding l)

theorem printed_read_back_threeParts :
    ∃ text, streamOut ⟨.dec, .right, true, false⟩ 50 32 ⟨0xffffffffffffffff, 5⟩ = .ok text ∧
      atoi128 text = .ok (0xffffffffffffffff * 2 ^ 64 + 5) :=
  (printed_read_back ⟨0xffffffffffffffff, 5⟩ ⟨.dec, .right, true, false⟩).2 rfl 50 32 rfl

end RoundTrip

end PolkadotApi.WideTexts
