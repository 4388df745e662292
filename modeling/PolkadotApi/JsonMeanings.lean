import PolkadotApi.JsonRoundTrip

set_option autoImplicit false

/-!
What the escapes, the short integers and the members of an object stand for, in terms that
do not name the parser: the characters of a Unicode text, decimal numerals and finite maps.
-/
namespace PolkadotApi.JsonMeanings
open HexText MachineModel Converters JsonValues DecimalTexts JsonText JsonStrings JsonNumbers
open JsonNesting JsonRoundTrip PositionalNumerals

section Escapes

def escapes : List (UInt8 × UInt8) :=
  [(34, 34), (92, 92), (47, 47), (98, 8), (102, 12), (110, 10), (114, 13), (116, 9)]

theorem shortEscape_eq_some_iff (e c : UInt8) : shortEscape e = some c ↔ (e, c) ∈ escapes := by
  unfold shortEscape escapes
  split_ifs with h₁ h₂ h₃ h₄ h₅ hself
  rotate_left 5
  · rcases hself with rfl | rfl | rfl
    all_goals simp [eq_comm]
  all_goals simp_all [eq_comm]

theorem codepoint_eq_some_iff (a b c d : UInt8) (pt : ℕ) :
    codepoint a b c d = some pt ↔ pt < 2 ^ 16 ∧ hexValue a = some (pt / 2 ^ 12) ∧
      hexValue b = some (pt / 2 ^ 8 % 16) ∧ hexValue c = some (pt / 2 ^ 4 % 16) ∧
      hexValue d = some (pt % 16) := by
  constructor
  · intro h
    simp only [codepoint, Option.bind_eq_bind, Option.bind_eq_some_iff, Option.pure_def,
      Option.some.injEq] at h
    obtain ⟨x, hx, y, hy, z, hz, w, hw, rfl⟩ := h
    have hlt := hexValue_lt hx
    have hlt' := hexValue_lt hy
    have hlt'' := hexValue_lt hz
    have hlt''' := hexValue_lt hw
    rw [hx, hy, hz, hw]
    refine ⟨?_, ?_, ?_, ?_, ?_⟩
    · omega
    all_goals
      congr 1
      omega
  · rintro ⟨hlt, ha, hb, hc, hd⟩
    rw [codepoint, ha, hb, hc, hd]
    simp only [Option.bind_eq_bind, Option.bind_some, Option.pure_def, Option.some.injEq]
    omega

end Escapes

section Characters

theorem or_high {b i : ℕ} (a : ℕ) (h : b < 2 ^ i) : b ||| 2 ^ i * a = b + 2 ^ i * a := by
  rw [Nat.lor_comm, ← Nat.two_pow_add_eq_or_of_lt h, Nat.add_comm]

theorem continuation (n : ℕ) : n % 2 ^ 6 ||| 0x80 = n % 64 + 128 :=
  or_high 2 (Nat.mod_lt n (by decide))

theorem encodeUtf8_eq {v : ℕ} (h : v < 0x110000) : encodeUtf8 v =
    if v < 0x80 then [UInt8.ofNat v]
    else if v < 0x800 then [UInt8.ofNat (v / 64 + 192), UInt8.ofNat (v % 64 + 128)]
    else if v < 0x10000 then
      [UInt8.ofNat (v / 4096 + 224), UInt8.ofNat (v / 64 % 64 + 128), UInt8.ofNat (v % 64 + 128)]
    else
      [UInt8.ofNat (v / 262144 + 240), UInt8.ofNat (v / 4096 % 64 + 128),
        UInt8.ofNat (v / 64 % 64 + 128), UInt8.ofNat (v % 64 + 128)] := by
  have htwo : ∀ n < 2 ^ 6, n ||| 0xC0 = n + 192 := fun n hn => or_high 3 hn
  have hthree : ∀ n < 2 ^ 5, n ||| 0xE0 = n + 224 := fun n hn => or_high 7 hn
  have hfour : ∀ n < 2 ^ 4, n ||| 0xF0 = n + 240 := fun n hn => or_high 15 hn
  unfold encodeUtf8
  simp only [continuation]
  split_ifs
  · rfl
  · rw [htwo _ (by omega)]
    rfl
  · rw [hthree _ (by omega)]
    rfl
  · rw [hfour _ (by omega)]
    rfl

theorem encodeUtf8_injective {v w : ℕ} (hv : v < 0x110000) (hw : w < 0x110000)
    (h : encodeUtf8 v = encodeUtf8 w) : v = w := by
  have hbytes := congrArg (List.map UInt8.toNat) h
  rw [encodeUtf8_eq hv, encodeUtf8_eq hw] at hbytes
  split_ifs at hbytes
  all_goals simp only [List.map_cons, List.map_nil, List.cons.injEq, reduceCtorEq, and_false,
    UInt8.toNat_ofNat'] at hbytes
  all_goals omega

theorem toNat_valid (c : Char) : c.toNat < 0xD800 ∨ 0xDFFF < c.toNat ∧ c.toNat < 0x110000 :=
  c.valid

/-- The bytes of a character are those of its UTF-8 encoding. -/
theorem encodeUtf8_char (c : Char) : encodeUtf8 c.toNat = String.utf8EncodeChar c := by
  have hvalid := toNat_valid c
  rw [encodeUtf8_eq (by omega)]
  unfold String.utf8EncodeChar
  unfold Char.toNat at hvalid ⊢
  generalize c.val.toNat = v at hvalid
  dsimp only
  by_cases h₁ : v < 0x80
  · rw [if_pos h₁, if_pos (by omega)]
  by_cases h₂ : v < 0x800
  · rw [if_neg h₁, if_pos h₂, if_neg (by omega), if_pos (by omega),
      Nat.mod_eq_of_lt (by omega : v / 64 < 32)]
  by_cases h₃ : v < 0x10000
  · rw [if_neg h₁, if_neg h₂, if_pos h₃, if_neg (by omega), if_neg (by omega), if_pos (by omega),
      Nat.mod_eq_of_lt (by omega : v / 4096 < 16)]
  · rw [if_neg h₁, if_neg h₂, if_neg h₃, if_neg (by omega), if_neg (by omega), if_neg (by omega),
      Nat.mod_eq_of_lt (by omega : v / 262144 < 8)]

/-- An escaped surrogate on its own gives bytes that no character has. -/
theorem encodeUtf8_surrogate {pt : ℕ} (h : isLead pt = true ∨ isTrail pt = true) (c : Char) :
    encodeUtf8 pt ≠ String.utf8EncodeChar c := by
  have hvalid := toNat_valid c
  simp only [isLead, isTrail, Bool.and_eq_true, decide_eq_true_eq] at h
  intro heq
  rw [← encodeUtf8_char] at heq
  have hpt := encodeUtf8_injective (by omega) (by omega) heq
  omega

def utf16 (c : Char) : List ℕ :=
  if c.toNat < 0x10000 then [c.toNat]
  else [0xD800 + (c.toNat - 0x10000) / 0x400, 0xDC00 + (c.toNat - 0x10000) % 0x400]

theorem astral_eq (n m : ℕ) (h : m < 0x400) :
    astral (0xD800 + n) (0xDC00 + m) = 0x10000 + n * 0x400 + m := by
  have hor := Nat.two_pow_add_eq_or_of_lt (i := 10) h n
  unfold astral
  rw [Nat.add_sub_cancel_left, Nat.add_sub_cancel_left, Nat.mul_comm n, ← hor]
  omega

theorem decode_utf16 (c : Char) (ps : List Piece) :
    decodePieces ((utf16 c).map .code ++ ps) = String.utf8EncodeChar c ++ decodePieces ps := by
  have hvalid := toNat_valid c
  rw [← encodeUtf8_char]
  unfold utf16
  split_ifs with hplane
  · have hlead : isLead c.toNat = false := by
      simp only [isLead, Bool.and_eq_false_iff, decide_eq_false_iff_not]
      omega
    exact decode_code hlead ps
  · have hlast : (c.toNat - 0x10000) % 0x400 < 0x400 := Nat.mod_lt _ (by decide)
    have hpair : (isLead (0xD800 + (c.toNat - 0x10000) / 0x400) &&
        isTrail (0xDC00 + (c.toNat - 0x10000) % 0x400)) = true := by
      simp only [isLead, isTrail, Bool.and_eq_true, decide_eq_true_eq]
      omega
    have hpoint : 0x10000 + (c.toNat - 0x10000) / 0x400 * 0x400 + (c.toNat - 0x10000) % 0x400 =
        c.toNat := by
      omega
    change decodePieces (.code _ :: .code _ :: ps) = _
    rw [decodePieces, if_pos hpair, astral_eq _ _ hlast, hpoint]

theorem decode_plain (bs : Str) (ps : List Piece) :
    decodePieces (bs.map .plain ++ ps) = bs ++ decodePieces ps := by
  induction bs with
  | nil => rfl
  | cons b bs ih => exact congrArg (b :: ·) ih

/-- A text each of whose characters stands for itself or is escaped. -/
inductive Written : List Char → List Piece → Prop where
  | nil : Written [] []
  | raw (c : Char) {cs : List Char} {ps : List Piece} (tail : Written cs ps) :
      Written (c :: cs) ((String.utf8EncodeChar c).map .plain ++ ps)
  | escaped (c : Char) {cs : List Char} {ps : List Piece} (tail : Written cs ps) :
      Written (c :: cs) ((utf16 c).map .code ++ ps)

theorem decode_written {cs : List Char} {ps : List Piece} (h : Written cs ps) :
    decodePieces ps = cs.flatMap String.utf8EncodeChar := by
  induction h with
  | nil => rfl
  | raw c tail ih => rw [decode_plain, ih, List.flatMap_cons]
  | escaped c tail ih => rw [decode_utf16, ih, List.flatMap_cons]

/-- `parse_string` reads a Unicode text as its UTF-8 encoding. -/
theorem parseString_written {cs : List Char} {ps : List Piece} {t : Str} (hcs : Written cs ps)
    (ht : Spelt ps t) (rest : Str) :
    parseString (t ++ 34 :: rest) = .ok (cs.flatMap String.utf8EncodeChar, rest) := by
  have hparse := parseString_spelt ht none [] rest
  rw [← decode_written hcs]
  exact hparse

end Characters

section Integers

theorem decimalValue_concat (t : Str) (d : UInt8) :
    decimalValue (t ++ [d]) = 10 * decimalValue t + (d.toNat - 48) := by
  simp only [decimalValue, digitValues, List.map_append, List.map_singleton, valueBE_concat]
  omega

theorem digit_bounds {c : UInt8} (h : isDigit c = true) : 48 ≤ c.toNat ∧ c.toNat ≤ 57 := by
  simpa [isDigit, UInt8.le_iff_toNat_le] using h

theorem decimalValue_pos {c : UInt8} (hc : isDigit c = true) (nonzero : c ≠ 48) (t : Str) :
    0 < decimalValue (c :: t) := by
  have hbounds := digit_bounds hc
  have hne : c.toNat ≠ 48 := fun h => nonzero (UInt8.toNat_inj.1 h)
  rw [decimalValue, digitValues, List.map_cons, valueBE_cons]
  have hpow : 0 < 10 ^ (t.map fun c => c.toNat - 48).length := Nat.pow_pos (by decide)
  have hfirst := Nat.mul_pos (by omega : 0 < c.toNat - 48) hpow
  omega

theorem numeral_of_digits {c : UInt8} (hc : isDigit c = true) (nonzero : c ≠ 48) {t : Str}
    (ht : Digits t) : c :: t = lit (toString (decimalValue (c :: t))) := by
  have hbyte : ∀ d, isDigit d = true → UInt8.ofNat (48 + (d.toNat - 48)) = d := by
    intro d hd
    rw [Nat.add_sub_cancel' (digit_bounds hd).1, UInt8.ofNat_toNat]
  induction t using List.reverseRecOn with
  | nil =>
    have hbounds := digit_bounds hc
    have hvalue : decimalValue [c] = c.toNat - 48 := Nat.zero_add _
    rw [hvalue, lit_repr, if_pos (by omega), hbyte c hc]
  | append_singleton t d ih =>
    have hd : isDigit d = true := ht d (by simp)
    have hbounds := digit_bounds hd
    have hpos := decimalValue_pos hc nonzero t
    rw [← List.cons_append, decimalValue_concat, lit_repr, if_neg (by omega),
      Nat.mul_add_div (by decide), Nat.mul_add_mod, Nat.div_eq_of_lt (by omega), Nat.add_zero,
      Nat.mod_eq_of_lt (by omega), hbyte d hd, ← ih fun e he => ht e (by simp [he])]

theorem integerText_eq {t : Str} (h : IntegerText t) : t = lit (toString (decimalValue t)) := by
  cases h with
  | zero => rfl
  | digits hc nonzero ht => exact numeral_of_digits hc nonzero ht

theorem digits_of_integerText {t : Str} (h : IntegerText t) : Digits t := by
  cases h with
  | zero => simp [Digits, isDigit]
  | digits hc _ ht => exact ht.cons hc

theorem decimalValue_lt {t : Str} (h : Digits t) : decimalValue t < 10 ^ t.length := by
  have hlt := valueBE_lt (by norm_num : 1 < 10) (digitValues_lt h)
  rwa [digitValues, List.length_map] at hlt

/-- A short integer is the numeral of its value, but for a negative zero, and `atoi`
does not overflow on it. -/
theorem atoi_short {sign digits : Str} (hsign : sign = [] ∨ sign = [45])
    (hdigits : IntegerText digits) (h : (sign ++ digits).length ≤ 9) :
    (sign ++ digits = lit (toString (atoi (sign ++ digits))) ∨ sign ++ digits = lit "-0") ∧
      (atoi (sign ++ digits)).natAbs < 10 ^ 9 := by
  have hnumeral := integerText_eq hdigits
  have hlength : digits.length ≤ 9 := (Nat.le_add_left _ _).trans (List.length_append ▸ h)
  have hlt : decimalValue digits < 10 ^ 9 :=
    (decimalValue_lt (digits_of_integerText hdigits)).trans_le
      (Nat.pow_le_pow_right (by decide) hlength)
  rcases hsign with rfl | rfl
  · rw [List.nil_append, hdigits.atoi_eq]
    exact ⟨Or.inl hnumeral, hlt⟩
  · have hatoi : atoi ([45] ++ digits) = -(decimalValue digits : ℤ) := rfl
    rw [hatoi, Int.natAbs_neg, Int.natAbs_natCast]
    refine ⟨?_, hlt⟩
    by_cases hzero : decimalValue digits = 0
    · rw [hzero] at hnumeral
      exact Or.inr (hnumeral ▸ rfl)
    · left
      rw [lit_int, if_pos (by omega), Int.natAbs_neg, Int.natAbs_natCast, ← hnumeral]

end Integers

section Members

theorem lookup_cons_if (key : Str) (f : Str × Json) (fields : List (Str × Json)) :
    (f :: fields).lookup key = if key = f.1 then some f.2 else fields.lookup key := by
  by_cases h : key = f.1
  · rw [if_pos h, List.lookup_cons, beq_iff_eq.2 h]
  · rw [if_neg h, List.lookup_cons, beq_eq_false_iff_ne.2 h]

theorem lookup_setField (fields : List (Str × Json)) (f : Str × Json) (key : Str) :
    (setField fields f).lookup key = (f :: fields).lookup key := by
  induction fields with
  | nil => rfl
  | cons g fields ih =>
    rw [setField]
    split_ifs with hless heq
    · rfl
    · simp only [lookup_cons_if, heq]
      split_ifs <;> rfl
    · simp only [lookup_cons_if] at ih ⊢
      rw [ih]
      split_ifs with hg hf
      · exact absurd (hf.symm.trans hg) heq
      all_goals rfl

theorem lookup_members (members before : List (Str × Json)) (key : Str) :
    (members.foldl setField before).lookup key =
      (members.reverse ++ before).lookup key := by
  induction members generalizing before with
  | nil => rfl
  | cons m members ih =>
    rw [List.foldl_cons, ih, List.reverse_cons, List.append_assoc, List.singleton_append,
      List.lookup_append, List.lookup_append, lookup_setField]

/-- The last member with a key is the one that `operator[]` finds. -/
theorem field_members (members : List (Str × Json)) (key : String) :
    (Json.object (members.foldl setField [])).field key =
      (members.reverse.lookup (lit key)).getD .null := by
  rw [Json.field, lookup_members, List.append_nil]

theorem mem_keys_setField {fields : List (Str × Json)} {f : Str × Json} {key : Str}
    (h : key ∈ (setField fields f).map Prod.fst) : key = f.1 ∨ key ∈ fields.map Prod.fst := by
  induction fields with
  | nil => simpa [setField] using h
  | cons g fields ih =>
    rw [setField] at h
    split_ifs at h with hless heq
    · simpa using h
    · simp_all
    · simp only [List.map_cons, List.mem_cons] at h ⊢
      tauto

theorem keys_setField {fields : List (Str × Json)} (f : Str × Json)
    (h : (fields.map Prod.fst).Pairwise (· < ·)) :
    ((setField fields f).map Prod.fst).Pairwise (· < ·) := by
  induction fields with
  | nil => simp [setField]
  | cons g fields ih =>
    rw [List.map_cons, List.pairwise_cons] at h
    obtain ⟨hfirst, htail⟩ := h
    rw [setField]
    split_ifs with hless heq
    · rw [List.map_cons, List.map_cons]
      refine List.pairwise_cons.2 ⟨?_, List.pairwise_cons.2 ⟨hfirst, htail⟩⟩
      intro key hkey
      rcases List.mem_cons.1 hkey with rfl | hkey
      · exact hless
      · exact List.lt_trans hless (hfirst key hkey)
    · rw [List.map_cons, heq]
      exact List.pairwise_cons.2 ⟨hfirst, htail⟩
    · have hlater : g.1 < f.1 := Std.lt_of_le_of_ne (List.not_lt.1 hless) (Ne.symm heq)
      rw [List.map_cons, List.pairwise_cons]
      refine ⟨?_, ih htail⟩
      intro key hkey
      rcases mem_keys_setField hkey with rfl | hkey
      · exact hlater
      · exact hfirst key hkey

theorem keys_members (members : List (Str × Json)) :
    ((members.foldl setField []).map Prod.fst).Pairwise (· < ·) := by
  induction members using List.reverseRecOn with
  | nil => exact List.Pairwise.nil
  | append_singleton members m ih =>
    rw [List.foldl_append]
    exact keys_setField m ih

end Members

end PolkadotApi.JsonMeanings
