import PolkadotApi.ScaleRoundTrip

set_option autoImplicit false

namespace PolkadotApi.CompactReading
open StreamReader HexText MachineModel ScaleCodec ScaleRoundTrip

section Complete

inductive Compact : List UInt8 → ℕ → Prop where
  | single {b : UInt8} (mode : b.toNat % 4 = 0) : Compact [b] (valueLE [b] / 4)
  | double {b c : UInt8} (mode : b.toNat % 4 = 1) : Compact [b, c] (valueLE [b, c] / 4)
  | quad {b : UInt8} {bs : List UInt8} (mode : b.toNat % 4 = 2) (count : bs.length = 3) :
      Compact (b :: bs) (valueLE (b :: bs) / 4)
  | big {b : UInt8} {bs : List UInt8} (mode : b.toNat % 4 = 3)
      (count : bs.length = b.toNat / 4 + 4) : Compact (b :: bs) (valueLE bs)

theorem valueLE_nil : valueLE [] = 0 := rfl

theorem decodes_complete (R : Script) {bs : List UInt8} {n : ℕ} (h : Compact bs n)
    (hn : n < 2 ^ 63) : Decodes R decodeCompactInteger bs n := by
  cases h with
  | @single b mode =>
    have hd := decodes_single R mode
    rwa [show b.toNat / 4 = valueLE [b] / 4 by rw [valueLE_cons, valueLE_nil]; omega] at hd
  | @double b c mode =>
    have hd := decodes_double R (c := c) mode
    have hv : b.toNat / 4 + 64 * c.toNat = valueLE [b, c] / 4 := by
      rw [valueLE_cons, valueLE_cons, valueLE_nil]
      omega
    rwa [hv] at hd
  | @quad b bs mode count =>
    have hd := decodes_quad R b bs mode count
    rwa [← valueLE_cons] at hd
  | @big b bs mode count =>
    have hd := decodes_big R b bs mode count
    rwa [asLong_of_small hn] at hd

theorem decodeCompactInteger_complete {bs : List UInt8} {n : ℕ} (h : Compact bs n)
    (hn : n < 2 ^ 63) {text : Str} (ht : Spells bs text) (rest : Str) :
    decodeCompactInteger (m := Reader) (text ++ rest) = .ok ((n : ℤ), rest) :=
  decodes_complete anyCase h hn text rest ht

/-- The value five in big-integer mode, one byte more than it needs. -/
theorem decodeCompactInteger_complete_long :
    decodeCompactInteger (m := Reader) (upperText [7, 5, 0, 0, 0, 0] ++ lit "zz") =
      .ok (5, lit "zz") :=
  decodeCompactInteger_complete (.big (by decide) (by decide)) (by decide)
    (DigitSet.upper.spells_text _) (lit "zz")

end Complete

section Pairs

def IsHex (c : UInt8) : Prop := (hexValue c).isSome

instance (c : UInt8) : Decidable (IsHex c) := inferInstanceAs (Decidable (_ = true))

def HexPair (c d : UInt8) : Prop := IsHex c ∧ IsHex d

def Readable (c d : UInt8) : Prop :=
  IsHex c ∨ ((isSpace c ∨ c = 43 ∨ c = 45) ∧ IsHex d)

def Pairs (P : UInt8 → UInt8 → Prop) : ℕ → Str → Prop
  | 0, _ => True
  | n + 1, c :: d :: s => P c d ∧ Pairs P n s
  | _ + 1, _ => False

theorem pairs_add (P : UInt8 → UInt8 → Prop) (m n : ℕ) (s : Str) :
    Pairs P (m + n) s ↔ Pairs P m s ∧ Pairs P n (s.drop (2 * m)) := by
  induction m generalizing s with
  | zero => simp [Pairs]
  | succ m ih =>
    rw [Nat.add_right_comm]
    match s with
    | [] => simp [Pairs]
    | [c] => simp [Pairs]
    | c :: d :: s =>
      rw [Pairs, Pairs, ih, and_assoc, Nat.mul_succ]
      rfl

theorem digitsValue_lt (s : Str) (v : ℕ) : (digitsValue s v).1 < 16 ^ s.length * (v + 1) := by
  induction s generalizing v with
  | nil => simp [digitsValue]
  | cons c s ih =>
    have hpow : 0 < 16 ^ s.length := by positivity
    rw [digitsValue, List.length_cons, pow_succ]
    cases hc : hexValue c with
    | none =>
      change v < _
      nlinarith
    | some d =>
      have hd := hexValue_lt hc
      have hs := ih (v * 16 + d)
      change (digitsValue s (v * 16 + d)).1 < _
      calc
        _ < 16 ^ s.length * (v * 16 + d + 1) := hs
        _ ≤ 16 ^ s.length * (16 * (v + 1)) := Nat.mul_le_mul_left _ (by omega)
        _ = _ := by ring

theorem digitsValue_count (s : Str) (v : ℕ) :
    (digitsValue s v).2 = 0 ↔ (s.head?.bind hexValue) = none := by
  cases s with
  | nil => simp [digitsValue]
  | cons c s => cases hc : hexValue c <;> simp [digitsValue, hc]

theorem dropBase_short {s : Str} (h : s.length ≤ 2) : dropBase s = s := by
  unfold dropBase
  split
  · simp at h
  · rfl

/-- The sign that `stoul` takes off, and what follows it. -/
def signOf (t : Str) : Bool × Str :=
  match t with
  | 43 :: r => (false, r)
  | 45 :: r => (true, r)
  | _ => (false, t)

theorem signOf_length (t : Str) : (signOf t).2.length ≤ t.length := by
  unfold signOf
  split <;> simp

theorem stoul_short {s : Str} (h : s.length ≤ 2) :
    if ((signOf (s.dropWhile isSpace)).2.head?.bind hexValue) = none
    then stoul s = throwing .invalidArgument else ∃ n, stoul s = .ok n := by
  have hdrop : (s.dropWhile isSpace).length ≤ s.length := List.length_dropWhile_le _ _
  have hlen := signOf_length (s.dropWhile isSpace)
  have hbase := dropBase_short (s := (signOf (s.dropWhile isSpace)).2) (by omega)
  have hlt := digitsValue_lt (signOf (s.dropWhile isSpace)).2 0
  have hpow : 16 ^ (signOf (s.dropWhile isSpace)).2.length ≤ 16 ^ 2 :=
    Nat.pow_le_pow_right (by norm_num) (by omega)
  have hstoul : stoul s =
      if (digitsValue (dropBase (signOf (s.dropWhile isSpace)).2) 0).2 = 0 then
        throwing .invalidArgument
      else if 2 ^ 64 ≤ (digitsValue (dropBase (signOf (s.dropWhile isSpace)).2) 0).1 then
        throwing .outOfRange
      else .ok (if (signOf (s.dropWhile isSpace)).1 then
        (2 ^ 64 - (digitsValue (dropBase (signOf (s.dropWhile isSpace)).2) 0).1) % 2 ^ 64
        else (digitsValue (dropBase (signOf (s.dropWhile isSpace)).2) 0).1) := rfl
  rw [hbase] at hstoul
  split_ifs with hdigit
  · rw [hstoul, if_pos ((digitsValue_count _ 0).2 hdigit)]
  · rw [hstoul, if_neg (fun hc => hdigit ((digitsValue_count _ 0).1 hc)), if_neg (by omega)]
    exact ⟨_, rfl⟩

theorem signOf_other {c : UInt8} (hplus : c ≠ 43) (hminus : c ≠ 45) (t : Str) :
    signOf (c :: t) = (false, c :: t) := by
  unfold signOf
  split
  · simp_all
  · simp_all
  · rfl

theorem isHex_iff (c : UInt8) : IsHex c ↔ hexValue c ≠ none := Option.isSome_iff_ne_none

theorem IsHex.plain {c : UInt8} (h : IsHex c) : isSpace c = false ∧ c ≠ 43 ∧ c ≠ 45 := by
  obtain ⟨v, hv⟩ := Option.isSome_iff_exists.1 h
  exact hexValue_ne hv

/-- A last character counts when it is a digit: a blank or a sign leaves nothing to read. -/
theorem lastDigit_iff (d : UInt8) :
    (signOf ([d].dropWhile isSpace)).2.head?.bind hexValue ≠ none ↔ IsHex d := by
  rw [isHex_iff]
  by_cases hd : IsHex d
  · obtain ⟨hspace, hplus, hminus⟩ := hd.plain
    rw [List.dropWhile_cons_of_neg (by simp [hspace]), signOf_other hplus hminus]
    rfl
  · have hnone : hexValue d = none := by
      by_contra h
      exact hd ((isHex_iff d).2 h)
    cases hspace : isSpace d with
    | true =>
      rw [List.dropWhile_cons_of_pos hspace]
      simp [signOf, hnone]
    | false =>
      rw [List.dropWhile_cons_of_neg (by simp [hspace])]
      by_cases hplus : d = 43
      · simp [hplus, signOf, hexValue]
      · by_cases hminus : d = 45
        · simp [hminus, signOf, hexValue]
        · rw [signOf_other hplus hminus]
          rfl

theorem readable_iff (c d : UInt8) :
    (signOf ([c, d].dropWhile isSpace)).2.head?.bind hexValue ≠ none ↔ Readable c d := by
  by_cases hc : IsHex c
  · obtain ⟨hspace, hplus, hminus⟩ := hc.plain
    rw [List.dropWhile_cons_of_neg (by simp [hspace]), signOf_other hplus hminus]
    exact iff_of_true ((isHex_iff c).1 hc) (.inl hc)
  · have hloose : Readable c d ↔ (isSpace c ∨ c = 43 ∨ c = 45) ∧ IsHex d := by
      rw [Readable, or_iff_right hc]
    rw [hloose]
    cases hspace : isSpace c with
    | true =>
      rw [List.dropWhile_cons_of_pos hspace, lastDigit_iff]
      simp
    | false =>
      rw [List.dropWhile_cons_of_neg (by simp [hspace])]
      by_cases hplus : c = 43
      · simp [hplus, signOf, isHex_iff]
      · by_cases hminus : c = 45
        · simp [hminus, signOf, isHex_iff]
        · have hnone : hexValue c = none := by
            by_contra h
            exact hc ((isHex_iff c).2 h)
          rw [signOf_other hplus hminus]
          simp [hnone, hplus, hminus]

end Pairs

section Readers

variable {α β : Type}

/-- The reader takes exactly `n` pairs when all of them are readable, and throws otherwise. -/
def TakesPairs (r : Reader α) (n : ℕ) (s : Str) : Prop :=
  (Pairs Readable n s → ∃ a, r s = .ok (a, s.drop (2 * n))) ∧
    (¬ Pairs Readable n s → ∃ e, r s = throwing e)

theorem takesPairs_pure (a : α) (s : Str) : TakesPairs (pure a) 0 s :=
  ⟨fun _ => ⟨a, rfl⟩, fun h => absurd trivial h⟩

theorem takesPairs_nextByte (s : Str) : TakesPairs nextByte 1 s := by
  match s with
  | [] => exact ⟨fun h => h.elim, fun _ => ⟨.outOfRange, rfl⟩⟩
  | [c] => exact ⟨fun h => h.elim, fun _ => ⟨.outOfRange, rfl⟩⟩
  | c :: d :: s =>
    have hstoul := stoul_short (s := [c, d]) (by simp)
    rw [TakesPairs, nextByte_pair]
    constructor
    · rintro ⟨hcd, -⟩
      rw [if_neg ((readable_iff c d).2 hcd)] at hstoul
      obtain ⟨n, hn⟩ := hstoul
      rw [hn]
      exact ⟨_, rfl⟩
    · intro h
      have hcd : ¬ Readable c d := fun hr => h ⟨hr, trivial⟩
      rw [if_pos (by rwa [← readable_iff, not_not] at hcd)] at hstoul
      rw [hstoul]
      exact ⟨_, rfl⟩

theorem takesPairs_bind {p : Reader α} {f : α → Reader β} {m n : ℕ} {s : Str}
    (hp : TakesPairs p m s)
    (hf : ∀ a, p s = .ok (a, s.drop (2 * m)) → TakesPairs (f a) n (s.drop (2 * m))) :
    TakesPairs (p >>= f) (m + n) s := by
  rw [TakesPairs, pairs_add]
  by_cases hm : Pairs Readable m s
  · obtain ⟨a, ha⟩ := hp.1 hm
    rw [bind_ok ha, and_iff_right hm, Nat.mul_add, ← List.drop_drop]
    exact hf a ha
  · obtain ⟨e, he⟩ := hp.2 hm
    exact ⟨fun h => absurd h.1 hm, fun _ => ⟨e, bind_error he f⟩⟩

theorem takesPairs_map {p : Reader α} {n : ℕ} {s : Str} (hp : TakesPairs p n s) (f : α → β) :
    TakesPairs (p >>= fun a => pure (f a)) n s :=
  takesPairs_bind (n := 0) hp (fun a _ => takesPairs_pure (f a) _)

theorem takesPairs_extractBytes (n : ℕ) (s : Str) : TakesPairs (extractBytes n) n s := by
  induction n generalizing s with
  | zero => exact takesPairs_pure [] s
  | succ n ih =>
    rw [extractBytes_succ, Nat.add_comm]
    apply takesPairs_bind (takesPairs_nextByte s)
    intro c _
    exact takesPairs_map (ih _) (fun bytes => c :: bytes)

theorem takesPairs_addBytes (rounds number multiplier : ℕ) (s : Str) :
    TakesPairs (addBytes rounds number multiplier) rounds s := by
  induction rounds generalizing number multiplier s with
  | zero => exact takesPairs_pure number s
  | succ rounds ih =>
    rw [addBytes_succ, Nat.add_comm]
    apply takesPairs_bind (takesPairs_nextByte s)
    intro b _
    exact ih _ _ _

/-- How many bytes the first byte of a compact integer announces after itself. -/
def following (b : UInt8) : ℕ :=
  match b.toNat % 4 with
  | 0 => 0
  | 1 => 1
  | 2 => 3
  | _ => b.toNat / 4 + 4

theorem takesPairs_decodeFlag (b : UInt8) (s : Str) : TakesPairs (decodeFlag b) (following b) s := by
  have hmode : b.toNat % 4 = 0 ∨ b.toNat % 4 = 1 ∨ b.toNat % 4 = 2 ∨ b.toNat % 4 = 3 := by omega
  rcases hmode with h | h | h | h
  · simp only [decodeFlag, following, and_three, h]
    exact takesPairs_pure _ s
  · simp only [decodeFlag, following, and_three, h]
    exact takesPairs_map (takesPairs_nextByte s) _
  · simp only [decodeFlag, following, and_three, h]
    exact takesPairs_map (takesPairs_addBytes 3 _ _ s) _
  · simp only [decodeFlag, following, and_three, h, Nat.shiftRight_eq_div_pow]
    exact takesPairs_map (takesPairs_addBytes _ _ _ s) _

def announced (s : Str) : ℕ :=
  match nextByte (m := Reader) s with
  | .ok (b, _) => 1 + following b
  | .error _ => 1

theorem takesPairs_decodeCompactInteger (s : Str) :
    TakesPairs decodeCompactInteger (announced s) s := by
  by_cases hfirst : Pairs Readable 1 s
  · obtain ⟨b, hb⟩ := (takesPairs_nextByte s).1 hfirst
    rw [announced, hb]
    apply takesPairs_bind (takesPairs_nextByte s)
    intro c hc
    rw [hb] at hc
    cases hc
    exact takesPairs_decodeFlag b _
  · obtain ⟨e, he⟩ := (takesPairs_nextByte s).2 hfirst
    rw [announced, he]
    exact ⟨fun h => absurd h hfirst, fun _ => ⟨e, bind_error he _⟩⟩

/-- Success needs `n` pairs of hexadecimal digits, and without them the reader throws. -/
def RefusesMalformed (r : Reader α) (n : ℕ) (s : Str) : Prop :=
  (∀ a t, r s = .ok (a, t) → Pairs HexPair n s) ∧ (¬ Pairs HexPair n s → ∃ e, r s = throwing e)

theorem TakesPairs.refuses_iff {r : Reader α} {n : ℕ} {s : Str} (h : TakesPairs r n s) :
    RefusesMalformed r n s ↔ (Pairs Readable n s → Pairs HexPair n s) := by
  constructor
  · intro hrefuses hpairs
    obtain ⟨a, ha⟩ := h.1 hpairs
    exact hrefuses.1 a _ ha
  · intro hstrict
    constructor
    · intro a t ha
      apply hstrict
      by_contra hpairs
      obtain ⟨e, he⟩ := h.2 hpairs
      rw [ha] at he
      cases he
    · intro hhex
      exact h.2 (fun hpairs => hhex (hstrict hpairs))

end Readers

/-- Malformed text is refused exactly if `stoul` does not take one of its pairs for a byte:
a blank or a sign in front of a digit, or a digit with anything behind it. -/
theorem refusesMalformed_iff (s : Str) (len : ℤ) :
    (RefusesMalformed decodeCompactInteger (announced s) s ↔
      (Pairs Readable (announced s) s → Pairs HexPair (announced s) s)) ∧
    (RefusesMalformed (extractString len) (asInt len).toNat s ↔
      (Pairs Readable (asInt len).toNat s → Pairs HexPair (asInt len).toNat s)) :=
  ⟨(takesPairs_decodeCompactInteger s).refuses_iff,
    (takesPairs_extractBytes (asInt len).toNat s).refuses_iff⟩

/-- A plus sign and one digit pass for a byte. -/
theorem refusesMalformed_fails : ¬ ∀ (s : Str) (len : ℤ),
    RefusesMalformed decodeCompactInteger (announced s) s ∧
      RefusesMalformed (extractString len) (asInt len).toNat s := by
  intro h
  have hread : decodeCompactInteger (m := Reader) (lit "+4") = .ok (1, []) := by decide +kernel
  have hpairs := (h (lit "+4") 0).1.1 _ _ hread
  have hfirst : announced (lit "+4") = 1 := by decide +kernel
  rw [hfirst] at hpairs
  exact absurd hpairs.1.1 (by decide +kernel)

end PolkadotApi.CompactReading
