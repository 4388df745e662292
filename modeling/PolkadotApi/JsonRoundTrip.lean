import PolkadotApi.JsonGrammar

set_option autoImplicit false

namespace PolkadotApi.JsonRoundTrip
open StreamReader TextGrammar HexText MachineModel Converters JsonValues DecimalTexts JsonText
open JsonStrings JsonNumbers JsonNesting JsonGrammar PositionalNumerals

section Numbers

theorem lit_append (s t : String) : lit (s ++ t) = lit s ++ lit t := by
  simp [lit]

theorem digitByte {d : ℕ} (h : d < 10) :
    UInt8.ofNat (Nat.digitChar d).toNat = UInt8.ofNat (48 + d) := by
  interval_cases d <;> rfl

theorem lit_repr (n : ℕ) : lit (toString n) =
    if n < 10 then [UInt8.ofNat (48 + n)]
    else lit (toString (n / 10)) ++ [UInt8.ofNat (48 + n % 10)] := by
  have hbytes : ∀ m : ℕ, lit (toString m) =
      (Nat.toDigits 10 m).map fun c => UInt8.ofNat c.toNat := by
    intro m
    rw [lit, Nat.toString_eq_repr, Nat.toList_repr]
  rw [hbytes, hbytes]
  split_ifs with h
  · rw [Nat.toDigits_of_lt_base h, List.map_singleton, digitByte h]
  · rw [Nat.toDigits_of_base_le (by decide) (by omega), List.map_append, List.map_singleton,
      digitByte (Nat.mod_lt n (by decide))]

theorem toNat_digit {d : ℕ} (h : d < 10) : (UInt8.ofNat (48 + d)).toNat = 48 + d := by
  rw [UInt8.toNat_ofNat']
  omega

theorem isDigit_digit {d : ℕ} (h : d < 10) : isDigit (UInt8.ofNat (48 + d)) = true := by
  interval_cases d <;> rfl

theorem digits_repr (n : ℕ) : Digits (lit (toString n)) ∧ decimalValue (lit (toString n)) = n := by
  induction n using Nat.strong_induction_on with
  | _ n ih =>
    rw [lit_repr]
    split_ifs with h
    · refine ⟨?_, ?_⟩
      · intro c hc
        rw [List.mem_singleton.1 hc]
        exact isDigit_digit h
      · simp only [decimalValue, digitValues, List.map_singleton, toNat_digit h, valueBE,
          List.foldl_cons, List.foldl_nil]
        omega
    · have hlast : n % 10 < 10 := Nat.mod_lt n (by decide)
      obtain ⟨hdigits, hvalue⟩ := ih (n / 10) (by omega)
      refine ⟨?_, ?_⟩
      · intro c hc
        rcases List.mem_append.1 hc with hc | hc
        · exact hdigits c hc
        · rw [List.mem_singleton.1 hc]
          exact isDigit_digit hlast
      · unfold decimalValue digitValues at hvalue ⊢
        rw [List.map_append, List.map_singleton, valueBE_concat, hvalue, toNat_digit hlast]
        omega

theorem integerText_repr (n : ℕ) : IntegerText (lit (toString n)) := by
  by_cases hn : n = 0
  · subst hn
    exact .zero
  · have hfirst : ∀ m : ℕ, m ≠ 0 → ∃ c t, lit (toString m) = c :: t ∧ c ≠ 48 := by
      intro m
      induction m using Nat.strong_induction_on with
      | _ m ih =>
        intro hm
        rw [lit_repr]
        split_ifs with h
        · refine ⟨_, [], rfl, ?_⟩
          intro hzero
          have hnat := congrArg UInt8.toNat hzero
          rw [toNat_digit h] at hnat
          change 48 + m = 48 at hnat
          omega
        · obtain ⟨c, t, hct, hc⟩ := ih (m / 10) (by omega) (by omega)
          exact ⟨c, _, by rw [hct, List.cons_append], hc⟩
    obtain ⟨c, t, hct, hc⟩ := hfirst n hn
    have hdigits := (digits_repr n).1
    rw [hct] at hdigits ⊢
    exact .digits (hdigits c List.mem_cons_self) hc fun d hd => hdigits d (List.mem_cons_of_mem c hd)

theorem lit_int (n : ℤ) : lit (toString n) =
    (if n < 0 then [45] else []) ++ lit (toString n.natAbs) := by
  cases n with
  | ofNat m => rfl
  | negSucc m =>
    rw [if_pos (Int.negSucc_lt_zero m), Int.natAbs_negSucc]
    change lit ("-" ++ toString (m + 1)) = _
    rw [lit_append]
    rfl

theorem atoi_int (n : ℤ) : atoi (lit (toString n)) = n := by
  rw [lit_int]
  obtain ⟨-, hvalue⟩ := digits_repr n.natAbs
  split_ifs with h
  · change -(decimalValue (lit (toString n.natAbs)) : ℤ) = n
    rw [hvalue]
    omega
  · rw [List.nil_append, (integerText_repr n.natAbs).atoi_eq, hvalue]
    omega

theorem numberText_int {toInt : Str → ℤ} {n : ℤ} (h : toInt (lit (toString n)) = n) :
    NumberText toInt (lit (toString n)) n := by
  have hsign : ∀ b : Prop, [Decidable b] → ((if b then [45] else [] : Str) = [] ∨
      (if b then [45] else [] : Str) = [45]) := by
    intro b _
    split_ifs
    · exact Or.inr rfl
    · exact Or.inl rfl
  by_cases hlength : (lit (toString n)).length ≤ 9
  · have hshort : NumberText toInt _ _ := .short (hsign (n < 0)) (integerText_repr n.natAbs)
      (by rwa [← lit_int])
    rwa [← lit_int, atoi_int] at hshort
  · have hlong : NumberText toInt _ _ := .long (hsign (n < 0)) (integerText_repr n.natAbs)
      .none .none (fun hle => absurd (by rwa [← lit_int] at hle) hlength)
    simp only [List.append_nil] at hlong
    rwa [← lit_int, h] at hlong

end Numbers

section Strings

theorem decode_code {pt : ℕ} (h : isLead pt = false) (ps : List Piece) :
    decodePieces (.code pt :: ps) = encodeUtf8 pt ++ decodePieces ps := by
  cases ps with
  | nil => exact (List.append_nil _).symm
  | cons p ps =>
    cases p with
    | plain c => rfl
    | code b =>
      rw [decodePieces, h, Bool.false_and, if_neg (by decide)]

theorem control_escape {c : UInt8} (h : c ≤ 0x1F) :
    codepoint 48 48 (Json.hexDigit (c.toNat / 16)) (Json.hexDigit (c.toNat % 16)) =
        some c.toNat ∧ isLead c.toNat = false ∧ encodeUtf8 c.toNat = [c] := by
  have hle : c.toNat ≤ 31 := h
  obtain ⟨n, hn, rfl⟩ : ∃ n ≤ 31, c = UInt8.ofNat n := ⟨c.toNat, hle, by simp⟩
  interval_cases n <;> decide

theorem spelt_escape (s : Str) : ∃ ps, Spelt ps (Json.escape s) ∧ decodePieces ps = s := by
  fun_induction Json.escape s with
  | case1 => exact ⟨[], .nil, rfl⟩
  | case2 t ih =>
    obtain ⟨ps, hps, rfl⟩ := ih
    refine ⟨.code 0x2028 :: ps, .code (by decide) hps, ?_⟩
    rw [decode_code (by decide)]
    rfl
  | case3 t ih =>
    obtain ⟨ps, hps, rfl⟩ := ih
    refine ⟨.code 0x2029 :: ps, .code (by decide) hps, ?_⟩
    rw [decode_code (by decide)]
    rfl
  | case4 c t _ _ ih =>
    obtain ⟨ps, hps, rfl⟩ := ih
    split_ifs with h₁ h₂ h₃ h₄ h₅ h₆ h₇ hcontrol
    · exact ⟨.plain 92 :: ps, .short (by decide) hps, by rw [h₁]; rfl⟩
    · exact ⟨.plain 34 :: ps, .short (by decide) hps, by rw [h₂]; rfl⟩
    · exact ⟨.plain 8 :: ps, .short (by decide) hps, by rw [h₃]; rfl⟩
    · exact ⟨.plain 12 :: ps, .short (by decide) hps, by rw [h₄]; rfl⟩
    · exact ⟨.plain 10 :: ps, .short (by decide) hps, by rw [h₅]; rfl⟩
    · exact ⟨.plain 13 :: ps, .short (by decide) hps, by rw [h₆]; rfl⟩
    · exact ⟨.plain 9 :: ps, .short (by decide) hps, by rw [h₇]; rfl⟩
    · obtain ⟨hcode, hlead, hbytes⟩ := control_escape hcontrol
      refine ⟨.code c.toNat :: ps, .code hcode hps, ?_⟩
      rw [decode_code hlead, hbytes]
      rfl
    · exact ⟨.plain c :: ps, .raw hcontrol h₂ h₁ hps, rfl⟩

theorem stringText_dump (s : Str) : StringText (Json.escape s ++ [34]) s := by
  obtain ⟨ps, hps, hs⟩ := spelt_escape s
  exact ⟨ps, _, rfl, hps, hs.symm⟩

end Strings

section Values

/-- Values of json11 without doubles: an `int`, keys in the order of a map, and no more
levels than given. -/
def Fits : ℕ → Json → Prop
  | 0, _ => False
  | _ + 1, .number n => -2 ^ 31 ≤ n ∧ n < 2 ^ 31
  | levels + 1, .array items => ∀ x ∈ items, Fits levels x
  | levels + 1, .object fields =>
    (fields.map Prod.fst).Pairwise (· < ·) ∧ ∀ f ∈ fields, Fits levels f.2
  | _ + 1, _ => True

variable {V : Str → Json → Prop}

theorem space_gap : Gap isWhitespace [32] := by
  simp [Gap, isWhitespace]

/-- The items of an array; the blank after a comma belongs to the next item. -/
theorem separated_items {items : List Json} (hne : items ≠ [])
    (h : ∀ x ∈ items, V (Json.dump x) x) :
    arrayLayout.Separated (Padded isWhitespace V) (Json.dumpItems items) items := by
  induction items with
  | nil => exact absurd rfl hne
  | cons x items ih =>
    have hx := padded_of (h x List.mem_cons_self)
    cases items with
    | nil =>
      have hlast := Layout.Separated.last (L := arrayLayout) (w := []) hx (by simp [Gap])
      rwa [List.append_nil] at hlast
    | cons y items =>
      have htail := ih (List.cons_ne_nil y items) fun z hz => h z (List.mem_cons_of_mem x hz)
      have hpadded : arrayLayout.Separated (Padded isWhitespace V)
          ([32] ++ Json.dumpItems (y :: items)) (y :: items) :=
        htail.pad (fun _ _ _ hw ht => ht.pad hw) space_gap
      have hnext := Layout.Separated.next (L := arrayLayout) (w := []) hx (by simp [Gap]) hpadded
      have htext : Json.dumpItems (x :: y :: items) =
          Json.dump x ++ ([] ++ 44 :: ([32] ++ Json.dumpItems (y :: items))) := by
        rw [Json.dumpItems]
        · simp [lit]
        · simp
      rw [htext]
      exact hnext

theorem memberText_dump (key : Str) {x : Json} (h : V (Json.dump x) x) :
    MemberText V (Json.dumpString key ++ lit ": " ++ Json.dump x) (key, x) := by
  refine ⟨[], Json.escape key ++ [34], [], [32] ++ Json.dump x, ?_, by simp [Gap],
    stringText_dump key, by simp [Gap], (padded_of h).pad space_gap⟩
  simp [Json.dumpString, lit]

theorem separated_fields {fields : List (Str × Json)} (hne : fields ≠ [])
    (h : ∀ f ∈ fields, V (Json.dump f.2) f.2) :
    objectLayout.Separated (MemberText V) (Json.dumpFields fields) fields := by
  induction fields with
  | nil => exact absurd rfl hne
  | cons f fields ih =>
    obtain ⟨key, x⟩ := f
    have hx := memberText_dump key (h (key, x) List.mem_cons_self)
    cases fields with
    | nil =>
      have hlast := Layout.Separated.last (L := objectLayout) (w := []) hx (by simp [Gap])
      rwa [List.append_nil] at hlast
    | cons g fields =>
      have htail := ih (List.cons_ne_nil g fields) fun z hz => h z (List.mem_cons_of_mem _ hz)
      have hpadded : objectLayout.Separated (MemberText V)
          ([32] ++ Json.dumpFields (g :: fields)) (g :: fields) :=
        htail.pad (fun _ _ _ hw ht => object_elements.pad hw ht) space_gap
      have hnext := Layout.Separated.next (L := objectLayout) (w := []) hx (by simp [Gap]) hpadded
      have htext : Json.dumpFields ((key, x) :: g :: fields) =
          Json.dumpString key ++ lit ": " ++ Json.dump x ++
            ([] ++ 44 :: ([32] ++ Json.dumpFields (g :: fields))) := by
        rw [Json.dumpFields]
        · simp [lit]
        · simp
      rw [htext]
      exact hnext

theorem setField_concat {fields : List (Str × Json)} {f : Str × Json}
    (h : ∀ g ∈ fields, g.1 < f.1) : setField fields f = fields ++ [f] := by
  induction fields with
  | nil => rfl
  | cons g fields ih =>
    have hg := h g List.mem_cons_self
    have hne : f.1 ≠ g.1 := by
      intro heq
      rw [heq] at hg
      exact List.lt_irrefl _ hg
    rw [setField, if_neg (List.lt_asymm hg), if_neg hne,
      ih fun k hk => h k (List.mem_cons_of_mem g hk), List.cons_append]

theorem foldl_setField (before : List (Str × Json)) {fields : List (Str × Json)}
    (h : ((before ++ fields).map Prod.fst).Pairwise (· < ·)) :
    fields.foldl setField before = before ++ fields := by
  induction fields generalizing before with
  | nil => exact (List.append_nil before).symm
  | cons f fields ih =>
    have hless : ∀ g ∈ before, g.1 < f.1 := by
      intro g hg
      rw [List.map_append, List.pairwise_append] at h
      exact h.2.2 _ (List.mem_map_of_mem hg) _ (by simp)
    rw [List.foldl_cons, setField_concat hless, ih _ (by simpa using h), List.append_assoc,
      List.singleton_append]

theorem nestedText_dump {toInt : Str → ℤ}
    (htoInt : ∀ n : ℤ, -2 ^ 31 ≤ n → n < 2 ^ 31 → toInt (lit (toString n)) = n) {levels : ℕ}
    {j : Json} (h : Fits levels j) : NestedText toInt levels (Json.dump j) j := by
  induction levels generalizing j with
  | zero => cases h
  | succ levels ih =>
    change ValueText toInt (NestedText toInt levels) (Json.dump j) j
    cases j with
    | null =>
      rw [Json.dump]
      exact .null
    | bool b =>
      rw [Json.dump]
      cases b with
      | true => exact .yes
      | false => exact .no
    | number n =>
      rw [Json.dump]
      exact .number (numberText_int (htoInt n h.1 h.2))
    | string s =>
      rw [Json.dump]
      exact .string (stringText_dump s)
    | array items =>
      rw [Json.dump]
      cases items with
      | nil => exact .array (t := []) (.empty (by simp [Gap]))
      | cons x items =>
        exact .array (.filled (separated_items (List.cons_ne_nil x items) fun y hy => ih (h y hy)))
    | object fields =>
      obtain ⟨hsorted, hfields⟩ := h
      rw [Json.dump]
      cases fields with
      | nil => exact .object (t := []) (.empty (by simp [Gap]))
      | cons f fields =>
        have hobject : ValueText toInt (NestedText toInt levels) _ _ :=
          .object (.filled (separated_fields (List.cons_ne_nil f fields)
            fun g hg => ih (hfields g hg)))
        rw [foldl_setField [] (by simpa using hsorted)] at hobject
        exact hobject

end Values

theorem jsonDocument_dump {toInt : Str → ℤ}
    (htoInt : ∀ n : ℤ, -2 ^ 31 ≤ n → n < 2 ^ 31 → toInt (lit (toString n)) = n) {j : Json}
    (hj : Fits (maxDepth + 1) j) : JsonDocument toInt (Json.dump j) j :=
  ⟨Json.dump j, [], (List.append_nil _).symm, by simp [Gap],
    padded_of (nestedText_dump htoInt hj)⟩

/-- `Json::parse` gives back every value that `dump` has written. -/
theorem parse_dump {toInt : Str → ℤ}
    (htoInt : ∀ n : ℤ, -2 ^ 31 ≤ n → n < 2 ^ 31 → toInt (lit (toString n)) = n) {j : Json}
    (hj : Fits (maxDepth + 1) j) : parse toInt (Json.dump j) = .ok j := by
  rw [parse_eq_ok_iff]
  exact jsonDocument_dump htoInt hj

def sampleRequest : Json :=
  .object [(lit "id", .number 2147483647), (lit "method", .string (lit "a\"\\\n")),
    (lit "params", .array [.number (-5), .null, .object []])]

theorem parse_dump_sampleRequest :
    Fits (maxDepth + 1) sampleRequest ∧ parse atoi (Json.dump sampleRequest) = .ok sampleRequest := by
  have hfits : Fits (maxDepth + 1) sampleRequest := by
    simp [maxDepth, sampleRequest, Fits]
    decide
  exact ⟨hfits, parse_dump (fun n _ _ => atoi_int n) hfits⟩

end PolkadotApi.JsonRoundTrip
