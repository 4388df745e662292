import PolkadotApi.JsonNesting

set_option autoImplicit false

/-!
The grammar is the one of JSON, with what json11 makes of the freedom it leaves: the last
one of several members with one key counts, and values nest at most 201 deep.
-/
namespace PolkadotApi.JsonGrammar
open StreamReader TextGrammar MachineModel Converters JsonValues JsonText JsonNumbers JsonNesting

section Messages

/-- A failure leaves a message, by which the callers know it. -/
def Tells {α : Type} (p : Parser α) : Prop := Raises p fun e => e ≠ []

theorem tells_fail {α : Type} {msg : Str} (h : msg ≠ []) : Tells (fail msg : Parser α) := by
  rintro s e ⟨⟩
  exact h

theorem append_ne_nil {s : Str} (h : s ≠ []) (t : Str) : s ++ t ≠ [] :=
  List.append_ne_nil_of_left_ne_nil h t

theorem parseStringFrom_error {s : Str} {last : Option ℕ} {out e : Str}
    (h : parseStringFrom s last out = .error e) : e ≠ [] := by
  fun_induction parseStringFrom s last out with
  | case1 =>
    cases h
    decide
  | case2 =>
    cases h
    decide
  | case3 =>
    cases h
    exact append_ne_nil (by decide) _
  | case4 _ _ _ _ _ _ _ _ _ _ ih => exact ih h
  | case5 _ _ _ _ _ _ _ _ _ _ ih => exact ih h
  | case6 _ _ _ _ _ _ _ _ ih => exact ih h
  | case7 =>
    cases h
    exact append_ne_nil (by decide) _
  | case8 _ _ _ _ _ _ _ _ ih => exact ih h
  | case9 =>
    cases h
    exact append_ne_nil (by decide) _
  | case10 => cases h
  | case11 =>
    cases h
    exact append_ne_nil (append_ne_nil (by decide) _) _
  | case12 _ _ _ _ _ _ _ ih => exact ih h

theorem tells_parseString : Tells parseString := fun _ _ h => parseStringFrom_error h

theorem tells_getNextToken : Tells getNextToken := raises_nextToken (by decide)

theorem tells_lookAhead : Tells lookAhead := raises_peekToken (by decide)

theorem tells_currentChar : Tells currentChar := by
  rintro s e ⟨⟩

theorem tells_minusSign : Tells minusSign := by
  intro s e h
  unfold minusSign at h
  split at h <;> cases h

theorem tells_integerPart : Tells integerPart := by
  intro s e h
  cases s with
  | nil =>
    cases h
    exact append_ne_nil (append_ne_nil (by decide) _) _
  | cons c t =>
    simp only [integerPart] at h
    split_ifs at h
    · cases h
      decide
    · cases h
      exact append_ne_nil (append_ne_nil (by decide) _) _

theorem tells_fractionPart : Tells fractionPart := by
  intro s e h
  unfold fractionPart at h
  split at h
  · split_ifs at h
    cases h
    decide
  · cases h

theorem tells_exponentPart : Tells exponentPart := by
  intro s e h
  cases s with
  | nil => cases h
  | cons c t =>
    simp only [exponentPart] at h
    split_ifs at h
    cases h
    decide

theorem tells_parseNumber (toInt : Str → ℤ) : Tells (parseNumber toInt) := by
  apply raises_bind tells_minusSign
  intro sign
  apply raises_bind tells_integerPart
  intro digits
  apply raises_bind tells_currentChar
  intro c
  apply raises_ite
  · exact raises_pure _ _
  · apply raises_bind tells_fractionPart
    intro fraction
    apply raises_bind tells_exponentPart
    intro exponent
    exact raises_pure _ _

theorem tells_expect (expected : Str) (res : Json) : Tells (expect expected res) := by
  intro s e h
  unfold expect at h
  split_ifs at h
  cases h
  exact append_ne_nil (append_ne_nil (append_ne_nil (by decide) _) _) _

section Values

variable {toInt : Str → ℤ} {V : Str → Json → Prop} {value : Parser Json}

theorem tells_element (h : Tells value) : Tells (element value) :=
  raises_bind tells_lookAhead fun _ => h

theorem tells_member (h : Tells value) : Tells (member value) := by
  apply raises_bind tells_getNextToken
  intro c
  apply raises_ite (tells_fail (append_ne_nil (by decide) _))
  apply raises_bind tells_parseString
  intro key
  apply raises_bind tells_getNextToken
  intro d
  apply raises_ite (tells_fail (append_ne_nil (by decide) _))
  exact raises_bind h fun _ => raises_pure _ _

theorem tells_parseValue (hvalue : Recognizes value (Padded isWhitespace V) Ends)
    (hstarts : ∀ {t j}, V t j → ∃ c u, t = c :: u ∧ startsValue c) (h : Tells value) :
    Tells (parseValue toInt value) := by
  have harray : Tells (parseArray value) := by
    apply raises_bind
    · exact Layout.bracketed_raises (element_recognizes hvalue hstarts) (tells_element h)
        (by decide) fun c => append_ne_nil (by decide) _
    · exact fun _ => raises_pure _ _
  have hobject : Tells (parseObject value) := by
    apply raises_bind
    · exact Layout.bracketed_raises (member_recognizes hvalue) (tells_member h)
        (by decide) fun c => append_ne_nil (by decide) _
    · exact fun _ => raises_pure _ _
  apply raises_bind tells_lookAhead
  intro c
  apply raises_ite (tells_parseNumber toInt)
  apply raises_ite (tells_expect _ _)
  apply raises_ite (tells_expect _ _)
  apply raises_ite (tells_expect _ _)
  apply raises_bind tells_getNextToken
  intro _
  apply raises_ite (raises_bind tells_parseString fun _ => raises_pure _ _)
  apply raises_ite hobject
  apply raises_ite harray
  exact tells_fail (append_ne_nil (by decide) _)

theorem tells_parseJson (toInt : Str → ℤ) (levels : ℕ) : Tells (parseJson toInt levels) := by
  induction levels with
  | zero => exact tells_fail (by decide)
  | succ levels ih =>
    exact tells_parseValue (parseJson_recognizes toInt levels) NestedText.starts ih

end Values

end Messages

theorem ends_of_gap {w : Str} (hw : Gap isWhitespace w) : Ends w := by
  cases w with
  | nil => simp [Ends]
  | cons c w => exact ends_of_whitespace (hw c List.mem_cons_self) w

theorem parse_eq_ok_iff (toInt : Str → ℤ) (text : Str) (j : Json) :
    parse toInt text = .ok j ↔ JsonDocument toInt text j := by
  constructor
  · intro h
    obtain ⟨⟨result, rest⟩, hjson, hrest⟩ := except_bind_eq_ok h
    obtain ⟨t, rfl, ht⟩ := (parseJson_recognizes toInt _).sound hjson
    dsimp only at hrest
    split at hrest
    · next hgap =>
      cases hrest
      exact ⟨t, rest, rfl, List.dropWhile_eq_nil_iff.1 hgap, ht⟩
    · cases hrest
  · rintro ⟨t, w, rfl, hw, ht⟩
    have hjson := (parseJson_recognizes toInt _).complete ht (ends_of_gap hw)
    rw [parse, hjson, except_ok_bind]
    dsimp only
    rw [List.dropWhile_eq_nil_iff.2 hw]

/-- `Json::parse` accepts exactly the texts of the grammar and gives their values, and
on any other text it leaves a message. -/
theorem parse_accepts_grammar (toInt : Str → ℤ) (text : Str) :
    (∀ j, parse toInt text = .ok j ↔ JsonDocument toInt text j) ∧
      ∀ e, parse toInt text = .error e → e ≠ [] := by
  refine ⟨parse_eq_ok_iff toInt text, ?_⟩
  intro e h
  unfold parse at h
  cases hjson : parseJson toInt (maxDepth + 1) text with
  | error d =>
    rw [hjson] at h
    cases h
    exact tells_parseJson toInt _ _ _ hjson
  | ok r =>
    rw [hjson, except_ok_bind] at h
    obtain ⟨result, rest⟩ := r
    dsimp only at h
    split at h
    · cases h
    · cases h
      exact append_ne_nil (by decide) _

end PolkadotApi.JsonGrammar
