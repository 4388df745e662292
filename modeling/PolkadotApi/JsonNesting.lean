import PolkadotApi.JsonStrings
import PolkadotApi.JsonNumbers

set_option autoImplicit false

namespace PolkadotApi.JsonNesting
open StreamReader TextGrammar MachineModel Converters JsonValues JsonText JsonStrings JsonNumbers

section Values

variable (toInt : Str → ℤ) (V : Str → Json → Prop)

/-- A member of an object; `V` gives the values one level down. -/
def MemberText (text : Str) (m : Str × Json) : Prop :=
  ∃ w k w' u, text = w ++ 34 :: (k ++ (w' ++ 58 :: u)) ∧ Gap isWhitespace w ∧ StringText k m.1 ∧
    Gap isWhitespace w' ∧ Padded isWhitespace V u m.2

inductive ValueText : Str → Json → Prop where
  | null : ValueText (lit "null") .null
  | yes : ValueText (lit "true") (.bool true)
  | no : ValueText (lit "false") (.bool false)
  | number {t : Str} {n : ℤ} (h : NumberText toInt t n) : ValueText t (.number n)
  | string {t v : Str} (h : StringText t v) : ValueText (34 :: t) (.string v)
  | array {t : Str} {items : List Json}
      (h : arrayLayout.Bracketed (Padded isWhitespace V) t items) :
      ValueText (91 :: (t ++ [93])) (.array items)
  | object {t : Str} {members : List (Str × Json)}
      (h : objectLayout.Bracketed (MemberText V) t members) :
      ValueText (123 :: (t ++ [125])) (.object (members.foldl setField []))

def NestedText : ℕ → Str → Json → Prop
  | 0 => fun _ _ => False
  | levels + 1 => ValueText toInt (NestedText levels)

def JsonDocument (text : Str) (j : Json) : Prop :=
  ∃ t w, text = t ++ w ∧ Gap isWhitespace w ∧
    Padded isWhitespace (NestedText toInt (maxDepth + 1)) t j

def startsValue (c : UInt8) : Prop := isWhitespace c = false ∧ c ≠ 93 ∧ c ≠ 125

variable {toInt V}

theorem startsValue_of_isDigit {c : UInt8} (h : isDigit c = true) : startsValue c := by
  have hne : ∀ d, isDigit d = false → c ≠ d := by
    rintro d hd rfl
    rw [h] at hd
    cases hd
  refine ⟨?_, hne 93 rfl, hne 125 rfl⟩
  simp [isWhitespace, hne 32 rfl, hne 13 rfl, hne 10 rfl, hne 9 rfl]
theorem ValueText.starts {t : Str} {j : Json} (h : ValueText toInt V t j) :
    ∃ c u, t = c :: u ∧ startsValue c := by
  cases h with
  | null => exact ⟨110, _, rfl, rfl, by decide, by decide⟩
  | yes => exact ⟨116, _, rfl, rfl, by decide, by decide⟩
  | no => exact ⟨102, _, rfl, rfl, by decide, by decide⟩
  | number h =>
    obtain ⟨c, u, rfl, rfl | hc⟩ := h.starts
    · exact ⟨45, u, rfl, rfl, by decide, by decide⟩
    · exact ⟨c, u, rfl, startsValue_of_isDigit hc⟩
  | string => exact ⟨34, _, rfl, rfl, by decide, by decide⟩
  | array => exact ⟨91, _, rfl, rfl, by decide, by decide⟩
  | object => exact ⟨123, _, rfl, rfl, by decide, by decide⟩

theorem NestedText.starts {levels : ℕ} {t : Str} {j : Json} (h : NestedText toInt levels t j) :
    ∃ c u, t = c :: u ∧ startsValue c := by
  cases levels with
  | zero => cases h
  | succ levels => exact ValueText.starts h

end Values

section Recognition

variable {toInt : Str → ℤ} {V : Str → Json → Prop} {value : Parser Json}

theorem ends_cons {c : UInt8} (h : isEnd c = true) (t : Str) : Ends (c :: t) := by
  intro d hd
  obtain rfl : c = d := Option.some.inj hd
  exact h

theorem ends_of_whitespace {c : UInt8} (h : isWhitespace c = true) (t : Str) : Ends (c :: t) :=
  ends_cons (by simp [isEnd, h]) t

theorem padded_of {t : Str} {j : Json} (h : V t j) : Padded isWhitespace V t j :=
  ⟨[], t, rfl, by simp [Gap], h⟩

theorem getNextToken_cons {c : UInt8} (hc : isWhitespace c = false) (t : Str) :
    getNextToken (c :: t) = .ok (c, t) :=
  nextToken_gap (w := []) (by simp [Gap]) hc endOfInput t

variable (hvalue : Recognizes value (Padded isWhitespace V) Ends)
  (hstarts : ∀ {t j}, V t j → ∃ c u, t = c :: u ∧ startsValue c)

include hstarts in
theorem array_elements : Layout.Elements arrayLayout (Padded isWhitespace V) Ends where
  pad hw h := h.pad hw
  strip := by
    rintro _ x ⟨w, t, rfl, hw, ht⟩
    obtain ⟨c, u, rfl, hgap, hclose, -⟩ := hstarts ht
    exact ⟨w, c, u, rfl, hw, ⟨hgap, hclose⟩, padded_of ht⟩
  gap h := ends_of_whitespace h _
  comma t := ends_cons rfl t
  close t := ends_cons rfl t

theorem object_elements : Layout.Elements objectLayout (MemberText V) Ends where
  pad := by
    rintro w _ x hw ⟨w', k, w₂, u, rfl, hw', hk, hw₂, hu⟩
    refine ⟨w ++ w', k, w₂, u, (List.append_assoc ..).symm, ?_, hk, hw₂, hu⟩
    intro c hc
    rcases List.mem_append.1 hc with hc | hc
    · exact hw c hc
    · exact hw' c hc
  strip := by
    rintro _ x ⟨w, k, w', u, rfl, hw, hk, hw', hu⟩
    exact ⟨w, 34, _, rfl, hw, ⟨rfl, by decide⟩, [], k, w', u, rfl, by simp [Gap], hk, hw', hu⟩
  gap h := ends_of_whitespace h _
  comma t := ends_cons rfl t
  close t := ends_cons rfl t

include hvalue hstarts in
theorem element_recognizes : Recognizes (element value) (Padded isWhitespace V) Ends where
  sound {s rest j} h := by
    obtain ⟨c, s', hpeek, hrest⟩ := bind_eq_ok h
    obtain ⟨w, t, hw, -, rfl, rfl⟩ := peekToken_eq_ok hpeek
    obtain ⟨text, htext, hj⟩ := hvalue.sound hrest
    rw [htext]
    exact ⟨w ++ text, (List.append_assoc ..).symm, hj.pad hw⟩
  complete := by
    rintro _ rest j ⟨w, t, rfl, hw, ht⟩ hrest
    obtain ⟨c, u, rfl, hgap, -⟩ := hstarts ht
    have hpeek : lookAhead (w ++ c :: (u ++ rest)) = .ok (c, c :: (u ++ rest)) :=
      peekToken_gap hw hgap endOfInput (u ++ rest)
    rw [List.append_assoc, List.cons_append, element, bind_ok hpeek]
    exact hvalue.complete (padded_of ht) hrest

include hvalue in
theorem member_recognizes : Recognizes (member value) (MemberText V) Ends where
  sound {s rest m} h := by
    obtain ⟨c, s₁, htoken, h₁⟩ := bind_eq_ok h
    obtain ⟨w, hw, -, rfl⟩ := nextToken_eq_ok htoken
    split_ifs at h₁ with hquote
    · cases h₁
    obtain ⟨key, s₂, hkey, h₂⟩ := bind_eq_ok h₁
    obtain ⟨k, rfl, hk⟩ := parseString_recognizes.sound hkey
    obtain ⟨d, s₃, hsecond, h₃⟩ := bind_eq_ok h₂
    obtain ⟨w', hw', -, rfl⟩ := nextToken_eq_ok hsecond
    split_ifs at h₃ with hcolon
    · cases h₃
    obtain ⟨x, s₄, hx, h₄⟩ := bind_eq_ok h₃
    cases h₄
    obtain ⟨u, rfl, hu⟩ := hvalue.sound hx
    rw [not_not] at hquote hcolon
    subst hquote hcolon
    exact ⟨w ++ 34 :: (k ++ (w' ++ 58 :: u)), by simp, w, k, w', u, rfl, hw, hk, hw', hu⟩
  complete := by
    rintro _ rest ⟨key, x⟩ ⟨w, k, w', u, rfl, hw, hk, hw', hu⟩ hrest
    have htext : w ++ 34 :: (k ++ (w' ++ 58 :: u)) ++ rest =
        w ++ 34 :: (k ++ (w' ++ 58 :: (u ++ rest))) := by simp
    have hfirst : getNextToken (w ++ 34 :: (k ++ (w' ++ 58 :: (u ++ rest)))) =
        .ok (34, k ++ (w' ++ 58 :: (u ++ rest))) := nextToken_gap hw rfl endOfInput _
    have hkey : parseString (k ++ (w' ++ 58 :: (u ++ rest))) =
        .ok (key, w' ++ 58 :: (u ++ rest)) := parseString_recognizes.complete hk trivial
    have hcolon : getNextToken (w' ++ 58 :: (u ++ rest)) = .ok (58, u ++ rest) :=
      nextToken_gap hw' rfl endOfInput _
    rw [htext, member, bind_ok hfirst, if_neg (by decide), bind_ok hkey, bind_ok hcolon,
      if_neg (by decide), bind_ok (hvalue.complete hu hrest)]
    rfl

theorem expect_eq_ok {expected s rest : Str} {res j : Json}
    (h : expect expected res s = .ok (j, rest)) : j = res ∧ s = expected ++ rest := by
  unfold expect at h
  split_ifs at h with htake
  cases h
  refine ⟨rfl, ?_⟩
  conv_lhs => rw [← List.take_append_drop expected.length s, htake]

theorem expect_append (expected : Str) (res : Json) (rest : Str) :
    expect expected res (expected ++ rest) = .ok (res, rest) := by
  unfold expect
  rw [List.take_left, if_pos rfl, List.drop_left]

include hvalue hstarts in
theorem parseArray_recognizes : Recognizes (parseArray value)
    (fun t j => ∃ u items, t = u ++ [93] ∧ j = .array items ∧
      arrayLayout.Bracketed (Padded isWhitespace V) u items) (fun _ => True) where
  sound {s rest j} h := by
    obtain ⟨items, s', hitems, hend⟩ := bind_eq_ok h
    cases hend
    obtain ⟨_, rfl, u, rfl, hu⟩ := (Layout.bracketed_recognizes
      (element_recognizes hvalue hstarts) (array_elements hstarts)).sound hitems
    exact ⟨_, rfl, u, items, rfl, rfl, hu⟩
  complete := by
    rintro _ rest _ ⟨u, items, rfl, rfl, hu⟩ hrest
    have hitems : arrayLayout.bracketed (element value) (u ++ [93] ++ rest) = .ok (items, rest) :=
      (Layout.bracketed_recognizes (element_recognizes hvalue hstarts)
        (array_elements hstarts)).complete ⟨u, rfl, hu⟩ hrest
    exact bind_ok hitems _

include hvalue in
theorem parseObject_recognizes : Recognizes (parseObject value)
    (fun t j => ∃ u members, t = u ++ [125] ∧ j = .object (members.foldl setField []) ∧
      objectLayout.Bracketed (MemberText V) u members) (fun _ => True) where
  sound {s rest j} h := by
    obtain ⟨members, s', hmembers, hend⟩ := bind_eq_ok h
    cases hend
    obtain ⟨_, rfl, u, rfl, hu⟩ := (Layout.bracketed_recognizes (member_recognizes hvalue)
      object_elements).sound hmembers
    exact ⟨_, rfl, u, members, rfl, rfl, hu⟩
  complete := by
    rintro _ rest _ ⟨u, members, rfl, rfl, hu⟩ hrest
    have hmembers : objectLayout.bracketed (member value) (u ++ [125] ++ rest) =
        .ok (members, rest) :=
      (Layout.bracketed_recognizes (member_recognizes hvalue)
        object_elements).complete ⟨u, rfl, hu⟩ hrest
    exact bind_ok hmembers _

def dispatch (toInt : Str → ℤ) (value : Parser Json) (ch : UInt8) : Parser Json :=
  if ch = 45 ∨ isDigit ch then parseNumber toInt
  else if ch = 116 then expect (lit "true") (.bool true)
  else if ch = 102 then expect (lit "false") (.bool false)
  else if ch = 110 then expect (lit "null") .null
  else do
    let _ ← getNextToken
    if ch = 34 then do
      let s ← parseString
      return .string s
    else if ch = 123 then parseObject value
    else if ch = 91 then parseArray value
    else fail (lit "expected value, got " ++ esc ch)

theorem parseValue_eq (toInt : Str → ℤ) (value : Parser Json) :
    parseValue toInt value = lookAhead >>= dispatch toInt value := rfl

include hvalue hstarts in
theorem dispatch_sound {c : UInt8} (hc : isWhitespace c = false) {t rest : Str} {j : Json}
    (h : dispatch toInt value c (c :: t) = .ok (j, rest)) :
    ∃ text, c :: t = text ++ rest ∧ ValueText toInt V text j := by
  unfold dispatch at h
  split_ifs at h with hnumber htrue hfalse hnull hquote hbrace hbracket
  · obtain ⟨text, htext, n, rfl, hn⟩ := (parseNumber_recognizes toInt).sound h
    exact ⟨text, htext, .number hn⟩
  · obtain ⟨rfl, htext⟩ := expect_eq_ok h
    exact ⟨_, htext, .yes⟩
  · obtain ⟨rfl, htext⟩ := expect_eq_ok h
    exact ⟨_, htext, .no⟩
  · obtain ⟨rfl, htext⟩ := expect_eq_ok h
    exact ⟨_, htext, .null⟩
  · rw [bind_ok (getNextToken_cons hc t)] at h
    obtain ⟨v, s', hv, hend⟩ := bind_eq_ok h
    cases hend
    obtain ⟨text, rfl, htext⟩ := parseString_recognizes.sound hv
    exact ⟨c :: text, rfl, hquote ▸ .string htext⟩
  · rw [bind_ok (getNextToken_cons hc t)] at h
    obtain ⟨_, rfl, u, members, rfl, rfl, hu⟩ := (parseObject_recognizes hvalue).sound h
    exact ⟨c :: (u ++ [125]), by simp, hbrace ▸ .object hu⟩
  · rw [bind_ok (getNextToken_cons hc t)] at h
    obtain ⟨_, rfl, u, items, rfl, rfl, hu⟩ := (parseArray_recognizes hvalue hstarts).sound h
    exact ⟨c :: (u ++ [93]), by simp, hbracket ▸ .array hu⟩
  · rw [bind_ok (getNextToken_cons hc t)] at h
    cases h

include hvalue hstarts in
theorem dispatch_complete {c : UInt8} {u rest : Str} {j : Json}
    (h : ValueText toInt V (c :: u) j) (hrest : Ends rest) :
    dispatch toInt value c (c :: u ++ rest) = .ok (j, rest) := by
  generalize htext : c :: u = text at h
  cases h with
  | null =>
    obtain ⟨rfl, rfl⟩ := List.cons.inj htext
    exact expect_append (lit "null") .null rest
  | yes =>
    obtain ⟨rfl, rfl⟩ := List.cons.inj htext
    exact expect_append (lit "true") (.bool true) rest
  | no =>
    obtain ⟨rfl, rfl⟩ := List.cons.inj htext
    exact expect_append (lit "false") (.bool false) rest
  | number hn =>
    obtain ⟨d, v, rfl, hd⟩ := hn.starts
    obtain ⟨rfl, rfl⟩ := List.cons.inj htext
    rw [dispatch, if_pos hd]
    exact (parseNumber_recognizes toInt).complete ⟨_, rfl, hn⟩ hrest
  | string hv =>
    obtain ⟨rfl, rfl⟩ := List.cons.inj htext
    change ((getNextToken >>= fun _ => parseString >>= fun s => pure (Json.string s)) : Parser Json)
      (34 :: (u ++ rest)) = _
    rw [bind_ok (getNextToken_cons rfl _), bind_ok (parseString_recognizes.complete hv trivial)]
    rfl
  | array hu =>
    obtain ⟨rfl, rfl⟩ := List.cons.inj htext
    change ((getNextToken >>= fun _ => parseArray value) : Parser Json) (91 :: (_ ++ rest)) = _
    rw [bind_ok (getNextToken_cons rfl _)]
    exact (parseArray_recognizes hvalue hstarts).complete ⟨_, _, rfl, rfl, hu⟩ trivial
  | object hu =>
    obtain ⟨rfl, rfl⟩ := List.cons.inj htext
    change ((getNextToken >>= fun _ => parseObject value) : Parser Json) (123 :: (_ ++ rest)) = _
    rw [bind_ok (getNextToken_cons rfl _)]
    exact (parseObject_recognizes hvalue).complete ⟨_, _, rfl, rfl, hu⟩ trivial

include hvalue hstarts in
theorem parseValue_recognizes :
    Recognizes (parseValue toInt value) (Padded isWhitespace (ValueText toInt V)) Ends where
  sound {s rest j} h := by
    rw [parseValue_eq] at h
    obtain ⟨c, s', hpeek, hdispatch⟩ := bind_eq_ok h
    obtain ⟨w, t, hw, hc, rfl, rfl⟩ := peekToken_eq_ok hpeek
    obtain ⟨text, htext, hj⟩ := dispatch_sound hvalue hstarts hc hdispatch
    rw [htext]
    exact ⟨w ++ text, (List.append_assoc ..).symm, w, text, rfl, hw, hj⟩
  complete := by
    rintro _ rest j ⟨w, t, rfl, hw, ht⟩ hrest
    obtain ⟨c, u, rfl, hgap, -⟩ := ht.starts
    have hpeek : lookAhead (w ++ c :: (u ++ rest)) = .ok (c, c :: (u ++ rest)) :=
      peekToken_gap hw hgap endOfInput (u ++ rest)
    rw [parseValue_eq, List.append_assoc, List.cons_append, bind_ok hpeek]
    exact dispatch_complete hvalue hstarts ht hrest

theorem parseJson_recognizes (toInt : Str → ℤ) (levels : ℕ) :
    Recognizes (parseJson toInt levels) (Padded isWhitespace (NestedText toInt levels)) Ends := by
  induction levels with
  | zero =>
    constructor
    · rintro s rest j ⟨⟩
    · rintro _ _ _ ⟨_, _, _, _, ⟨⟩⟩
  | succ levels ih => exact parseValue_recognizes ih NestedText.starts

end Recognition

end PolkadotApi.JsonNesting
