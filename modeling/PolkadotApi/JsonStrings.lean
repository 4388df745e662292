import PolkadotApi.JsonText

set_option autoImplicit false

namespace PolkadotApi.JsonStrings
open StreamReader TextGrammar HexText MachineModel JsonText

inductive Piece where
  | plain (c : UInt8)
  | code (pt : ℕ)

/-- The bytes of a string, where two escapes may be one character. -/
def decodePieces : List Piece → Str
  | [] => []
  | .plain c :: ps => c :: decodePieces ps
  | [.code a] => encodeUtf8 a
  | .code a :: .plain c :: ps => encodeUtf8 a ++ c :: decodePieces ps
  | .code a :: .code b :: ps =>
    if isLead a && isTrail b then encodeUtf8 (astral a b) ++ decodePieces ps
    else encodeUtf8 a ++ decodePieces (.code b :: ps)

inductive Spelt : List Piece → Str → Prop where
  | nil : Spelt [] []
  | raw {c : UInt8} {ps : List Piece} {t : Str} (control : ¬ c ≤ 0x1F) (quote : c ≠ 34)
      (backslash : c ≠ 92) (tail : Spelt ps t) : Spelt (.plain c :: ps) (c :: t)
  | short {e c : UInt8} {ps : List Piece} {t : Str} (h : shortEscape e = some c)
      (tail : Spelt ps t) : Spelt (.plain c :: ps) (92 :: e :: t)
  | code {a b c d : UInt8} {pt : ℕ} {ps : List Piece} {t : Str}
      (h : codepoint a b c d = some pt) (tail : Spelt ps t) :
      Spelt (.code pt :: ps) (92 :: 117 :: a :: b :: c :: d :: t)

def pending (last : Option ℕ) (ps : List Piece) : List Piece := (last.map Piece.code).toList ++ ps

theorem decode_pending_nil (last : Option ℕ) : decodePieces (pending last []) = encodeLast last := by
  cases last <;> rfl

theorem decode_pending_plain (last : Option ℕ) (c : UInt8) (ps : List Piece) :
    decodePieces (pending last (.plain c :: ps)) = encodeLast last ++ c :: decodePieces ps := by
  cases last <;> rfl

def resume (last : Option ℕ) (pt : ℕ) : Option ℕ × Str :=
  match last with
  | some lead =>
    if isLead lead && isTrail pt then (none, encodeUtf8 (astral lead pt))
    else (some pt, encodeUtf8 lead)
  | none => (some pt, [])

theorem decode_pending_code (last : Option ℕ) (pt : ℕ) (ps : List Piece) :
    decodePieces (pending last (.code pt :: ps)) =
      (resume last pt).2 ++ decodePieces (pending (resume last pt).1 ps) := by
  cases last with
  | none => rfl
  | some lead =>
    simp only [pending, resume, Option.map_some, Option.toList_some, List.singleton_append]
    rw [decodePieces]
    by_cases hpair : (isLead lead && isTrail pt) = true
    · simp only [if_pos hpair, Option.map_none, Option.toList_none, List.nil_append]
    · simp only [if_neg hpair, Option.map_some, Option.toList_some, List.singleton_append]

theorem parseString_quote (t : Str) (last : Option ℕ) (out : Str) :
    parseStringFrom (34 :: t) last out = .ok (out ++ encodeLast last, t) := by
  simp [parseStringFrom]

theorem parseString_raw {c : UInt8} (control : ¬ c ≤ 0x1F) (quote : c ≠ 34) (backslash : c ≠ 92)
    (t : Str) (last : Option ℕ) (out : Str) :
    parseStringFrom (c :: t) last out = parseStringFrom t none (out ++ encodeLast last ++ [c]) := by
  rw [parseStringFrom, if_neg quote, if_neg control]
  exact fun h => backslash h

theorem parseString_short {e c : UInt8} (h : shortEscape e = some c) (t : Str) (last : Option ℕ)
    (out : Str) : parseStringFrom (92 :: e :: t) last out =
      parseStringFrom t none (out ++ encodeLast last ++ [c]) := by
  have hne : e ≠ 117 := by
    rintro rfl
    have hnone : shortEscape 117 = none := by decide
    rw [hnone] at h
    cases h
  rw [parseStringFrom, h]
  · intro a b c d t he
    exact absurd he hne
  · exact fun he => absurd he hne

theorem parseString_code {a b c d : UInt8} {pt : ℕ} (h : codepoint a b c d = some pt) (t : Str)
    (last : Option ℕ) (out : Str) :
    parseStringFrom (92 :: 117 :: a :: b :: c :: d :: t) last out =
      parseStringFrom t (resume last pt).1 (out ++ (resume last pt).2) := by
  rw [parseStringFrom, h]
  cases last with
  | none => simp [resume]
  | some lead =>
    simp only [resume]
    by_cases hpair : (isLead lead && isTrail pt) = true
    · simp only [if_pos hpair]
    · simp only [if_neg hpair]

theorem parseString_spelt {ps : List Piece} {t : Str} (h : Spelt ps t) (last : Option ℕ)
    (out rest : Str) : parseStringFrom (t ++ 34 :: rest) last out =
      .ok (out ++ decodePieces (pending last ps), rest) := by
  induction h generalizing last out with
  | nil =>
    rw [List.nil_append, parseString_quote, decode_pending_nil]
  | raw control quote backslash tail ih =>
    rw [List.cons_append, parseString_raw control quote backslash, ih, decode_pending_plain]
    simp [pending]
  | short h tail ih =>
    rw [List.cons_append, List.cons_append, parseString_short h, ih, decode_pending_plain]
    simp [pending]
  | code h tail ih =>
    simp only [List.cons_append]
    rw [parseString_code h, ih, decode_pending_code, List.append_assoc]

theorem spelt_of_parseString {s rest v : Str} {last : Option ℕ} {out : Str}
    (h : parseStringFrom s last out = .ok (v, rest)) :
    ∃ ps t, s = t ++ 34 :: rest ∧ Spelt ps t ∧ v = out ++ decodePieces (pending last ps) := by
  fun_induction parseStringFrom s last out with
  | case4 out a b c d t pt hpt lead hpair ih =>
    obtain ⟨ps, t, rfl, hps, rfl⟩ := ih h
    refine ⟨.code pt :: ps, _, rfl, .code hpt hps, ?_⟩
    rw [decode_pending_code, resume, if_pos hpair, List.append_assoc]
  | case5 out a b c d t pt hpt lead hpair ih =>
    obtain ⟨ps, t, rfl, hps, rfl⟩ := ih h
    refine ⟨.code pt :: ps, _, rfl, .code hpt hps, ?_⟩
    rw [decode_pending_code, resume, if_neg hpair, List.append_assoc]
  | case6 out a b c d t pt hpt ih =>
    obtain ⟨ps, t, rfl, hps, rfl⟩ := ih h
    exact ⟨.code pt :: ps, _, rfl, .code hpt hps, rfl⟩
  | case8 last out e t _ _ c hc ih =>
    obtain ⟨ps, t, rfl, hps, rfl⟩ := ih h
    refine ⟨.plain c :: ps, _, rfl, .short hc hps, ?_⟩
    rw [decode_pending_plain]
    simp [pending]
  | case10 t last out =>
    cases h
    exact ⟨[], [], rfl, .nil, by rw [decode_pending_nil]⟩
  | case12 c t last out backslash quote control ih =>
    obtain ⟨ps, t, rfl, hps, rfl⟩ := ih h
    refine ⟨.plain c :: ps, _, rfl, .raw control quote backslash hps, ?_⟩
    rw [decode_pending_plain]
    simp [pending]
  | _ => cases h

def StringText (text v : Str) : Prop := ∃ ps t, text = t ++ [34] ∧ Spelt ps t ∧ v = decodePieces ps

theorem parseString_recognizes : Recognizes parseString StringText (fun _ => True) where
  sound h := by
    obtain ⟨ps, t, rfl, hps, rfl⟩ := spelt_of_parseString h
    exact ⟨t ++ [34], by simp, ps, t, rfl, hps, rfl⟩
  complete := by
    rintro _ rest _ ⟨ps, t, rfl, hps, rfl⟩ -
    have hparse := parseString_spelt hps none [] rest
    rw [List.append_assoc]
    exact hparse

end PolkadotApi.JsonStrings
