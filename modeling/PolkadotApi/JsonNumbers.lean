import PolkadotApi.JsonText

set_option autoImplicit false

namespace PolkadotApi.JsonNumbers
open StreamReader TextGrammar MachineModel Converters JsonValues DecimalTexts JsonText

def Digits (t : Str) : Prop := ∀ c ∈ t, isDigit c = true

inductive IntegerText : Str → Prop where
  | zero : IntegerText [48]
  | digits {c : UInt8} {t : Str} (hc : isDigit c = true) (nonzero : c ≠ 48) (ht : Digits t) :
      IntegerText (c :: t)

inductive FractionText : Str → Prop where
  | none : FractionText []
  | digits {c : UInt8} {t : Str} (hc : isDigit c = true) (ht : Digits t) :
      FractionText (46 :: c :: t)

inductive ExponentText : Str → Prop where
  | none : ExponentText []
  | digits {e c : UInt8} {sign t : Str} (he : e = 101 ∨ e = 69)
      (hsign : sign = [] ∨ sign = [43] ∨ sign = [45]) (hc : isDigit c = true) (ht : Digits t) :
      ExponentText (e :: (sign ++ c :: t))

/-- A short integer is read by `atoi`, any other number by `strtod`. -/
inductive NumberText (toInt : Str → ℤ) : Str → ℤ → Prop where
  | short {sign digits : Str} (hsign : sign = [] ∨ sign = [45]) (hdigits : IntegerText digits)
      (h : (sign ++ digits).length ≤ 9) : NumberText toInt (sign ++ digits) (atoi (sign ++ digits))
  | long {sign digits fraction exponent : Str} (hsign : sign = [] ∨ sign = [45])
      (hdigits : IntegerText digits) (hfraction : FractionText fraction)
      (hexponent : ExponentText exponent)
      (h : (sign ++ digits).length ≤ 9 → fraction ++ exponent ≠ []) :
      NumberText toInt (sign ++ digits ++ fraction ++ exponent)
        (toInt (sign ++ digits ++ fraction ++ exponent))

def Avoids (p : UInt8 → Bool) (s : Str) : Prop := ∀ c ∈ s.head?, p c = false

theorem digitsOf_append {t rest : Str} (ht : Digits t) (hrest : Avoids isDigit rest) :
    digitsOf (t ++ rest) = t := takeWhile_run ht hrest

theorem digits_digitsOf (s : Str) : Digits (digitsOf s) := fun _ hc => List.mem_takeWhile_imp hc

theorem digitsOf_append_drop (s : Str) : digitsOf s ++ s.drop (digitsOf s).length = s :=
  List.prefix_iff_eq_append.1 (List.takeWhile_prefix isDigit)

def Passes (p : Parser Str) (P : Str → Prop) (Follow : Str → Prop) : Prop :=
  Recognizes p (fun text v => v = text ∧ P text) Follow

theorem exists_digit {s : Str} (h : digitsOf s ≠ []) :
    ∃ c t, digitsOf s = c :: t ∧ isDigit c = true ∧ Digits t := by
  obtain ⟨c, t, hs⟩ := List.exists_cons_of_ne_nil h
  have hdigits := digits_digitsOf s
  rw [hs] at hdigits
  exact ⟨c, t, hs, hdigits c List.mem_cons_self, fun d hd => hdigits d (List.mem_cons_of_mem c hd)⟩

theorem Digits.cons {c : UInt8} {t : Str} (hc : isDigit c = true) (ht : Digits t) :
    Digits (c :: t) := by
  intro d hd
  rcases List.mem_cons.1 hd with rfl | hd
  · exact hc
  · exact ht d hd

theorem digitsOf_cons {c : UInt8} {t rest : Str} (hc : isDigit c = true) (ht : Digits t)
    (hrest : Avoids isDigit rest) : digitsOf (c :: (t ++ rest)) = c :: t :=
  digitsOf_append (ht.cons hc) hrest

theorem digitsOf_eq_nil {rest : Str} (hrest : Avoids isDigit rest) : digitsOf rest = [] :=
  digitsOf_append (t := []) (by simp [Digits]) hrest

theorem minusSign_passes :
    Passes minusSign (fun t => t = [] ∨ t = [45]) (Avoids fun c => c = 45) where
  sound {s rest v} h := by
    unfold minusSign at h
    split at h
    · cases h
      exact ⟨[45], rfl, rfl, Or.inr rfl⟩
    · cases h
      exact ⟨[], rfl, rfl, Or.inl rfl⟩
  complete := by
    rintro text rest v ⟨rfl, rfl | rfl⟩ hrest
    · rw [List.nil_append]
      unfold minusSign
      split
      · simp [Avoids] at hrest
      · rfl
    · rfl

theorem integerPart_passes : Passes integerPart IntegerText (Avoids isDigit) where
  sound {s rest v} h := by
    cases s with
    | nil => cases h
    | cons c t =>
      simp only [integerPart] at h
      split_ifs at h with hzero hnone hdigit
      · cases h
        exact ⟨[c], rfl, rfl, hzero ▸ .zero⟩
      · cases h
        refine ⟨c :: digitsOf t, ?_, rfl, .digits hdigit hzero (digits_digitsOf t)⟩
        rw [List.cons_append, digitsOf_append_drop]
  complete := by
    rintro text rest v ⟨rfl, hv⟩ hrest
    cases hv with
    | zero =>
      simp only [List.singleton_append, integerPart]
      rw [if_pos trivial, if_pos (digitsOf_eq_nil hrest)]
    | digits hc nonzero ht =>
      simp only [List.cons_append, integerPart]
      rw [if_neg nonzero, if_pos hc, digitsOf_append ht hrest, List.drop_left]

theorem fractionPart_passes :
    Passes fractionPart FractionText (Avoids fun c => isDigit c || c = 46) where
  sound {s rest v} h := by
    unfold fractionPart at h
    split at h
    · next t =>
      split_ifs at h with hnone
      cases h
      obtain ⟨c, ds, hds, hc, ht⟩ := exists_digit hnone
      refine ⟨46 :: digitsOf t, ?_, rfl, ?_⟩
      · rw [List.cons_append, digitsOf_append_drop]
      · rw [hds]
        exact .digits hc ht
    · cases h
      exact ⟨[], rfl, rfl, .none⟩
  complete := by
    rintro text rest v ⟨rfl, hv⟩ hrest
    cases hv with
    | none =>
      rw [List.nil_append]
      unfold fractionPart
      split
      · simp [Avoids] at hrest
      · rfl
    | digits hc ht =>
      have hend : Avoids isDigit rest := fun c hcr => by
        have := hrest c hcr
        simp only [Bool.or_eq_false_iff] at this
        exact this.1
      simp only [List.cons_append, fractionPart]
      rw [digitsOf_cons hc ht hend, if_neg (List.cons_ne_nil _ _)]
      simp

theorem exponentSign_append {sign : Str} (h : sign = [] ∨ sign = [43] ∨ sign = [45]) {c : UInt8}
    (hc : isDigit c = true) (t : Str) : exponentSign (sign ++ c :: t) = (sign, c :: t) := by
  rcases h with rfl | rfl | rfl
  · have hplus : c ≠ 43 := by
      rintro rfl
      cases hc
    have hminus : c ≠ 45 := by
      rintro rfl
      cases hc
    rw [List.nil_append]
    unfold exponentSign
    split
    · next heq => exact absurd (List.cons.inj heq).1 hplus
    · next heq => exact absurd (List.cons.inj heq).1 hminus
    · rfl
  · rfl
  · rfl

theorem exponentSign_spec (s : Str) :
    ((exponentSign s).1 = [] ∨ (exponentSign s).1 = [43] ∨ (exponentSign s).1 = [45]) ∧
      (exponentSign s).1 ++ (exponentSign s).2 = s := by
  unfold exponentSign
  split
  · exact ⟨Or.inr (Or.inl rfl), rfl⟩
  · exact ⟨Or.inr (Or.inr rfl), rfl⟩
  · exact ⟨Or.inl rfl, rfl⟩

theorem exponentPart_passes :
    Passes exponentPart ExponentText (Avoids fun c => isDigit c || c = 101 || c = 69) where
  sound {s rest v} h := by
    cases s with
    | nil =>
      cases h
      exact ⟨[], rfl, rfl, .none⟩
    | cons e t =>
      simp only [exponentPart] at h
      split_ifs at h with he hnone
      · cases h
        obtain ⟨hsign, happend⟩ := exponentSign_spec t
        obtain ⟨c, ds, hds, hc, ht⟩ := exists_digit hnone
        refine ⟨e :: ((exponentSign t).1 ++ digitsOf (exponentSign t).2), ?_, rfl, ?_⟩
        · rw [List.cons_append, List.append_assoc, digitsOf_append_drop, happend]
        · rw [hds]
          exact .digits he hsign hc ht
      · cases h
        exact ⟨[], rfl, rfl, .none⟩
  complete := by
    rintro text rest v ⟨rfl, hv⟩ hrest
    cases hv with
    | none =>
      rw [List.nil_append]
      cases rest with
      | nil => rfl
      | cons c rest =>
        have hc := hrest c rfl
        simp only [Bool.or_eq_false_iff, decide_eq_false_iff_not] at hc
        simp only [exponentPart]
        rw [if_neg (by simp [hc.1.2, hc.2])]
    | @digits e c sign t he hsign hc ht =>
      have hend : Avoids isDigit rest := fun d hd => by
        have := hrest d hd
        simp only [Bool.or_eq_false_iff] at this
        exact this.1.1
      simp only [List.cons_append, List.append_assoc, exponentPart]
      rw [if_pos he, exponentSign_append hsign hc]
      simp only
      rw [digitsOf_cons hc ht hend, if_neg (List.cons_ne_nil _ _)]
      simp

def isEnd (c : UInt8) : Bool := isWhitespace c || c = 44 || c = 93 || c = 125

def Ends (rest : Str) : Prop := ∀ c ∈ rest.head?, isEnd c = true

def isNumeric (c : UInt8) : Bool := isDigit c || c = 46 || c = 101 || c = 69

theorem isNumeric_of_isEnd {c : UInt8} (h : isEnd c = true) : isNumeric c = false := by
  simp only [isEnd, isWhitespace, Bool.or_eq_true, decide_eq_true_eq] at h
  rcases h with (((((rfl | rfl) | rfl) | rfl) | rfl) | rfl) | rfl <;> decide

theorem Avoids.mono {p q : UInt8 → Bool} {s : Str} (h : Avoids q s)
    (hpq : ∀ c, p c = true → q c = true) : Avoids p s := by
  intro c hc
  by_contra hp
  have hq := hpq c (by simpa using hp)
  rw [h c hc] at hq
  cases hq

theorem Ends.avoids {rest : Str} (h : Ends rest) : Avoids isNumeric rest :=
  fun c hc => isNumeric_of_isEnd (h c hc)

theorem Avoids.append {p : UInt8 → Bool} {s t : Str} (hs : Avoids p s) (ht : Avoids p t) :
    Avoids p (s ++ t) := by
  cases s with
  | nil => exact ht
  | cons c s => exact hs

theorem FractionText.avoids {s : Str} (h : FractionText s) : Avoids isDigit s := by
  cases h with
  | none => simp [Avoids]
  | digits => simp [Avoids, isDigit]

theorem ExponentText.avoids {s : Str} (h : ExponentText s) :
    Avoids (fun c => isDigit c || c = 46) s := by
  cases h with
  | none => simp [Avoids]
  | digits he => rcases he with rfl | rfl <;> simp [Avoids, isDigit]

theorem IntegerText.avoids {s : Str} (h : IntegerText s) (rest : Str) :
    Avoids (fun c => c = 45) (s ++ rest) := by
  cases h with
  | zero => simp [Avoids]
  | digits hc =>
    intro d hd
    obtain rfl : d = _ := (Option.some.inj hd).symm
    by_contra hminus
    obtain rfl : d = 45 := by simpa using hminus
    cases hc

def goesOn (c : UInt8) : Bool := c = 46 || c = 101 || c = 69

theorem goesOn_iff (c : UInt8) : goesOn c = false ↔ c ≠ 46 ∧ c ≠ 101 ∧ c ≠ 69 := by
  simp [goesOn, and_assoc]

theorem avoids_of_parts {fraction exponent rest s s' : Str}
    (hfraction : fractionPart s = .ok (fraction, s'))
    (hexponent : exponentPart s' = .ok (exponent, rest)) (hnone : fraction ++ exponent = []) :
    goesOn (s.headD 0) = false := by
  obtain ⟨rfl, rfl⟩ := List.append_eq_nil_iff.1 hnone
  unfold fractionPart at hfraction
  split at hfraction
  · split_ifs at hfraction
    cases hfraction
  · next hdot =>
    cases hfraction
    cases s with
    | nil => rfl
    | cons c t =>
      simp only [exponentPart] at hexponent
      split_ifs at hexponent with he hdigits
      · cases hexponent
      · rw [List.headD_cons, goesOn_iff]
        push Not at he
        exact ⟨fun hc => hdot t (by rw [hc]), he⟩

theorem goesOn_of_parts {fraction exponent : Str} (hfraction : FractionText fraction)
    (hexponent : ExponentText exponent) (h : fraction ++ exponent ≠ []) (rest : Str) :
    goesOn ((fraction ++ exponent ++ rest).headD 0) = true := by
  cases hfraction with
  | digits => rfl
  | none =>
    cases hexponent with
    | none => exact absurd rfl h
    | digits he => rcases he with rfl | rfl <;> rfl

theorem goesOn_of_ends {rest : Str} (h : Ends rest) : goesOn (rest.headD 0) = false := by
  cases rest with
  | nil => rfl
  | cons c rest =>
    have hc := isNumeric_of_isEnd (h c rfl)
    simp only [isNumeric, Bool.or_eq_false_iff] at hc
    simp [goesOn, hc]

theorem parseNumber_recognizes (toInt : Str → ℤ) :
    Recognizes (parseNumber toInt) (fun t j => ∃ n, j = .number n ∧ NumberText toInt t n) Ends where
  sound {s rest j} h := by
    obtain ⟨sign, s₁, hs₁, h₁⟩ := bind_eq_ok h
    obtain ⟨digits, s₂, hs₂, h₂⟩ := bind_eq_ok h₁
    obtain ⟨next, s₃, hs₃, h₃⟩ := bind_eq_ok h₂
    cases hs₃
    obtain ⟨_, rfl, rfl, hsign⟩ := minusSign_passes.sound hs₁
    obtain ⟨_, rfl, rfl, hdigits⟩ := integerPart_passes.sound hs₂
    split_ifs at h₃ with hshort
    · cases h₃
      exact ⟨_, (List.append_assoc ..).symm, _, rfl, .short hsign hdigits hshort.2.2.2⟩
    · obtain ⟨fraction, s₄, hs₄, h₄⟩ := bind_eq_ok h₃
      obtain ⟨exponent, s₅, hs₅, h₅⟩ := bind_eq_ok h₄
      cases h₅
      have hmore : (sign ++ digits).length ≤ 9 → fraction ++ exponent ≠ [] := by
        intro hlength hnone
        have hnext := (goesOn_iff _).1 (avoids_of_parts hs₄ hs₅ hnone)
        exact hshort ⟨hnext.1, hnext.2.1, hnext.2.2, hlength⟩
      obtain ⟨_, rfl, rfl, hfraction⟩ := fractionPart_passes.sound hs₄
      obtain ⟨_, rfl, rfl, hexponent⟩ := exponentPart_passes.sound hs₅
      exact ⟨_, by simp, _, rfl, .long hsign hdigits hfraction hexponent hmore⟩
  complete := by
    rintro text rest j ⟨n, rfl, hn⟩ hrest
    cases hn with
    | @short sign digits hsign hdigits hlength =>
      have hs₁ := minusSign_passes.complete ⟨rfl, hsign⟩ (hdigits.avoids rest)
      have hs₂ := integerPart_passes.complete ⟨rfl, hdigits⟩
        (hrest.avoids.mono fun c hc => by simp [isNumeric, hc])
      have hnext := (goesOn_iff _).1 (goesOn_of_ends hrest)
      rw [List.append_assoc, parseNumber, bind_ok hs₁, bind_ok hs₂]
      change (if _ then _ else _ : Parser Json) rest = _
      rw [if_pos ⟨hnext.1, hnext.2.1, hnext.2.2, hlength⟩]
      rfl
    | @long sign digits fraction exponent hsign hdigits hfraction hexponent hmore =>
      have hs₁ := minusSign_passes.complete ⟨rfl, hsign⟩
        (hdigits.avoids (fraction ++ exponent ++ rest))
      have hafter : Avoids isDigit (fraction ++ exponent ++ rest) := by
        rw [List.append_assoc]
        apply hfraction.avoids.append
        apply (hexponent.avoids.mono fun c hc => by simp [hc]).append
        exact hrest.avoids.mono fun c hc => by simp [isNumeric, hc]
      have hs₂ := integerPart_passes.complete ⟨rfl, hdigits⟩ hafter
      have hlast : Avoids (fun c => isDigit c || c = 46) (exponent ++ rest) := by
        apply hexponent.avoids.append
        apply hrest.avoids.mono
        intro c hc
        simp only [Bool.or_eq_true] at hc
        simp only [isNumeric, Bool.or_eq_true]
        tauto
      have hs₃ := fractionPart_passes.complete ⟨rfl, hfraction⟩ hlast
      have hs₄ := exponentPart_passes.complete ⟨rfl, hexponent⟩
        (hrest.avoids.mono fun c hc => by
          simp only [Bool.or_eq_true] at hc
          simp only [isNumeric, Bool.or_eq_true]
          tauto)
      have htext : sign ++ digits ++ fraction ++ exponent ++ rest =
          sign ++ (digits ++ (fraction ++ exponent ++ rest)) := by simp
      rw [htext, parseNumber, bind_ok hs₁, bind_ok hs₂]
      change (if _ then _ else _ : Parser Json) (fraction ++ exponent ++ rest) = _
      rw [if_neg, List.append_assoc, bind_ok hs₃, bind_ok hs₄]
      · rfl
      · rintro ⟨hdot, he, he', hlength⟩
        have hgoes := goesOn_of_parts hfraction hexponent (hmore hlength) rest
        rw [(goesOn_iff _).2 ⟨hdot, he, he'⟩] at hgoes
        cases hgoes

theorem IntegerText.starts {t : Str} (h : IntegerText t) :
    ∃ c u, t = c :: u ∧ isDigit c = true := by
  cases h with
  | zero => exact ⟨48, [], rfl, rfl⟩
  | digits hc => exact ⟨_, _, rfl, hc⟩

theorem IntegerText.atoi_eq {t : Str} (h : IntegerText t) : atoi t = decimalValue t := by
  obtain ⟨c, u, rfl, hc⟩ := h.starts
  have hne : c ≠ 45 := by
    rintro rfl
    cases hc
  unfold atoi
  split
  · next heq => exact absurd (List.cons.inj heq).1 hne
  · rfl

theorem NumberText.starts {toInt : Str → ℤ} {t : Str} {n : ℤ} (h : NumberText toInt t n) :
    ∃ c u, t = c :: u ∧ (c = 45 ∨ isDigit c = true) := by
  have hpart : ∀ sign digits more : Str, (sign = [] ∨ sign = [45]) → IntegerText digits →
      ∃ c u, sign ++ digits ++ more = c :: u ∧ (c = 45 ∨ isDigit c = true) := by
    rintro sign digits more (rfl | rfl) hdigits
    · obtain ⟨c, u, rfl, hc⟩ := hdigits.starts
      exact ⟨c, _, rfl, Or.inr hc⟩
    · exact ⟨45, _, rfl, Or.inl rfl⟩
  cases h with
  | short hsign hdigits =>
    have h := hpart _ _ [] hsign hdigits
    rwa [List.append_nil] at h
  | long hsign hdigits =>
    rw [List.append_assoc]
    exact hpart _ _ _ hsign hdigits

end PolkadotApi.JsonNumbers
