import PolkadotApi.StreamReader

set_option autoImplicit false

/-!
`Spells bs t` holds when the text `t` gives the bytes `bs` with two hexadecimal digits
each, in any mixture of upper and lower case; a `Script` is a choice of such
texts. `Decodes R p bs a` says that a reader takes exactly the digits of `bs`,
written in the script `R`, off any stream that starts with them and returns
`a`; it composes along the reader's sequences and loops.
-/
namespace PolkadotApi.HexText
open StreamReader

def hexValue (c : UInt8) : Option ℕ :=
  if 48 ≤ c ∧ c ≤ 57 then some (c.toNat - 48)
  else if 65 ≤ c ∧ c ≤ 70 then some (c.toNat - 55)
  else if 97 ≤ c ∧ c ≤ 102 then some (c.toNat - 87)
  else none

theorem hexValue_lt {c : UInt8} {v : ℕ} (h : hexValue c = some v) : v < 16 := by
  unfold hexValue at h
  simp only [UInt8.le_iff_toNat_le] at h
  split_ifs at h with h₁ h₂ h₃
  all_goals
    cases h
    simp_all
    omega

def upperDigit (v : ℕ) : UInt8 := if v < 10 then UInt8.ofNat (48 + v) else UInt8.ofNat (55 + v)

theorem hexValue_upperDigit {v : ℕ} (h : v < 16) : hexValue (upperDigit v) = some v := by
  interval_cases v <;> rfl

inductive Spells : List UInt8 → List UInt8 → Prop where
  | nil : Spells [] []
  | cons {b c d : UInt8} {bs t : List UInt8} (high : hexValue c = some (b.toNat / 16))
      (low : hexValue d = some (b.toNat % 16)) (tail : Spells bs t) :
      Spells (b :: bs) (c :: d :: t)

theorem Spells.split {as bs t : List UInt8} (h : Spells (as ++ bs) t) :
    ∃ u v, t = u ++ v ∧ Spells as u ∧ Spells bs v := by
  induction as generalizing t with
  | nil => exact ⟨[], t, rfl, .nil, h⟩
  | cons a as ih =>
    cases h with
    | cons high low tail =>
      obtain ⟨u, v, rfl, hu, hv⟩ := ih tail
      exact ⟨_ :: _ :: u, v, rfl, .cons high low hu, hv⟩

theorem Spells.length {bs t : List UInt8} (h : Spells bs t) : t.length = 2 * bs.length := by
  induction h with
  | nil => rfl
  | cons _ _ _ ih =>
    simp only [List.length_cons, ih]
    omega

/-- A way of writing bytes down that can be cut at byte boundaries. -/
structure Script where
  Writes : List UInt8 → List UInt8 → Prop
  spells {bs t : List UInt8} : Writes bs t → Spells bs t
  split {as bs t : List UInt8} :
    Writes (as ++ bs) t → ∃ u v, t = u ++ v ∧ Writes as u ∧ Writes bs v

def anyCase : Script := ⟨Spells, id, Spells.split⟩

structure DigitSet where
  digit : ℕ → UInt8
  hexValue_digit {v : ℕ} : v < 16 → hexValue (digit v) = some v

namespace DigitSet

def upper : DigitSet := ⟨upperDigit, hexValue_upperDigit⟩

def text (d : DigitSet) : List UInt8 → List UInt8
  | [] => []
  | b :: bs => d.digit (b.toNat / 16) :: d.digit (b.toNat % 16) :: text d bs

theorem spells_text (d : DigitSet) (bs : List UInt8) : Spells bs (d.text bs) := by
  induction bs with
  | nil => exact .nil
  | cons b bs ih =>
    have hb := b.toNat_lt
    exact .cons (d.hexValue_digit (by omega)) (d.hexValue_digit (by omega)) ih

theorem text_append (d : DigitSet) (as bs : List UInt8) :
    d.text (as ++ bs) = d.text as ++ d.text bs := by
  induction as with
  | nil => rfl
  | cons a as ih => simp [text, ih]

def script (d : DigitSet) : Script where
  Writes bs t := t = d.text bs
  spells h := by
    subst h
    exact d.spells_text _
  split h := ⟨_, _, h.trans (d.text_append _ _), rfl, rfl⟩

end DigitSet

abbrev upperText (bs : List UInt8) : List UInt8 := DigitSet.upper.text bs

section Decoding

variable {R : Script} {ε α β : Type}

def Decodes (R : Script) (p : Scan (List UInt8) ε α) (bs : List UInt8) (a : α) : Prop :=
  ∀ text rest, R.Writes bs text → p (text ++ rest) = .ok (a, rest)

theorem Decodes.of_pure {p : Scan (List UInt8) ε α} {a : α} (h : ∀ s, p s = .ok (a, s)) :
    Decodes R p [] a := by
  intro text rest ht
  cases R.spells ht
  exact h rest

theorem Decodes.bind {p : Scan (List UInt8) ε α} {f : α → Scan (List UInt8) ε β}
    {bs cs : List UInt8} {a : α} {b : β} (h : Decodes R p bs a) (h' : Decodes R (f a) cs b) :
    Decodes R (p >>= f) (bs ++ cs) b := by
  intro text rest ht
  obtain ⟨u, v, rfl, hu, hv⟩ := R.split ht
  rw [List.append_assoc, bind_ok (h u (v ++ rest) hu)]
  exact h' v rest hv

theorem Decodes.bind_end {p : Scan (List UInt8) ε α} {f : α → Scan (List UInt8) ε β}
    {bs : List UInt8} {a : α} {b : β} (h : Decodes R p bs a) (h' : Decodes R (f a) [] b) :
    Decodes R (p >>= f) bs b := by
  simpa using h.bind h'

theorem Decodes.readsAll {γ : Type} {item : Scan (List UInt8) ε α} {code : γ → List UInt8}
    {value : γ → α} {xs : List γ} (h : ∀ x ∈ xs, Decodes R item (code x) (value x))
    {text : List UInt8} (ht : R.Writes (xs.flatMap code) text) (rest : List UInt8) :
    ReadsAll item (xs.map value) (text ++ rest) rest := by
  induction xs generalizing text with
  | nil =>
    cases R.spells ht
    exact .nil rest
  | cons x xs ih =>
    rw [List.flatMap_cons] at ht
    obtain ⟨u, v, rfl, hu, hv⟩ := R.split ht
    rw [List.append_assoc]
    refine .cons (h x (by simp) u (v ++ rest) hu) ?_
    exact ih (fun y hy => h y (by simp [hy])) hv

theorem Decodes.storeEach {γ : Type} {item : Scan (List UInt8) ε α} {code : γ → List UInt8}
    {value : γ → α} {xs : List γ} [Outside ε] {cap : ℕ} (hcap : xs.length ≤ cap)
    (h : ∀ x ∈ xs, Decodes R item (code x) (value x)) :
    Decodes R (storeEach cap xs.length item) (xs.flatMap code)
      (Slots.ofList (xs.map value)) := by
  intro text rest ht
  exact (storeEach_eq_ok_iff cap xs.length item _ _ _).2
    ⟨xs.map value, Decodes.readsAll h ht rest, by simp, by simpa using hcap, rfl⟩

theorem Decodes.claimEach {γ : Type} {item : Scan (List UInt8) ε α} {code : γ → List UInt8}
    {value : γ → α} {xs : List γ} [Outside ε] {cap : ℕ} (hcap : xs.length ≤ cap)
    (h : ∀ x ∈ xs, Decodes R item (code x) (value x)) :
    Decodes R (claimEach cap xs.length item) (xs.flatMap code)
      (Slots.ofList (xs.map value)) := by
  intro text rest ht
  exact (claimEach_eq_ok_iff cap xs.length item _ _ _).2
    ⟨xs.map value, Decodes.readsAll h ht rest, by simp, by simpa using hcap, rfl⟩

end Decoding

end PolkadotApi.HexText
