import PolkadotApi.PositionalNumerals

set_option autoImplicit false

namespace PolkadotApi.NumeralTexts
open PositionalNumerals

variable {γ : Type} (f : ℕ → γ) {b : ℕ}

def plainText (b n : ℕ) : List γ := (numeral b n).reverse.map f

def padLeft (width : ℕ) (fill : γ) (text : List γ) : List γ :=
  List.replicate (width - text.length) fill ++ text

theorem padLeft_plainText {k : ℕ} (hk : 0 < k) (r : ℕ) :
    padLeft k (f 0) (plainText f b r) =
      (Nat.digits b r ++ List.replicate (k - (Nat.digits b r).length) 0).reverse.map f := by
  by_cases hr : r = 0
  · subst hr
    obtain ⟨j, rfl⟩ : ∃ j, k = j + 1 := ⟨k - 1, by omega⟩
    simp only [padLeft, plainText, numeral, if_pos, Nat.digits_zero, List.nil_append,
      List.reverse_singleton, List.map_singleton, List.length_singleton, List.length_nil, List.reverse_replicate,
      List.map_replicate, Nat.add_sub_cancel, Nat.sub_zero]
    exact List.replicate_succ'.symm
  · simp [padLeft, plainText, numeral, hr]

theorem plainText_split (hb : 1 < b) {k q r : ℕ} (hk : 0 < k) (hq : q ≠ 0) (hr : r < b ^ k) :
    plainText f b (q * b ^ k + r) = plainText f b q ++ padLeft k (f 0) (plainText f b r) := by
  have hlength : (Nat.digits b r).length ≤ k := (Nat.digits_length_le_iff hb r).2 hr
  have hdigits := Nat.digits_append_zeroes_append_digits (k := k - (Nat.digits b r).length)
    (n := r) hb (Nat.pos_of_ne_zero hq)
  have hexponent : (Nat.digits b r).length + (k - (Nat.digits b r).length) = k := by omega
  rw [hexponent] at hdigits
  have hpos : 0 < q * b ^ k := Nat.mul_pos (Nat.pos_of_ne_zero hq) (Nat.pow_pos (by omega))
  rw [padLeft_plainText f hk, plainText, plainText, numeral, numeral, if_neg (by omega), if_neg hq,
    Nat.add_comm, Nat.mul_comm, ← hdigits, List.reverse_append, List.map_append]

end PolkadotApi.NumeralTexts
