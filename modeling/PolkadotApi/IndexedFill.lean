import Mathlib

set_option autoImplicit false

namespace PolkadotApi.IndexedFill

section Fill

variable {ε α β : Type}

/-- `for (x : xs) { put x into cells[i]; i++; }`; what a cell held before is at hand. -/
def fillFrom (fault : ε) (cap : ℕ) (put : β → α → Except ε α) :
    List β → ℕ → (ℕ → α) → Except ε (ℕ → α)
  | [], _, cells => .ok cells
  | x :: xs, i, cells =>
    if i < cap then do
      let c ← put x (cells i)
      fillFrom fault cap put xs (i + 1) (Function.update cells i c)
    else .error fault

/-- The array with `ys` laid over it from index `i` on. -/
def laid (i : ℕ) (ys : List α) (cells : ℕ → α) : ℕ → α :=
  fun k => if i ≤ k then ys.getD (k - i) (cells k) else cells k

theorem laid_nil (i : ℕ) (cells : ℕ → α) : laid i [] cells = cells := by
  funext k
  simp [laid]

theorem laid_cons (i : ℕ) (y : α) (ys : List α) (cells : ℕ → α) :
    laid (i + 1) ys (Function.update cells i y) = laid i (y :: ys) cells := by
  funext k
  rcases Nat.lt_trichotomy k i with h | rfl | h
  · simp only [laid, if_neg (by omega : ¬ i + 1 ≤ k), if_neg (by omega : ¬ i ≤ k),
      Function.update_of_ne (by omega : k ≠ i)]
  · simp [laid]
  · have hk : k - i = k - (i + 1) + 1 := by omega
    simp only [laid, if_pos (by omega : i + 1 ≤ k), if_pos (by omega : i ≤ k), hk,
      List.getD_cons_succ, Function.update_of_ne (by omega : k ≠ i)]

theorem laid_zero (ys : List α) (cells : ℕ → α) (k : ℕ) :
    laid 0 ys cells k = ys.getD k (cells k) := by
  simp [laid]

theorem fillFrom_eq {fault : ε} {cap : ℕ} {put : β → α → Except ε α} (value : β → α) (xs : List β)
    (i : ℕ) (cells : ℕ → α) (hput : ∀ x ∈ xs, ∀ j, i ≤ j → put x (cells j) = .ok (value x))
    (hcap : i + xs.length ≤ cap) :
    fillFrom fault cap put xs i cells = .ok (laid i (xs.map value) cells) := by
  induction xs generalizing i cells with
  | nil => rw [fillFrom, List.map_nil, laid_nil]
  | cons x xs ih =>
    rw [List.length_cons] at hcap
    rw [fillFrom, if_pos (by omega), hput x (by simp) i le_rfl]
    change fillFrom fault cap put xs (i + 1) (Function.update cells i (value x)) = _
    rw [ih (i + 1) _ _ (by omega), laid_cons, List.map_cons]
    intro y hy j hj
    rw [Function.update_of_ne (by omega)]
    exact hput y (by simp [hy]) j (by omega)

end Fill

end PolkadotApi.IndexedFill
