import PolkadotApi.PositionalNumerals

set_option autoImplicit false

namespace PolkadotApi.NumeralCells
open PositionalNumerals

def carryCells (word m b : ℕ) : ℕ → ℕ → ℕ → List ℕ → Option (List ℕ × ℕ)
  | 0, _, carry, cells => some (cells, carry)
  | rounds + 1, j, carry, cells =>
    match cells[j]? with
    | none => none
    | some d =>
      let c := (carry + d * m) % word
      carryCells word m b rounds (j + 1) (c / b) (cells.set j (c % b))

def pushCells (b : ℕ) : ℕ → ℕ → List ℕ → ℕ → Option (List ℕ × ℕ)
  | 0, _, cells, used => some (cells, used)
  | rounds + 1, carry, cells, used =>
    if carry = 0 then some (cells, used)
    else if used < cells.length then
      pushCells b rounds (carry / b) (cells.set used (carry % b)) (used + 1)
    else none

def mulAddCells (word m b carry : ℕ) (block : List ℕ × ℕ) : Option (List ℕ × ℕ) :=
  match carryCells word m b block.2 0 carry block.1 with
  | none => none
  | some (cells, rest) => pushCells b rest rest cells block.2

def foldCells (word m b : ℕ) : List ℕ → List ℕ × ℕ → Option (List ℕ × ℕ)
  | [], block => some block
  | c :: cs, block =>
    match mulAddCells word m b c block with
    | none => none
    | some block => foldCells word m b cs block

def Holds (size : ℕ) (ds : List ℕ) (block : List ℕ × ℕ) : Prop :=
  ∃ tail, block = (ds ++ tail, ds.length) ∧ ds.length + tail.length = size

section Loops

variable (word m b : ℕ)

theorem getElem?_middle (pre tail : List ℕ) (d : ℕ) :
    (pre ++ d :: tail)[pre.length]? = some d := by
  rw [List.getElem?_append_right le_rfl, Nat.sub_self, List.getElem?_cons_zero]

theorem set_middle (pre tail : List ℕ) (d e : ℕ) :
    (pre ++ d :: tail).set pre.length e = (pre ++ [e]) ++ tail := by
  rw [List.set_append_right _ _ le_rfl, Nat.sub_self, List.set_cons_zero, List.append_assoc,
    List.singleton_append]

theorem carryCells_eq (carry : ℕ) (pre ds tail : List ℕ) :
    carryCells word m b ds.length pre.length carry (pre ++ (ds ++ tail)) =
      some (pre ++ ((carryPass word m b carry ds).1 ++ tail), (carryPass word m b carry ds).2) := by
  induction ds generalizing carry pre with
  | nil => rfl
  | cons d ds ih =>
    have hnext := ih ((carry + d * m) % word / b) (pre ++ [(carry + d * m) % word % b])
    rw [List.length_append, List.length_singleton] at hnext
    rw [List.length_cons, List.cons_append, carryCells, getElem?_middle]
    simp only [set_middle]
    rw [hnext]
    simp only [carryPass, List.append_assoc, List.cons_append, List.nil_append]

theorem pushCells_eq (rounds carry : ℕ) (ds tail : List ℕ) :
    pushCells b rounds carry (ds ++ tail) ds.length =
      if (pushCarry b rounds carry).length ≤ tail.length then
        some (ds ++ (pushCarry b rounds carry ++ tail.drop (pushCarry b rounds carry).length),
          ds.length + (pushCarry b rounds carry).length)
      else none := by
  induction rounds generalizing carry ds tail with
  | zero => simp [pushCells, pushCarry]
  | succ rounds ih =>
    by_cases hcarry : carry = 0
    · simp [pushCells, pushCarry, hcarry]
    · rw [pushCells, pushCarry, if_neg hcarry, if_neg hcarry, List.length_cons]
      cases tail with
      | nil =>
        rw [List.append_nil, if_neg (Nat.lt_irrefl _), List.length_nil, if_neg (by omega)]
      | cons t tail =>
        have hnext := ih (carry / b) (ds ++ [carry % b]) tail
        rw [List.length_append, List.length_singleton] at hnext
        rw [if_pos (by simp), set_middle, hnext, List.length_cons, List.drop_succ_cons]
        simp only [Nat.add_le_add_iff_right, List.append_assoc, List.cons_append, List.nil_append,
          Nat.add_assoc, Nat.add_comm 1]

theorem mulAddCells_eq (carry : ℕ) (ds tail : List ℕ) :
    mulAddCells word m b carry (ds ++ tail, ds.length) =
      if (mulAddDigits word m b carry ds).length ≤ ds.length + tail.length then
        some (mulAddDigits word m b carry ds ++
            tail.drop ((mulAddDigits word m b carry ds).length - ds.length),
          (mulAddDigits word m b carry ds).length)
      else none := by
  have hlen : (carryPass word m b carry ds).1.length = ds.length := carryPass_length word m b carry ds
  have hpass := carryCells_eq word m b carry [] ds tail
  rw [List.nil_append, List.length_nil, List.nil_append] at hpass
  have hpush := pushCells_eq b (carryPass word m b carry ds).2 (carryPass word m b carry ds).2
    (carryPass word m b carry ds).1 tail
  rw [hlen] at hpush
  simp only [mulAddCells, hpass, hpush, mulAddDigits, List.length_append, hlen,
    Nat.add_le_add_iff_left, Nat.add_sub_cancel_left, List.append_assoc]

theorem mulAddCells_holds {size : ℕ} {ds : List ℕ} {block : List ℕ × ℕ} (h : Holds size ds block)
    (carry : ℕ) :
    (∃ next, mulAddCells word m b carry block = some next ∧
      Holds size (mulAddDigits word m b carry ds) next) ∨
    (mulAddCells word m b carry block = none ∧ size < (mulAddDigits word m b carry ds).length) := by
  obtain ⟨tail, rfl, hsize⟩ := h
  have hgrow := length_le_mulAddDigits word m b carry ds
  rw [mulAddCells_eq, hsize]
  by_cases hfits : (mulAddDigits word m b carry ds).length ≤ size
  · left
    rw [if_pos hfits]
    refine ⟨_, rfl, _, rfl, ?_⟩
    rw [List.length_drop]
    omega
  · right
    rw [if_neg hfits]
    exact ⟨rfl, by omega⟩

theorem length_le_foldl_mulAddDigits (cs ds : List ℕ) :
    ds.length ≤ (cs.foldl (fun ds c => mulAddDigits word m b c ds) ds).length := by
  induction cs generalizing ds with
  | nil => exact le_rfl
  | cons c cs ih => exact (length_le_mulAddDigits word m b c ds).trans (ih _)

/-- Digits are only added along the rounds, so the last ones decide whether they fit. -/
theorem foldCells_digits {size : ℕ} (cs : List ℕ) {ds : List ℕ} {block : List ℕ × ℕ}
    (h : Holds size ds block) :
    (∃ last, foldCells word m b cs block = some last ∧
      Holds size (cs.foldl (fun ds c => mulAddDigits word m b c ds) ds) last) ∨
    (foldCells word m b cs block = none ∧
      size < (cs.foldl (fun ds c => mulAddDigits word m b c ds) ds).length) := by
  induction cs generalizing ds block with
  | nil => exact .inl ⟨block, rfl, h⟩
  | cons c cs ih =>
    rw [foldCells, List.foldl_cons]
    rcases mulAddCells_holds word m b h c with ⟨next, hnext, hholds⟩ | ⟨hnone, hlong⟩
    · rw [hnext]
      exact ih hholds
    · rw [hnone]
      have hrest := length_le_foldl_mulAddDigits word m b cs (mulAddDigits word m b c ds)
      exact .inr ⟨rfl, by omega⟩

end Loops

section Numerals

variable {word m b : ℕ}

theorem numeral_length_le_iff (hb : 1 < b) {size : ℕ} (hsize : 0 < size) (n : ℕ) :
    (numeral b n).length ≤ size ↔ n < b ^ size := by
  by_cases hn : n = 0
  · subst n
    have hpow : 0 < b ^ size := Nat.pow_pos (by omega)
    simp only [numeral, if_pos, List.length_singleton]
    omega
  · rw [numeral, if_neg hn, Nat.digits_length_le_iff hb]

theorem foldCells_numeral (hb : 1 < b) (hw : m * b ≤ word) {size : ℕ} (cs : List ℕ)
    (hc : ∀ c ∈ cs, c < m) {n : ℕ} {block : List ℕ × ℕ} (h : Holds size (numeral b n) block) :
    (∃ last, foldCells word m b cs block = some last ∧
      Holds size (numeral b (cs.foldl (fun n c => n * m + c) n)) last) ∨
    (foldCells word m b cs block = none ∧
      size < (numeral b (cs.foldl (fun n c => n * m + c) n)).length) := by
  have hrun := foldCells_digits word m b cs h
  rwa [foldl_mulAddDigits_numeral hb hw cs hc n] at hrun

end Numerals

section Swaps

def swapCells (cells : List ℕ) (i j : ℕ) : Option (List ℕ) :=
  match cells[i]?, cells[j]? with
  | some x, some y => some ((cells.set i y).set j x)
  | _, _ => none

def swapDownCells (n z : ℕ) : ℕ → List ℕ → Option (List ℕ)
  | 0, cells => some cells
  | rounds + 1, cells =>
    match swapCells cells (z + rounds) (n - (z + rounds) - 1) with
    | none => none
    | some cells => swapDownCells n z rounds cells

theorem swapCells_eq {ds : List ℕ} {i j : ℕ} (hi : i < ds.length) (hj : j < ds.length)
    (tail : List ℕ) : swapCells (ds ++ tail) i j = some (swap ds i j ++ tail) := by
  rw [swapCells, List.getElem?_append_left hi, List.getElem?_append_left hj,
    List.getElem?_eq_getElem hi, List.getElem?_eq_getElem hj]
  rw [swap, List.getD_eq_getElem _ _ hi, List.getD_eq_getElem _ _ hj,
    ← List.set_append_left _ _ (by rwa [List.length_set]), ← List.set_append_left _ _ hi]

theorem swapDownCells_eq {n z rounds : ℕ} {ds : List ℕ} (hn : ds.length = n)
    (hk : z + rounds ≤ n) (tail : List ℕ) :
    swapDownCells n z rounds (ds ++ tail) = some (swapDown n z rounds ds ++ tail) := by
  induction rounds generalizing ds with
  | zero => rfl
  | succ rounds ih =>
    rw [swapDownCells, swapCells_eq (by omega) (by omega), swapDown]
    exact ih (by rw [swap_length, hn]) (by omega)

theorem swapDownCells_reverse (ds tail : List ℕ) :
    swapDownCells ds.length (ds.length / 2 + ds.length % 2)
      (ds.length - (ds.length / 2 + ds.length % 2)) (ds ++ tail) = some (ds.reverse ++ tail) := by
  rw [swapDownCells_eq rfl (by omega), swapDown_reverse]

end Swaps

end PolkadotApi.NumeralCells
