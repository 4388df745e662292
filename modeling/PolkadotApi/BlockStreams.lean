import Mathlib.Data.List.Basic

set_option autoImplicit false

namespace PolkadotApi.BlockStreams

variable {α σ : Type} {size : ℕ}

section Cuts

/-- Whole blocks for as long as something follows them. -/
def blocks (size : ℕ) (hsize : 0 < size) (data : List α) : List (List α) :=
  if size < data.length then data.take size :: blocks size hsize (data.drop size) else []
  termination_by data.length
  decreasing_by
    rw [List.length_drop]
    omega

/-- What is held back: nothing only if there was nothing. -/
def remainder (size : ℕ) (hsize : 0 < size) (data : List α) : List α :=
  if size < data.length then remainder size hsize (data.drop size) else data
  termination_by data.length
  decreasing_by
    rw [List.length_drop]
    omega

variable (hsize : 0 < size)

theorem blocks_of_le {data : List α} (h : data.length ≤ size) : blocks size hsize data = [] := by
  rw [blocks, if_neg (by omega)]

theorem remainder_of_le {data : List α} (h : data.length ≤ size) :
    remainder size hsize data = data := by
  rw [remainder, if_neg (by omega)]

theorem blocks_of_lt {data : List α} (h : size < data.length) :
    blocks size hsize data = data.take size :: blocks size hsize (data.drop size) := by
  rw [blocks, if_pos h]

theorem remainder_of_lt {data : List α} (h : size < data.length) :
    remainder size hsize data = remainder size hsize (data.drop size) := by
  rw [remainder, if_pos h]

include hsize in
theorem cut_induction {P : List α → Prop} (hlast : ∀ data, data.length ≤ size → P data)
    (hmore : ∀ data, size < data.length → P (data.drop size) → P data) (data : List α) :
    P data := by
  induction hn : data.length using Nat.strongRecOn generalizing data with
  | ind n ih =>
    by_cases h : size < data.length
    · apply hmore data h
      exact ih _ (by rw [List.length_drop]; omega) _ rfl
    · exact hlast data (by omega)

theorem length_remainder_le (data : List α) : (remainder size hsize data).length ≤ size := by
  induction data using cut_induction hsize with
  | hlast data h => rwa [remainder_of_le hsize h]
  | hmore data h ih => rwa [remainder_of_lt hsize h]

theorem cut_append (data more : List α) :
    blocks size hsize (data ++ more) =
        blocks size hsize data ++ blocks size hsize (remainder size hsize data ++ more) ∧
      remainder size hsize (data ++ more) =
        remainder size hsize (remainder size hsize data ++ more) := by
  induction data using cut_induction hsize with
  | hlast data h =>
    rw [blocks_of_le hsize h, remainder_of_le hsize h, List.nil_append]
    exact ⟨rfl, rfl⟩
  | hmore data h ih =>
    have hlong : size < (data ++ more).length := by
      rw [List.length_append]
      omega
    have htake : (data ++ more).take size = data.take size := List.take_append_of_le_length (by omega)
    have hdrop : (data ++ more).drop size = data.drop size ++ more :=
      List.drop_append_of_le_length (by omega)
    rw [blocks_of_lt hsize hlong, remainder_of_lt hsize hlong, blocks_of_lt hsize h,
      remainder_of_lt hsize h, htake, hdrop, ih.1, ih.2, List.cons_append]
    exact ⟨rfl, rfl⟩

end Cuts

section Feeding

structure Buffered (σ α : Type) where
  core : σ
  held : List α

variable (hsize : 0 < size) (eat : σ → List α → σ)

def feed (s : Buffered σ α) (input : List α) : Buffered σ α :=
  ⟨(blocks size hsize (s.held ++ input)).foldl eat s.core, remainder size hsize (s.held ++ input)⟩

theorem feed_append (s : Buffered σ α) (input more : List α) :
    feed hsize eat s (input ++ more) = feed hsize eat (feed hsize eat s input) more := by
  obtain ⟨hblocks, hheld⟩ := cut_append hsize (s.held ++ input) more
  simp only [feed, ← List.append_assoc, hblocks, hheld, List.foldl_append]

end Feeding

end PolkadotApi.BlockStreams
