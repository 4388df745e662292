import Mathlib.Data.List.Infix

set_option autoImplicit false

namespace PolkadotApi.SubstringSearch

variable {α : Type} [DecidableEq α] {pattern text rest : List α}

def search (pattern : List α) : List α → Option (List α)
  | [] => if pattern = [] then some [] else none
  | a :: text => if pattern.isPrefixOf (a :: text) then some (a :: text) else search pattern text

theorem search_eq_some (h : search pattern text = some rest) :
    rest <:+ text ∧ pattern <+: rest := by
  induction text with
  | nil =>
    rw [search] at h
    split_ifs at h with hnil
    cases h
    rw [hnil]
    exact ⟨List.suffix_rfl, List.nil_prefix⟩
  | cons a text ih =>
    rw [search] at h
    split_ifs at h with hhere
    · cases h
      exact ⟨List.suffix_rfl, List.isPrefixOf_iff_prefix.1 hhere⟩
    · obtain ⟨hsuffix, hstart⟩ := ih h
      exact ⟨hsuffix.trans (List.suffix_cons a text), hstart⟩

theorem search_isSome_iff : (search pattern text).isSome ↔ pattern <:+: text := by
  constructor
  · intro h
    obtain ⟨rest, hrest⟩ := Option.isSome_iff_exists.1 h
    obtain ⟨hsuffix, hstart⟩ := search_eq_some hrest
    exact hstart.isInfix.trans hsuffix.isInfix
  · intro h
    induction text with
    | nil =>
      rw [search, if_pos (List.infix_nil.1 h)]
      rfl
    | cons a text ih =>
      rw [search]
      split_ifs with hhere
      · rfl
      · rcases List.infix_cons_iff.1 h with hstart | hlater
        · exact absurd ( List.isPrefixOf_iff_prefix.2 hstart) hhere
        · exact ih hlater

theorem search_append_of_notMem {a : α} {before : List α} (h : a ∉ before) :
    search (a :: pattern) (before ++ text) = search (a :: pattern) text := by
  induction before with
  | nil => rfl
  | cons b before ih =>
    have hne : a ≠ b := fun heq => h (heq ▸ List.mem_cons_self)
    have hskip : (a :: pattern).isPrefixOf (b :: (before ++ text)) = false := by
      simp [List.isPrefixOf, hne]
    rw [List.cons_append, search, hskip]
    exact ih fun hmem => h (List.mem_cons_of_mem b hmem)

theorem search_self (h : pattern <+: text) : search pattern text = some text := by
  cases text with
  | nil => rw [search, if_pos (List.prefix_nil.1 h)]
  | cons a text => rw [search, if_pos ( List.isPrefixOf_iff_prefix.2 h)]

end PolkadotApi.SubstringSearch
