import PolkadotApi.DecodedValues
import PolkadotApi.NumeralCells
import PolkadotApi.StreamReader

set_option autoImplicit false

namespace PolkadotApi.Base58DecodeBounds
open StreamReader MachineModel PositionalNumerals NumeralCells AddressCodec DecodedValues

def storeDigits : Str → List ℕ × ℕ → Result (List ℕ × ℕ)
  | [], block => .ok block
  | c :: str, block => do
    let carry ← symbolValue c
    match mulAddCells (2 ^ 32) 58 256 carry block with
    | none => .error .undefined
    | some next => storeDigits str next

/-- `result[resultlen++] = 0` for each leading `'1'`. -/
def storeZeros : Str → List ℕ × ℕ → Result (List ℕ × ℕ)
  | [], block => .ok block
  | c :: str, block =>
    if c = 49 then
      if block.2 < block.1.length then storeZeros str (block.1.set block.2 0, block.2 + 1)
      else .error .undefined
    else .ok block

/-- `DecodeBase58` on a given buffer, with the buffer and `resultlen` as it leaves them. -/
def decodeBase58Into : List UInt8 → Str → Result (List UInt8 × ℕ)
  | [], _ => .error .undefined
  | _ :: buffer, str => do
    let digits ← storeDigits str (0 :: buffer.map UInt8.toNat, 1)
    let (result, resultlen) ← storeZeros str digits
    let z := (resultlen >>> 1) + (resultlen &&& 1)
    match swapDownCells resultlen z (resultlen - z) result with
    | none => .error .undefined
    | some result => .ok (result.map UInt8.ofNat, resultlen)

def DecodesInBounds (addr : Address) : Prop :=
  ∀ bs58decoded : FixedBytes 48,
    decodeBase58Into bs58decoded.toList addr.toList ≠ .error .undefined

def significant (addr : Address) : List ℤ := (addr.toList.dropWhile (· = 49)).map symbolDigit

section Loops

theorem storeDigits_mapped {str : Str} (h : ∀ c ∈ str, c.toNat < 128) (block : List ℕ × ℕ) :
    storeDigits str block =
      (foldCells (2 ^ 32) 58 256 ((str.map symbolDigit).map word) block).elim
        (.error .undefined) .ok := by
  induction str generalizing block with
  | nil => rfl
  | cons c str ih =>
    rw [storeDigits, symbolValue_mapped (h c (by simp)), except_ok_bind, List.map_cons,
      List.map_cons, foldCells]
    cases mulAddCells (2 ^ 32) 58 256 (word (symbolDigit c)) block with
    | none => rfl
    | some next => exact ih (fun x hx => h x (by simp [hx])) next

theorem storeDigits_unmapped {str : Str} {c : UInt8} (hc : c ∈ str) (h : 128 ≤ c.toNat)
    (block : List ℕ × ℕ) : storeDigits str block = .error .undefined := by
  induction str generalizing block with
  | nil => exact absurd hc List.not_mem_nil
  | cons x str ih =>
    rcases List.mem_cons.1 hc with rfl | hc
    · rw [storeDigits, symbolValue_unmapped h, except_error_bind]
    · by_cases hx : x.toNat < 128
      · rw [storeDigits, symbolValue_mapped hx, except_ok_bind]
        cases mulAddCells (2 ^ 32) 58 256 (word (symbolDigit x)) block with
        | none => rfl
        | some next => exact ih hc next
      · rw [storeDigits, symbolValue_unmapped (by omega), except_error_bind]

theorem storeZeros_holds {size : ℕ} (str : Str) {ds : List ℕ} {block : List ℕ × ℕ}
    (h : Holds size ds block) :
    (∃ next, storeZeros str block = .ok next ∧
      Holds size (ds ++ List.replicate (str.takeWhile (· = 49)).length 0) next) ∨
    (storeZeros str block = .error .undefined ∧
      size < ds.length + (str.takeWhile (· = 49)).length) := by
  induction str generalizing ds block with
  | nil => exact .inl ⟨block, rfl, by simpa using h⟩
  | cons c str ih =>
    by_cases hc : c = 49
    · obtain ⟨tail, rfl, hsize⟩ := h
      rw [storeZeros, if_pos hc, List.takeWhile_cons_of_pos (by simpa using hc), List.length_cons]
      cases tail with
      | nil =>
        rw [List.length_nil] at hsize
        rw [List.append_nil, if_neg (Nat.lt_irrefl _)]
        exact .inr ⟨rfl, by omega⟩
      | cons t tail =>
        have hlength : (ds ++ [0]).length = ds.length + 1 := List.length_append
        have hnext : Holds size (ds ++ [0]) ((ds ++ [0]) ++ tail, ds.length + 1) := by
          rw [List.length_cons] at hsize
          exact ⟨tail, by rw [hlength], by omega⟩
        have hrest := ih hnext
        rw [hlength, Nat.add_right_comm, Nat.add_assoc, List.append_assoc ds [0] (List.replicate _ 0),
          List.singleton_append, ← List.replicate_succ] at hrest
        rw [if_pos (by simp)]
        simp only [set_middle]
        exact hrest
    · rw [storeZeros, if_neg hc, List.takeWhile_cons_of_neg (by simpa using hc)]
      exact .inl ⟨block, rfl, by simpa using h⟩

end Loops

section Buffer

theorem holds_first (buffer : List UInt8) :
    Holds (buffer.length + 1) [0] (0 :: buffer.map UInt8.toNat, 1) := by
  refine ⟨buffer.map UInt8.toNat, rfl, ?_⟩
  rw [List.length_map, List.length_singleton, Nat.add_comm]

theorem decodeBase58Into_mapped {str : Str} (h : ∀ c ∈ str, c.toNat < 128) {bytes : List UInt8}
    (hbytes : decodeBase58 str = .ok bytes) (first : UInt8) (buffer : List UInt8) :
    (bytes.length ≤ buffer.length + 1 ∧
      ∃ tail, decodeBase58Into (first :: buffer) str = .ok (bytes ++ tail, bytes.length)) ∨
    (buffer.length + 1 < bytes.length ∧
      decodeBase58Into (first :: buffer) str = .error .undefined) := by
  rw [decodeBase58_of_digits (decodeDigits_mapped h [0]), Except.ok.injEq] at hbytes
  subst bytes
  rw [decodeBase58Into, storeDigits_mapped h, List.length_map, List.length_reverse]
  rcases foldCells_digits (2 ^ 32) 58 256 ((str.map symbolDigit).map word) (holds_first buffer) with
    ⟨last, hlast, hholds⟩ | ⟨hnone, hlong⟩
  · rw [hlast, Option.elim_some, except_ok_bind]
    rcases storeZeros_holds str hholds with ⟨next, hnext, tail, rfl, hsize⟩ | ⟨hnext, hlong⟩
    · left
      rw [hnext, except_ok_bind]
      refine ⟨by omega, tail.map UInt8.ofNat, ?_⟩
      simp only [middle_eq, swapDownCells_reverse, List.map_append]
    · right
      rw [hnext, except_error_bind, List.length_append, List.length_replicate]
      exact ⟨hlong, rfl⟩
  · right
    rw [hnone, Option.elim_none, except_error_bind, List.length_append]
    exact ⟨by omega, rfl⟩

theorem decodeBase58Into_unmapped {str : Str} {c : UInt8} (hc : c ∈ str) (h : 128 ≤ c.toNat)
    (buffer : List UInt8) : decodeBase58Into buffer str = .error .undefined := by
  cases buffer with
  | nil => rfl
  | cons first buffer => rw [decodeBase58Into, storeDigits_unmapped hc h, except_error_bind]

end Buffer

section Addresses

theorem decodesInBounds_iff_length {addr : Address} (h : ∀ c ∈ addr.toList, c.toNat < 128)
    {bytes : List UInt8} (hbytes : decodeBase58 addr.toList = .ok bytes) :
    DecodesInBounds addr ↔ bytes.length ≤ 48 := by
  constructor
  · intro hbounds
    rcases decodeBase58Into_mapped h hbytes 0 (List.replicate 47 0) with ⟨hfits, _⟩ | ⟨_, hout⟩
    · exact hfits
    · exact absurd hout (hbounds (FixedBytes.zero 48))
  · intro hfits bs58decoded
    obtain ⟨first, buffer, hbuffer⟩ : ∃ first buffer, bs58decoded.toList = first :: buffer :=
      List.exists_cons_of_length_pos (by simp)
    have hlength := bs58decoded.length_toList
    rw [hbuffer, List.length_cons] at hlength
    rw [hbuffer]
    rcases decodeBase58Into_mapped h hbytes first buffer with ⟨_, tail, hok⟩ | ⟨hlong, _⟩
    · rw [hok]
      exact fun hne => nomatch hne
    · omega

theorem significant_mapped (addr : Address) : ∀ a ∈ significant addr, Mapped a :=
  mapped_of_mem (addr.toList.dropWhile (· = 49))

theorem significant_length (addr : Address) :
    (addr.toList.takeWhile (· = 49)).length + (significant addr).length = 48 := by
  rw [significant, List.length_map, ← List.length_append, List.takeWhile_append_dropWhile]
  exact addr.length_toList

/-- Each significant symbol makes room for one byte, each leading `'1'` fills one. -/
theorem decodesInBounds_mapped {addr : Address} (h : ∀ c ∈ addr.toList, c.toNat < 128) :
    DecodesInBounds addr ↔ significant addr ≠ [] ∧
      absorbed (significant addr) < 256 ^ (significant addr).length := by
  have hlength := significant_length addr
  have hpos := numeral_length_pos (b := 256) (by norm_num) (absorbed (significant addr))
  rw [decodesInBounds_iff_length h (decodeBase58_mapped h), List.length_map, List.length_reverse,
    List.length_append, List.length_replicate, absorbed_leading, ← significant]
  by_cases hne : significant addr = []
  · rw [hne, List.length_nil] at hlength
    exact iff_of_false (by omega) (fun hc => hc.1 hne)
  · have hroom := numeral_length_le_iff (b := 256) (by norm_num) (List.length_pos_iff.2 hne)
      (absorbed (significant addr))
    rw [← hroom]
    constructor
    · intro hfits
      exact ⟨hne, by omega⟩
    · rintro ⟨_, hfits⟩
      omega

/-- Symbols of the alphabet alone cannot overrun the buffer, unless all are `'1'`. -/
theorem decodesInBounds_alphabet {addr : Address} (h : ∀ c ∈ addr.toList, c ∈ alphabet)
    (hone : ∃ c ∈ addr.toList, c ≠ 49) : DecodesInBounds addr := by
  have hmap : ∀ c ∈ addr.toList, c.toNat < 128 := fun c hc => (alphabet_mapped c (h c hc)).1
  have hne : significant addr ≠ [] := by
    intro hnil
    obtain ⟨c, hc, hc49⟩ := hone
    have hall := List.dropWhile_eq_nil_iff.1 (List.map_eq_nil_iff.1 hnil) c hc
    exact hc49 (of_decide_eq_true hall)
  have hquiet : ∀ t, ¬ AddsWord (significant addr) t := by
    rintro t ⟨hword, _⟩
    obtain ⟨c, hc, hdigit⟩ := List.mem_map.1 (List.mem_of_getElem? hword)
    exact (alphabet_mapped c (h c ((List.dropWhile_sublist _).subset hc))).2 hdigit
  rw [decodesInBounds_mapped hmap]
  exact ⟨hne, absorbed_lt_of_room (significant_mapped addr) (headD_leading hne)
    (fun hword => absurd hword (hquiet 0)) (fun hword => absurd hword (hquiet 2))
    (fun hword => absurd hword (hquiet 3))⟩

theorem decodesInBounds_iff (addr : Address) :
    DecodesInBounds addr ↔
      (∀ c ∈ addr.toList, c.toNat < 128) ∧ significant addr ≠ [] ∧
        (AddsWord (significant addr) 0 → 13 ≤ (significant addr).length) ∧
        (AddsWord (significant addr) 2 → 7 ≤ (significant addr).length) ∧
        (AddsWord (significant addr) 3 → 5 ≤ (significant addr).length) := by
  by_cases hmap : ∀ c ∈ addr.toList, c.toNat < 128
  · rw [decodesInBounds_mapped hmap]
    constructor
    · rintro ⟨hne, hlt⟩
      exact ⟨hmap, hne, (absorbed_lt_iff (significant_mapped addr) (headD_leading hne)).1 hlt⟩
    · rintro ⟨_, hne, hroom⟩
      exact ⟨hne, (absorbed_lt_iff (significant_mapped addr) (headD_leading hne)).2 hroom⟩
  · refine iff_of_false (fun hbounds => ?_) (fun hc => hmap hc.1)
    push Not at hmap
    obtain ⟨c, hc, hbyte⟩ := hmap
    exact hbounds (FixedBytes.zero 48) (decodeBase58Into_unmapped hc hbyte _)

/-- An address of `'1'`s only: one digit for zero and 48 pushed zeros. -/
theorem decodesInBounds_fails : ¬ ∀ addr : Address, DecodesInBounds addr := by
  intro h
  have hout : decodeBase58Into (List.replicate 48 0) (List.replicate 48 49) = .error .undefined := by
    decide +kernel
  exact h ⟨List.replicate 48 49, rfl⟩ (FixedBytes.zero 48) hout

example : decodeBase58Into (List.replicate 48 0) (List.replicate 47 49 ++ [48]) =
    .error .undefined := by decide +kernel

end Addresses

end PolkadotApi.Base58DecodeBounds
