import PolkadotApi.AddressRoundTrip
import PolkadotApi.NumeralCells
import PolkadotApi.StreamReader

set_option autoImplicit false

namespace PolkadotApi.Base58Buffers
open StreamReader MachineModel PositionalNumerals NumeralCells AddressCodec AddressRoundTrip

def digitsSize (len : ℕ) : Result ℕ :=
  if len * 137 < 2 ^ 31 then .ok (len * 137 / 100) else .error .undefined

def readDigits (digits : List ℕ) : ℕ → Option Str
  | 0 => some []
  | digitslen + 1 =>
    match digits[digitslen]?, readDigits digits digitslen with
    | some d, some rest => some (symbol d :: rest)
    | _, _ => none

/-- `EncodeBase58` with its own allocation: an access outside `digits` is undefined. -/
def encodeBase58Allocated (bytes : List UInt8) : Result Str := do
  let size ← digitsSize bytes.length
  match foldCells (2 ^ 32) 256 58 (bytes.map UInt8.toNat) (List.replicate size 0, 1) with
  | none => .error .undefined
  | some (digits, digitslen) =>
    match readDigits digits digitslen with
    | none => .error .undefined
    | some symbols => .ok (List.replicate (bytes.takeWhile (· = 0)).length 49 ++ symbols)

def DigitsInBounds (bytes : List UInt8) : Prop := encodeBase58Allocated bytes ≠ .error .undefined

theorem readDigits_eq (ds tail : List ℕ) :
    readDigits (ds ++ tail) ds.length = some (ds.reverse.map symbol) := by
  induction ds using List.reverseRecOn generalizing tail with
  | nil => rfl
  | append_singleton ds d ih =>
    have hlast : (ds ++ [d] ++ tail)[ds.length]? = some d := by
      rw [List.append_assoc]
      exact getElem?_middle ds tail d
    have hrest := ih ([d] ++ tail)
    rw [← List.append_assoc] at hrest
    rw [List.length_append, List.length_singleton, readDigits, hlast, hrest, List.reverse_append,
      List.reverse_singleton, List.singleton_append, List.map_cons]

theorem holds_zeros {size : ℕ} (h : 0 < size) :
    Holds size (numeral 58 0) (List.replicate size 0, 1) := by
  refine ⟨List.replicate (size - 1) 0, ?_, ?_⟩
  · rw [show numeral 58 0 ++ List.replicate (size - 1) 0 = List.replicate (size - 1 + 1) 0 from rfl,
      Nat.sub_add_cancel h]
    rfl
  · rw [List.length_replicate]
    exact Nat.add_sub_cancel' h

/-- Inside the block the loops compute what the growing digits do; the last
numeral alone decides whether they stay inside. -/
theorem encodeBase58Allocated_eq {bytes : List UInt8} (h : bytes ≠ []) :
    encodeBase58Allocated bytes =
      if bytes.length * 137 < 2 ^ 31 ∧
          valueBE 256 (bytes.map UInt8.toNat) < 58 ^ (bytes.length * 137 / 100) then
        .ok (encodeBase58 bytes)
      else .error .undefined := by
  have hlength : 0 < bytes.length := List.length_pos_iff.2 h
  have hsize : 0 < bytes.length * 137 / 100 := by omega
  by_cases hint : bytes.length * 137 < 2 ^ 31
  · rw [encodeBase58Allocated, digitsSize, if_pos hint, except_ok_bind]
    have hfits := numeral_length_le_iff (b := 58) (by norm_num) hsize
      (valueBE 256 (bytes.map UInt8.toNat))
    rcases foldCells_numeral (by norm_num) (by norm_num : 256 * 58 ≤ 2 ^ 32)
      (bytes.map UInt8.toNat) (toNat_lt_of_mem bytes) (holds_zeros hsize) with
      ⟨last, hlast, tail, rfl, hblock⟩ | ⟨hnone, hlong⟩
    · have hvalue : valueBE 256 (bytes.map UInt8.toNat) < 58 ^ (bytes.length * 137 / 100) := by
        apply hfits.1
        rw [← hblock]
        exact Nat.le_add_right _ _
      rw [hlast, if_pos ⟨hint, hvalue⟩, encodeBase58_eq]
      simp only [readDigits_eq]
      rfl
    · have hvalue : ¬ valueBE 256 (bytes.map UInt8.toNat) < 58 ^ (bytes.length * 137 / 100) := by
        intro hlt
        exact absurd (hfits.2 hlt) (Nat.not_le.2 hlong)
      rw [hnone, if_neg (fun hc => hvalue hc.2)]
  · rw [encodeBase58Allocated, digitsSize, if_neg hint, if_neg (fun hc => hint hc.1)]
    rfl

theorem plainBytes_out_of_bounds (blake2b : Hash) (pk : PublicKey) :
    encodeBase58Allocated (plainBytes blake2b pk) = .error .undefined := by
  have hlength := plainBytes_length blake2b pk
  have hne : plainBytes blake2b pk ≠ [] := List.ne_nil_of_length_pos (by omega)
  rw [encodeBase58Allocated_eq hne, hlength, if_neg]
  rintro ⟨_, hvalue⟩
  have hlow := (valueBE_version (pk.toList ++
    [(checksum blake2b (0x2A :: pk.toList)).1, (checksum blake2b (0x2A :: pk.toList)).2])
    (by simp)).1
  exact absurd hvalue (Nat.not_lt.2 hlow)

theorem digitsInBounds_iff (bytes : List UInt8) (h : bytes ≠ []) :
    DigitsInBounds bytes ↔ bytes.length * 137 < 2 ^ 31 ∧
      valueBE 256 (bytes.map UInt8.toNat) < 58 ^ (bytes.length * 137 / 100) := by
  rw [DigitsInBounds, encodeBase58Allocated_eq h]
  split_ifs with hfits
  · exact iff_of_true (by simp) hfits
  · exact iff_of_false (by simp) hfits

theorem digitsInBounds_zeros : DigitsInBounds [0, 0, 57] :=
  (digitsInBounds_iff [0, 0, 57] (by simp)).2 (by decide)

/-- The bytes of a known address: their last base-58 digit goes to `digits[47]`. -/
theorem digitsInBounds_fails :
    ¬ ∀ bytes : List UInt8, bytes ≠ [] → DigitsInBounds bytes := by
  intro h
  have hlength := plainBytes_length knownHash knownKey
  exact h (plainBytes knownHash knownKey) (List.ne_nil_of_length_pos (by omega))
    (plainBytes_out_of_bounds knownHash knownKey)

end PolkadotApi.Base58Buffers
