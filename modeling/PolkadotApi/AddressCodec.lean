import PolkadotApi.MachineModel
import PolkadotApi.PositionalNumerals

set_option autoImplicit false

/-!
The digit and byte buffers grow as the code writes them, so their final length
is the number of cells the code touched. Blake2b is a parameter.
-/
namespace PolkadotApi.AddressCodec
open MachineModel PositionalNumerals

abbrev Hash := List UInt8 → FixedBytes 64

abbrev PublicKey := FixedBytes 32

abbrev Address := FixedBytes 48

def alphabet : Str := lit "123456789ABCDEFGHJKLMNPQRSTUVWXYZabcdefghijkmnopqrstuvwxyz"

def alphabetMap : List ℤ :=
  [-1, -1, -1, -1, -1, -1, -1, -1, -1, -1, -1, -1, -1, -1, -1, -1, -1, -1, -1, -1, -1, -1, -1,
   -1, -1, -1, -1, -1, -1, -1, -1, -1, -1, -1, -1, -1, -1, -1, -1, -1, -1, -1, -1, -1, -1, -1,
   -1, -1, -1, 0, 1, 2, 3, 4, 5, 6, 7, 8, -1, -1, -1, -1, -1, -1, -1, 9, 10, 11, 12, 13, 14,
   15, 16, -1, 17, 18, 19, 20, 21, -1, 22, 23, 24, 25, 26, 27, 28, 29, 30, 31, 32, -1, -1, -1,
   -1, -1, -1, 33, 34, 35, 36, 37, 38, 39, 40, 41, 42, 43, -1, 44, 45, 46, 47, 48, 49, 50, 51,
   52, 53, 54, 55, 56, 57, -1, -1, -1, -1, -1]

def symbol (d : ℕ) : UInt8 := alphabet.getD d 0

/-- `(unsigned int)ALPHABET_MAP[c]`; a byte past the table reads outside it. -/
def symbolValue (c : UInt8) : Result ℕ :=
  match alphabetMap[c.toNat]? with
  | some z => .ok (z % 2 ^ 32).toNat
  | none => .error .undefined

def encodeBase58 (bytes : List UInt8) : Str :=
  let digits := (bytes.map UInt8.toNat).foldl (fun ds b => mulAddDigits (2 ^ 32) 256 58 b ds) [0]
  List.replicate (bytes.takeWhile (· = 0)).length 49 ++ digits.reverse.map symbol

def decodeDigits : Str → List ℕ → Result (List ℕ)
  | [], result => .ok result
  | c :: str, result => do
    let carry ← symbolValue c
    decodeDigits str (mulAddDigits (2 ^ 32) 58 256 carry result)

def decodeBase58 (str : Str) : Result (List UInt8) := do
  let digits ← decodeDigits str [0]
  let result := digits ++ List.replicate (str.takeWhile (· = 49)).length 0
  let resultlen := result.length
  let z := (resultlen >>> 1) + (resultlen &&& 1)
  return (swapDown resultlen z (resultlen - z) result).map UInt8.ofNat

def ssPrefix : List UInt8 := [0x53, 0x53, 0x35, 0x38, 0x50, 0x52, 0x45]

def checksum (blake2b : Hash) (payload : List UInt8) : UInt8 × UInt8 :=
  let blake2bHashed := (blake2b (ssPrefix ++ payload)).toList
  (blake2bHashed.getD 0 0, blake2bHashed.getD 1 0)

def getPublicKeyFromAddr (blake2b : Hash) (addr : Address) : Result PublicKey := do
  let bs58decoded ← decodeBase58 addr.toList
  if bs58decoded.length = 35 then
    let sum := checksum blake2b (bs58decoded.take 33)
    if bs58decoded.getD 33 0 ≠ sum.1 ∨ bs58decoded.getD 34 0 ≠ sum.2 then
      throwing (.application (lit "Address checksum is wrong."))
    else FixedBytes.copy 32 (bs58decoded.drop 1)
  else .ok (FixedBytes.zero 32)

/-- The overload for strings copies `ADDRESS_LENGTH` bytes from `c_str()`. -/
def getPublicKeyFromStr (blake2b : Hash) (addrStr : Str) : Result PublicKey := do
  let addr ← FixedBytes.copy 48 (addrStr ++ [0])
  getPublicKeyFromAddr blake2b addr

def getAddrFromPublicKey (blake2b : Hash) (pubKey : PublicKey) : Str :=
  let plainAddr := 0x2A :: pubKey.toList
  let sum := checksum blake2b plainAddr
  cstr (encodeBase58 (plainAddr ++ [sum.1, sum.2]))

section Symbols

theorem alphabet_length : alphabet.length = 58 := by decide +kernel

theorem symbolValue_symbol {d : ℕ} (h : d < 58) : symbolValue (symbol d) = .ok d := by
  have hall : ∀ d : Fin 58, symbolValue (symbol d.val) = .ok d.val := by decide +kernel
  exact hall ⟨d, h⟩

theorem symbol_eq_one_iff {d : ℕ} (h : d < 58) : symbol d = 49 ↔ d = 0 := by
  have hall : ∀ d : Fin 58, symbol d.val = 49 ↔ d.val = 0 := by decide +kernel
  exact hall ⟨d, h⟩

theorem symbol_mem {d : ℕ} (h : d < 58) : symbol d ∈ alphabet := by
  rw [symbol, List.getD_eq_getElem _ _ (by rw [alphabet_length]; exact h)]
  exact List.getElem_mem _

theorem exists_symbol {c : UInt8} (h : c ∈ alphabet) : ∃ d < 58, symbol d = c := by
  obtain ⟨d, hd, rfl⟩ := List.mem_iff_getElem.1 h
  exact ⟨d, by rwa [alphabet_length] at hd, by rw [symbol, List.getD_eq_getElem _ _ hd]⟩

theorem exists_digits {s : Str} (h : ∀ c ∈ s, c ∈ alphabet) :
    ∃ ds : List ℕ, (∀ d ∈ ds, d < 58) ∧ ds.map symbol = s := by
  induction s with
  | nil => exact ⟨[], by simp, rfl⟩
  | cons c s ih =>
    obtain ⟨d, hd, rfl⟩ := exists_symbol (h c (by simp))
    obtain ⟨ds, hds, rfl⟩ := ih (fun x hx => h x (by simp [hx]))
    exact ⟨d :: ds, by simpa using ⟨hd, hds⟩, rfl⟩

end Symbols

section Base58

theorem encodeBase58_eq (bytes : List UInt8) : encodeBase58 bytes =
    List.replicate (bytes.takeWhile (· = 0)).length 49 ++
      (numeral 58 (valueBE 256 (bytes.map UInt8.toNat))).reverse.map symbol := by
  simp only [encodeBase58]
  rw [foldl_mulAddDigits (by norm_num) (by norm_num) _ (toNat_lt_of_mem bytes)]

theorem decodeDigits_symbols (ds result : List ℕ) (h : ∀ d ∈ ds, d < 58) :
    decodeDigits (ds.map symbol) result =
      .ok (ds.foldl (fun r c => mulAddDigits (2 ^ 32) 58 256 c r) result) := by
  induction ds generalizing result with
  | nil => rfl
  | cons d ds ih =>
    rw [List.map_cons, decodeDigits, symbolValue_symbol (h d (by simp)), List.foldl_cons]
    exact ih _ (fun x hx => h x (by simp [hx]))

theorem middle_eq (n : ℕ) : (n >>> 1) + (n &&& 1) = n / 2 + n % 2 := by
  have hone : n &&& 1 = n % 2 := Nat.and_two_pow_sub_one_eq_mod n 1
  rw [Nat.shiftRight_one, hone]

theorem decodeBase58_of_digits {str : Str} {digits : List ℕ}
    (h : decodeDigits str [0] = .ok digits) : decodeBase58 str =
      .ok ((digits ++ List.replicate (str.takeWhile (· = 49)).length 0).reverse.map UInt8.ofNat) := by
  rw [decodeBase58, h]
  change Except.ok _ = _
  simp only [middle_eq, swapDown_reverse]

theorem leadingOnes_symbols (ds : List ℕ) (h : ∀ d ∈ ds, d < 58) :
    ((ds.map symbol).takeWhile (· = 49)).length = (ds.takeWhile (· = 0)).length := by
  induction ds with
  | nil => rfl
  | cons d ds ih =>
    have hd := symbol_eq_one_iff (h d (by simp))
    have hds := ih (fun x hx => h x (by simp [hx]))
    simp only [List.map_cons, List.takeWhile_cons, decide_eq_true_eq, hd]
    split_ifs
    · rw [List.length_cons, List.length_cons, hds]
    · rfl

theorem decodeBase58_symbols (ds : List ℕ) (h : ∀ d ∈ ds, d < 58) :
    decodeBase58 (ds.map symbol) =
      .ok ((numeral 256 (valueBE 58 ds) ++
        List.replicate (ds.takeWhile (· = 0)).length 0).reverse.map UInt8.ofNat) := by
  have hd := decodeDigits_symbols ds [0] h
  rw [foldl_mulAddDigits (by norm_num) (by norm_num) ds h] at hd
  rw [decodeBase58_of_digits hd, leadingOnes_symbols ds h]

end Base58

end PolkadotApi.AddressCodec
