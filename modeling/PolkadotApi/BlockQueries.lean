import PolkadotApi.DecimalTexts
import PolkadotApi.HexValues
import PolkadotApi.JsonBounds

set_option autoImplicit false

namespace PolkadotApi.BlockQueries
open StreamReader MachineModel JsonValues Converters Notifications
open HexValues DecimalTexts JsonBounds

structure Block where
  header : BlockHeader
  extrinsic : List Str
  deriving DecidableEq

structure SignedBlock where
  block : Block
  justification : Str
  deriving DecidableEq

def createBlock (jsonObject : Json) : Result SignedBlock := do
  let header ← decodeBlockHeader ((jsonObject.field "block").field "header")
  let extrinsic ← fillItems (fun item => strcpy item.stringValue)
    (arrayItems (jsonObject.field "extrinsics"))
  let justification ← strcpy (jsonObject.field "justification").stringValue
  return ⟨⟨header, extrinsic⟩, justification⟩

/-- The number is read from the parent hash. -/
def createBlockHeader (jsonObject : Json) : Result BlockHeader := do
  let parentHash ← strcpy (jsonObject.field "parentHash").stringValue
  let digits ← substrFrom (jsonObject.field "parentHash").stringValue 2
  let number ← atoi128 digits
  let stateRoot ← strcpy (jsonObject.field "stateRoot").stringValue
  let extrinsicsRoot ← strcpy (jsonObject.field "extrinsicsRoot").stringValue
  let digest ← fillItems (fun item => strcpy item.stringValue)
    (arrayItems ((jsonObject.field "digest").field "logs"))
  return ⟨parentHash, number % 2 ^ 64, stateRoot, extrinsicsRoot, digest⟩

section Headers

theorem asUInt128_low (z : ℤ) (n : ℕ) :
    asUInt128 z % 2 ^ 64 = n % 2 ^ 64 ↔ z ≡ n [ZMOD 2 ^ 64] := by
  have hlow : ((asUInt128 z % 2 ^ 64 : ℕ) : ℤ) = z % 2 ^ 64 := by
    simp only [Int.natCast_mod, Nat.cast_pow, Nat.cast_ofNat, asUInt128_cast]
    exact Int.emod_emod_of_dvd z (pow_dvd_pow 2 (by norm_num))
  rw [← Int.natCast_inj, hlow, Int.natCast_mod, Int.ModEq]
  rfl

/-- Behind its first two characters the parent hash must spell, in decimal digits, the number
of the header modulo `2 ^ 64`. -/
def HashSpellsNumber (jsonObject : Json) : Prop :=
  let hash := (jsonObject.field "parentHash").stringValue
  2 ≤ hash.length ∧ (digitRun (hash.drop 2)).length ≤ 255 ∧
    signedValue (hasMinus (hash.drop 2)) (digitRun (hash.drop 2)) ≡
      bigEndian (textBytes (jsonObject.field "number").stringValue) [ZMOD 2 ^ 64]

theorem createBlockHeader_eq_iff (jsonObject : Json) (header : BlockHeader)
    (h : decodeBlockHeader jsonObject = .ok header) :
    createBlockHeader jsonObject = .ok header ↔ HashSpellsNumber jsonObject := by
  obtain ⟨parentHash, hparent, h⟩ := except_bind_eq_ok h
  obtain ⟨number, hnumber, h⟩ := except_bind_eq_ok h
  obtain ⟨stateRoot, hstate, h⟩ := except_bind_eq_ok h
  obtain ⟨extrinsicsRoot, hextrinsics, h⟩ := except_bind_eq_ok h
  obtain ⟨digest, hdigest, h⟩ := except_bind_eq_ok h
  obtain rfl := Except.ok.inj h
  have hvalue := fromHex_big (by norm_num) hnumber
  rw [createBlockHeader, hparent, except_ok_bind, HashSpellsNumber, substrFrom]
  by_cases hlength : 2 ≤ (jsonObject.field "parentHash").stringValue.length
  · rw [if_pos hlength, except_ok_bind, atoi128_eq]
    by_cases hcount : (digitRun ((jsonObject.field "parentHash").stringValue.drop 2)).length ≤ 255
    · rw [if_pos hcount, except_ok_bind, hstate, except_ok_bind, hextrinsics, except_ok_bind,
        hdigest, except_ok_bind, ← asUInt128_low, hvalue]
      simp only [pure, Except.pure, Except.ok.injEq, BlockHeader.mk.injEq, true_and, and_true,
        hlength, hcount]
    · rw [if_neg hcount, except_error_bind]
      exact iff_of_false (by simp) (fun hc => hcount hc.2.1)
  · rw [if_neg hlength]
    exact iff_of_false (by simp [throwing, except_error_bind]) (fun hc => hlength hc.1)

def headerJson (parentHash number : String) : Json :=
  .object [(lit "number", .string (lit number)), (lit "parentHash", .string (lit parentHash))]

def plainHeader (parentHash : String) (number : ℕ) : BlockHeader :=
  ⟨lit parentHash, number, [], [], []⟩

theorem decodeBlockHeader_json :
    decodeBlockHeader (headerJson "0x10" "0x0a") = .ok (plainHeader "0x10" 10) ∧
      decodeBlockHeader (headerJson "0xab" "0x0a") = .ok (plainHeader "0xab" 10) ∧
      createBlockHeader (headerJson "0xab" "0x0a") = .ok (plainHeader "0xab" 0) := by
  decide +kernel

theorem createBlockHeader_eq_iff_ten :
    createBlockHeader (headerJson "0x10" "0x0a") = .ok (plainHeader "0x10" 10) ↔
      HashSpellsNumber (headerJson "0x10" "0x0a") :=
  createBlockHeader_eq_iff (headerJson "0x10" "0x0a") (plainHeader "0x10" 10)
    decodeBlockHeader_json.1

/-- Block ten comes out as block zero. -/
theorem createBlockHeader_differs : ¬ ∀ (jsonObject : Json) (header : BlockHeader),
    decodeBlockHeader jsonObject = .ok header → createBlockHeader jsonObject = .ok header := by
  intro h
  have hten := h (headerJson "0xab" "0x0a") (plainHeader "0xab" 10) decodeBlockHeader_json.2.1
  rw [decodeBlockHeader_json.2.2, plainHeader, plainHeader, Except.ok.injEq,
    BlockHeader.mk.injEq] at hten
  exact absurd hten.2.1 (by norm_num)

end Headers

section Blocks

def cell (texts : List Str) (k : ℕ) : Str := texts.getD k []

def texts (list : Json) : List Str := (arrayItems list).map Json.stringValue

theorem cstr_eq_self_iff (s : Str) : cstr s = s ↔ 0 ∉ s := by
  constructor
  · intro h hz
    rw [cstr, List.takeWhile_eq_self_iff] at h
    simpa using h 0 hz
  · exact cstr_eq_self

theorem cell_map_cstr (list : List Str) (k : ℕ) : cell (list.map cstr) k = cstr (cell list k) := by
  change (list.map cstr).getD k (cstr []) = _
  rw [List.getD_map, cell]

theorem cell_cstr_iff (list : List Str) :
    (∀ k, cell (list.map cstr) k = cell list k) ↔ ∀ s ∈ list, 0 ∉ s := by
  simp only [cell_map_cstr, cstr_eq_self_iff]
  constructor
  · intro h s hs
    obtain ⟨k, hk, rfl⟩ := List.mem_iff_getElem.1 hs
    have := h k
    rwa [cell, List.getD_eq_getElem _ _ hk] at this
  · intro h k
    by_cases hk : k < list.length
    · rw [cell, List.getD_eq_getElem _ _ hk]
      exact h _ (List.getElem_mem hk)
    · rw [cell, List.getD_eq_default _ _ (by omega)]
      simp

theorem mapM_ok {α β : Type} {f : α → Result β} {g : α → β} {xs : List α}
    (h : ∀ x ∈ xs, f x = .ok (g x)) : xs.mapM f = .ok (xs.map g) := by
  induction xs with
  | nil => rfl
  | cons x xs ih =>
    rw [List.mapM_cons, h x (by simp), except_ok_bind, ih (fun y hy => h y (by simp [hy])),
      except_ok_bind]
    rfl

variable {C : ℕ → Prop}

theorem fillItems_texts {list : Json} (h : All Short C list) :
    fillItems (fun item => strcpy item.stringValue) (arrayItems list) =
      if (texts list).length ≤ COLLECTION_SIZE then .ok ((texts list).map cstr)
      else .error .undefined := by
  have hcopy : ∀ item ∈ arrayItems list,
      strcpy item.stringValue = .ok (cstr item.stringValue) := fun item hitem =>
    (All.stringValue (h.arrayItems item hitem) short_nil).strcpy
  rw [fillItems, mapM_ok hcopy, except_ok_bind, texts, List.length_map, List.map_map]
  rfl

theorem fromHex_short (w : ℕ) {text : Str} (h : Short text) : ∃ n, fromHex w text true = .ok n := by
  have hlength : text.length < 2 ^ 31 - 1 := Nat.lt_trans h (by norm_num [STRING_SIZE])
  rw [fromHex, bytesUp_short hlength le_rfl, except_ok_bind]
  exact ⟨_, rfl⟩

def logs (header : Json) : List Str := texts ((header.field "digest").field "logs")

theorem decodeBlockHeader_short {header : Json} (h : All Short C header)
    (hlogs : (logs header).length ≤ COLLECTION_SIZE) :
    ∃ b, decodeBlockHeader header = .ok b ∧ b.digest = (logs header).map cstr := by
  have hcopy : ∀ key, strcpy (header.field key).stringValue =
      .ok (cstr (header.field key).stringValue) := fun key =>
    (All.stringValue (h.field key) short_nil).strcpy
  obtain ⟨n, hn⟩ := fromHex_short 64 (All.stringValue (h.field "number") short_nil)
  have hdigest := fillItems_texts ((h.field "digest").field "logs")
  rw [show texts ((header.field "digest").field "logs") = logs header from rfl, if_pos hlogs] at hdigest
  rw [decodeBlockHeader, hcopy, except_ok_bind, hn, except_ok_bind, hcopy, except_ok_bind, hcopy,
    except_ok_bind, hdigest, except_ok_bind]
  exact ⟨_, rfl, rfl⟩

def blockHeader (jsonObject : Json) : Json := (jsonObject.field "block").field "header"

def blockExtrinsics (jsonObject : Json) : List Str :=
  texts ((jsonObject.field "block").field "extrinsics")

def StoresBlock (jsonObject : Json) : Prop :=
  ∃ result, createBlock jsonObject = .ok result ∧
    (∀ k, cell result.block.extrinsic k = cell (blockExtrinsics jsonObject) k) ∧
    ∀ k, cell result.block.header.digest k = cell (logs (blockHeader jsonObject)) k

/-- The loop reads a list beside the block, so it stores the block's extrinsics only when
that list says the same. -/
theorem storesBlock_iff (jsonObject : Json) (hstrings : All Short (fun _ => True) jsonObject)
    (hlogs : (logs (blockHeader jsonObject)).length ≤ COLLECTION_SIZE) :
    StoresBlock jsonObject ↔ (texts (jsonObject.field "extrinsics")).length ≤ COLLECTION_SIZE ∧
      (∀ k, cstr (cell (texts (jsonObject.field "extrinsics")) k) =
        cell (blockExtrinsics jsonObject) k) ∧
      ∀ log ∈ logs (blockHeader jsonObject), 0 ∉ log := by
  obtain ⟨b, hb, hdigest⟩ := decodeBlockHeader_short ((hstrings.field "block").field "header") hlogs
  change b.digest = (logs (blockHeader jsonObject)).map cstr at hdigest
  have hcreate : createBlock jsonObject =
      if (texts (jsonObject.field "extrinsics")).length ≤ COLLECTION_SIZE then
        .ok ⟨⟨b, (texts (jsonObject.field "extrinsics")).map cstr⟩,
          cstr (jsonObject.field "justification").stringValue⟩
      else .error .undefined := by
    rw [createBlock, hb, except_ok_bind, fillItems_texts (hstrings.field "extrinsics"),
      (All.stringValue (hstrings.field "justification") short_nil).strcpy]
    split_ifs <;> rfl
  rw [StoresBlock, hcreate]
  split_ifs with hroom
  · have hcells := cell_cstr_iff (logs (blockHeader jsonObject))
    constructor
    · rintro ⟨result, hresult, hextrinsics, hdigests⟩
      obtain rfl := Except.ok.inj hresult
      refine ⟨hroom, fun k => ?_, hcells.1 (fun k => ?_)⟩
      · rw [← cell_map_cstr]
        exact hextrinsics k
      · rw [← hdigest]
        exact hdigests k
    · rintro ⟨_, hextrinsics, hdigests⟩
      refine ⟨_, rfl, fun k => ?_, fun k => ?_⟩
      · rw [cell_map_cstr]
        exact hextrinsics k
      · change cell b.digest k = _
        rw [hdigest]
        exact hcells.2 hdigests k
  · exact iff_of_false (by simp) (fun hc => hroom hc.1)

def blockJson (extrinsics : List Json) : Json :=
  .object [(lit "block", .object [(lit "extrinsics", .array [.string (lit "0x01")])]),
    (lit "extrinsics", .array extrinsics)]

theorem storesBlock_iff_repeated : StoresBlock (blockJson [.string (lit "0x01")]) := by
  refine (storesBlock_iff (blockJson [.string (lit "0x01")]) ?_ ?_).2 ⟨?_, fun k => ?_, ?_⟩
  · simp only [blockJson, All, AllItems, AllFields, Short]
    decide +kernel
  · decide +kernel
  · decide +kernel
  · rw [← cell_map_cstr]
    exact congrArg (fun list => cell list k) (by decide +kernel)
  · decide +kernel

/-- The list beside the block is missing or empty, and the extrinsic is lost. -/
theorem storesBlock_fails : ¬ ∀ jsonObject : Json, All Short (fun _ => True) jsonObject →
    (blockExtrinsics jsonObject).length ≤ COLLECTION_SIZE →
    (logs (blockHeader jsonObject)).length ≤ COLLECTION_SIZE → StoresBlock jsonObject := by
  intro h
  have hshort : All Short (fun _ => True) (blockJson []) := by
    simp only [blockJson, All, AllItems, AllFields, Short]
    decide +kernel
  obtain ⟨hone, hnone, hcreate⟩ : (blockExtrinsics (blockJson [])).length ≤ COLLECTION_SIZE ∧
      (logs (blockHeader (blockJson []))).length ≤ COLLECTION_SIZE ∧
      createBlock (blockJson []) = .ok ⟨⟨⟨[], 0, [], [], []⟩, []⟩, []⟩ := by
    decide +kernel
  obtain ⟨result, hresult, hextrinsics, -⟩ := h (blockJson []) hshort hone hnone
  rw [hcreate] at hresult
  obtain rfl := Except.ok.inj hresult
  exact absurd (hextrinsics 0) (by decide +kernel)

end Blocks

end PolkadotApi.BlockQueries
