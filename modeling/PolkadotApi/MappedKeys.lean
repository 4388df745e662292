import PolkadotApi.ObjectRuns
import PolkadotApi.StorageEntries

set_option autoImplicit false

namespace PolkadotApi.MappedKeys
open StatefulActions StreamReader MachineModel HexText JsonValues AddressCodec Converters
open MetadataFactory MetadataLookup ExtrinsicSubmission StorageKeys StorageEntries Subscriptions
open SubscriptionFrames CallSpecifications Connection StepRuns ObjectRuns

section Data

variable (lib : Libraries)

/-- What `getMappedStorageKey` passes to `getStorageKey`. -/
def mappedData (jsonPrm keyPrefix : Str) : Result (List UInt8) :=
  match lib.parse jsonPrm with
  | .error err => throwing (.application (lit "Invalid parameter string: " ++ err))
  | .ok json =>
    let type := (json.field "type").stringValue
    let value := (json.field "value").stringValue
    if type = lit "AccountId" then do
      let addr ← FixedBytes.copy 48 (value ++ [0])
      let pubk ← getPublicKeyFromAddr lib.blake2b addr
      writeBuf (32 + STRING_SIZE) (keyPrefix ++ pubk.toList)
    else if type ∈ shortTypes.map lit then sprintfPair 128 keyPrefix value
    else if type = lit "Hash" then sprintfPair 256 keyPrefix value
    else throwing (.application (lit "Invalid parameter type: " ++ type))

theorem getMappedStorageKey_eq (hasher : Hasher) (jsonPrm keyPrefix : Str) :
    getMappedStorageKey lib hasher jsonPrm keyPrefix =
      (mappedData lib jsonPrm keyPrefix).map (getStorageKey lib hasher) := by
  unfold getMappedStorageKey mappedData
  cases lib.parse jsonPrm with
  | error err => rfl
  | ok json =>
    dsimp only
    split_ifs
    · unfold getAddressStorageKey
      cases FixedBytes.copy 48 ((json.field "value").stringValue ++ [0]) with
      | error fault => rfl
      | ok addr =>
        rw [except_ok_bind, except_ok_bind]
        cases getPublicKeyFromAddr lib.blake2b addr with
        | error fault => rfl
        | ok pubk =>
          rw [except_ok_bind, except_ok_bind]
          cases writeBuf (32 + STRING_SIZE) (keyPrefix ++ pubk.toList) <;> rfl
    · cases sprintfPair 128 keyPrefix (json.field "value").stringValue <;> rfl
    · cases sprintfPair 256 keyPrefix (json.field "value").stringValue <;> rfl
    · rfl

/-- The keys of the two hashers differ in their length. -/
theorem getStorageKey_hasher {hasher other : Hasher} {data : List UInt8}
    (h : getStorageKey lib hasher data = getStorageKey lib other data) : hasher = other := by
  have hlength : ∀ bs : List UInt8, (upperText bs).length = 2 * bs.length :=
    fun bs => (DigitSet.upper.spells_text bs).length
  have hxxhash : (getStorageKey lib .xxhash data).length = 34 := by
    simp [getStorageKey, hlength, wordBytes, lit]
  have hblake2 : (getStorageKey lib .blake2 data).length = 66 := by
    simp [getStorageKey, hlength, lit, (lib.blake2b256 data).length_eq]
  have hkeys := congrArg List.length h
  cases hasher <;> cases other
  · rfl
  · rw [hxxhash, hblake2] at hkeys
    cases hkeys
  · rw [hxxhash, hblake2] at hkeys
    cases hkeys
  · rfl

end Data

section Values

/-- The size of the local buffer, for the types that are accepted and no addresses. -/
def capacity (type : Str) : Option ℕ :=
  if type ∈ shortTypes.map lit then some 128 else if type = lit "Hash" then some 256 else none

def Parameter (lib : Libraries) (jsonPrm type : Str) (json : Json) : Prop :=
  lib.parse jsonPrm = .ok json ∧ (json.field "type").stringValue = type

def Fits (cap : ℕ) (keyPrefix : Str) (json : Json) : Prop :=
  (cstr keyPrefix ++ cstr (json.field "value").stringValue).length < cap

instance (cap : ℕ) (keyPrefix : Str) (json : Json) : Decidable (Fits cap keyPrefix json) :=
  inferInstanceAs (Decidable (_ < cap))

/-- Only a text can be used as a value. -/
def Usable (json : Json) : Prop := ∃ text, json.field "value" = .string text

def Rejected {α : Type} (r : Result α) : Prop := ∃ text, r = throwing (.application text)

variable {lib : Libraries} {type jsonPrm keyPrefix : Str} {cap : ℕ} {json : Json}

theorem mappedData_eq (hcap : capacity type = some cap) (h : Parameter lib jsonPrm type json) :
    mappedData lib jsonPrm keyPrefix =
      sprintfPair cap keyPrefix (json.field "value").stringValue := by
  obtain ⟨hparse, htype⟩ := h
  have haddress : capacity (lit "AccountId") = none := by decide
  unfold mappedData
  rw [hparse]
  dsimp only
  rw [htype]
  split_ifs with hisAddress hshort hhash
  · rw [hisAddress, haddress] at hcap
    cases hcap
  · rw [capacity, if_pos hshort] at hcap
    cases hcap
    rfl
  · rw [capacity, if_neg hshort, if_pos hhash] at hcap
    cases hcap
    rfl
  · rw [capacity, if_neg hshort, if_neg hhash] at hcap
    cases hcap

theorem sprintfPair_of_fits (h : Fits cap keyPrefix json) :
    sprintfPair cap keyPrefix (json.field "value").stringValue =
      .ok (cstr keyPrefix ++ cstr (json.field "value").stringValue) := if_pos h

theorem not_rejected (hcap : capacity type = some cap) (h : Parameter lib jsonPrm type json)
    (hasher : Hasher) : ¬ Rejected (getMappedStorageKey lib hasher jsonPrm keyPrefix) := by
  rintro ⟨text, hrejected⟩
  rw [getMappedStorageKey_eq, mappedData_eq hcap h, sprintfPair] at hrejected
  split_ifs at hrejected <;> cases hrejected

end Values

/-- The data of two parameters of one type is kept apart, and what cannot be used is
rejected, exactly if both values are texts that differ already before their first
zero character, unless they are equal or too long. -/
theorem mapped_values_apart_iff (lib : Libraries) (hasher : Hasher) (keyPrefix type : Str) (cap : ℕ)
    (hcap : capacity type = some cap) (first second : Str) (json other : Json)
    (hfirst : Parameter lib first type json) (hsecond : Parameter lib second type other) :
    ((json.field "value" ≠ other.field "value" → Fits cap keyPrefix json →
        Fits cap keyPrefix other →
          mappedData lib first keyPrefix ≠ mappedData lib second keyPrefix) ∧
      (¬ Usable json → Rejected (getMappedStorageKey lib hasher first keyPrefix)) ∧
      (¬ Usable other → Rejected (getMappedStorageKey lib hasher second keyPrefix))) ↔
    ∃ text text', json.field "value" = .string text ∧ other.field "value" = .string text' ∧
      (text ≠ text' → Fits cap keyPrefix json → Fits cap keyPrefix other →
        cstr text ≠ cstr text') := by
  rw [mappedData_eq hcap hfirst, mappedData_eq hcap hsecond]
  constructor
  · rintro ⟨hapart, husable, husable'⟩
    obtain ⟨text, htext⟩ : Usable json := by
      by_contra hno
      exact not_rejected hcap hfirst hasher (husable hno)
    obtain ⟨text', htext'⟩ : Usable other := by
      by_contra hno
      exact not_rejected hcap hsecond hasher (husable' hno)
    refine ⟨text, text', htext, htext', ?_⟩
    intro hne hfits hfits' hsame
    apply hapart _ hfits hfits'
    · rw [sprintfPair_of_fits hfits, sprintfPair_of_fits hfits', htext, htext']
      change Except.ok (cstr keyPrefix ++ cstr text) = .ok (cstr keyPrefix ++ cstr text')
      rw [hsame]
    · rw [htext, htext']
      exact fun h => hne (Json.string.inj h)
  · rintro ⟨text, text', htext, htext', hapart⟩
    refine ⟨?_, fun hno => absurd ⟨text, htext⟩ hno, fun hno => absurd ⟨text', htext'⟩ hno⟩
    intro hne hfits hfits' hsame
    rw [sprintfPair_of_fits hfits, sprintfPair_of_fits hfits', htext, htext'] at hsame
    have hnetext : text ≠ text' := by
      rintro rfl
      exact hne (htext.trans htext'.symm)
    exact hapart hnetext hfits hfits' (List.append_cancel_left (Except.ok.inj hsame))

section Samples

def parameter (value : Json) : Json :=
  .object [(lit "type", .string (lit "u32")), (lit "value", value)]

def parameterParser (s : Str) : Except Str Json :=
  if s = lit "\x7b\"type\":\"u32\",\"value\":1\x7d" then .ok (parameter (.number 1))
  else if s = lit "\x7b\"type\":\"u32\",\"value\":2\x7d" then .ok (parameter (.number 2))
  else if s = lit "\x7b\"type\":\"u32\",\"value\":\"1\"\x7d" then
    .ok (parameter (.string (lit "1")))
  else if s = lit "\x7b\"type\":\"u32\",\"value\":\"2\"\x7d" then
    .ok (parameter (.string (lit "2")))
  else .error (lit "unexpected end of input")

def parameterLibraries : Libraries := { sampleLibraries with parse := parameterParser }

theorem mapped_values_apart_iff_texts :
    mappedData parameterLibraries (lit "\x7b\"type\":\"u32\",\"value\":\"1\"\x7d") (lit "A m") ≠
      mappedData parameterLibraries (lit "\x7b\"type\":\"u32\",\"value\":\"2\"\x7d")
        (lit "A m") := by
  have h := (mapped_values_apart_iff parameterLibraries .xxhash (lit "A m") (lit "u32") 128
    (by decide) (lit "\x7b\"type\":\"u32\",\"value\":\"1\"\x7d")
    (lit "\x7b\"type\":\"u32\",\"value\":\"2\"\x7d") (parameter (.string (lit "1")))
    (parameter (.string (lit "2"))) ⟨rfl, rfl⟩ ⟨rfl, rfl⟩).2
    ⟨lit "1", lit "2", rfl, rfl, fun _ _ _ => by decide⟩
  exact h.1 (by decide) (by decide) (by decide)

/-- The numbers 1 and 2 both have the data of the prefix alone. -/
theorem mapped_values_apart_fails : ¬ ∀ (lib : Libraries) (hasher : Hasher) (keyPrefix type : Str)
    (cap : ℕ), capacity type = some cap → ∀ (first second : Str) (json other : Json),
    Parameter lib first type json → Parameter lib second type other →
      (json.field "value" ≠ other.field "value" → Fits cap keyPrefix json →
        Fits cap keyPrefix other →
          mappedData lib first keyPrefix ≠ mappedData lib second keyPrefix) ∧
      (¬ Usable json → Rejected (getMappedStorageKey lib hasher first keyPrefix)) ∧
      (¬ Usable other → Rejected (getMappedStorageKey lib hasher second keyPrefix)) := by
  intro hall
  have h := (hall parameterLibraries .xxhash (lit "A m") (lit "u32") 128 (by decide)
    (lit "\x7b\"type\":\"u32\",\"value\":1\x7d") (lit "\x7b\"type\":\"u32\",\"value\":2\x7d")
    (parameter (.number 1)) (parameter (.number 2)) ⟨rfl, rfl⟩ ⟨rfl, rfl⟩).1
  exact h (by decide) (by decide) (by decide) (by decide)

end Samples

end PolkadotApi.MappedKeys
