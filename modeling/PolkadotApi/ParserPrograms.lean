import PolkadotApi.MetadataFormats
import PolkadotApi.StreamPrograms

set_option autoImplicit false

/-!
The parsers are the same text in every monad that takes characters, stores and throws.
As programs they leave a trace; run for the result alone, the program is the reader.
-/
namespace PolkadotApi.ParserPrograms
open StreamReader MachineModel ScaleCodec MetadataFormats StreamPrograms

abbrev Parser (α : Type) := Program UInt8 Exception α

/-- `stoul` throws or returns; the last branch is not reached. -/
def numberOf (text : Str) : Parser ℕ :=
  match stoul text with
  | .ok n => pure n
  | .error (.thrown e) => .fail e
  | .error .undefined => .fail .invalidArgument

/-- The last byte that `strcpy` stores is the NUL behind the text. -/
@[default_instance] instance : Parsing Parser where
  chars := Program.chars
  number := numberOf
  copy text := do
    inside STRING_SIZE (cstr text).length
    return cstr text
  raise := .fail

def read {α : Type} (p : Parser α) : Reader α := p.reader .outOfRange .thrown

section Reading

variable {α β : Type}

@[simp] theorem read_pure (a : α) : read (pure a : Parser α) = pure a := rfl

@[simp] theorem read_bind (p : Parser α) (f : α → Parser β) :
    read (p >>= f) = read p >>= fun a => read (f a) :=
  Program.reader_bind _ _ p f

@[simp] theorem read_tick : read tick = tick := rfl

@[simp] theorem read_inside (cap i : ℕ) : read (inside cap i) = inside cap i :=
  Program.reader_inside _ _ cap i

@[simp] theorem read_ite (c : Prop) [Decidable c] (p q : Parser α) :
    read (if c then p else q) = if c then read p else read q :=
  Program.reader_ite _ _ c p q

@[simp] theorem read_forCount (count : ℤ) (body : ℕ → β → Parser β) (init : β) :
    read (forCount count body init) = forCount count (fun i b => read (body i b)) init :=
  Program.reader_forCount _ _ count body init

@[simp] theorem read_storeEach (cap : ℕ) (count : ℤ) (item : Parser α) :
    read (storeEach cap count item) = storeEach cap count (read item) :=
  Program.reader_storeEach _ _ cap count item

@[simp] theorem read_claimEach (cap : ℕ) (count : ℤ) (item : Parser α) :
    read (claimEach cap count item) = claimEach cap count (read item) :=
  Program.reader_claimEach _ _ cap count item

@[simp] theorem read_raise (e : Exception) : read (raise e : Parser α) = raise e := rfl

@[simp] theorem read_chars (n : ℕ) : read (chars n) = chars n := by
  funext s
  change ((Program.chars n).exec .outOfRange Access.fits s).ending.toExcept .thrown =
    (substr s 0 n >>= fun text => substrFrom s n >>= fun rest => Except.ok (text, rest))
  simp only [Program.chars, Program.exec, substr, substrFrom, Nat.zero_le, if_true, List.drop_zero]
  split_ifs <;> rfl

theorem stoul_ne_undefined (text : Str) : stoul text ≠ .error .undefined := by
  unfold stoul
  dsimp only
  split_ifs <;> simp [throwing]

@[simp] theorem read_number (text : Str) : read (number text) = number text := by
  funext s
  change read (numberOf text) s = lift (stoul text) s
  unfold numberOf
  cases h : stoul text with
  | ok n => rfl
  | error e =>
    cases e with
    | thrown e => rfl
    | undefined => exact absurd h (stoul_ne_undefined text)

@[simp] theorem read_copy (text : Str) : read (copy text) = copy text := by
  funext s
  change read (inside STRING_SIZE (cstr text).length >>= fun _ => pure (cstr text)) s =
    lift (strcpy text) s
  rw [read_bind, read_inside, strcpy]
  by_cases h : (cstr text).length < STRING_SIZE
  · rw [bind_ok (inside_ok h s), if_pos h]
    rfl
  · rw [if_neg h, bind_error (e := .undefined)]
    · rfl
    · change (if (cstr text).length < STRING_SIZE then pure () else throw .undefined : Reader Unit) s
        = _
      rw [if_neg h]
      rfl

end Reading

section Scale

@[simp] theorem read_nextByte : read nextByte = nextByte := by simp [nextByte]

@[simp] theorem read_nextWord : read nextWord = nextWord := by simp [nextWord]

@[simp] theorem read_extractBytes (len : ℕ) : read (extractBytes len) = extractBytes len := by
  induction len with
  | zero => rfl
  | succ len ih => simp [extractBytes, ih]

@[simp] theorem read_extractString (len : ℤ) : read (extractString len) = extractString len :=
  read_extractBytes _

@[simp] theorem read_addBytes (rounds value multiplier : ℕ) :
    read (addBytes rounds value multiplier) = addBytes rounds value multiplier := by
  induction rounds generalizing value multiplier with
  | zero => rfl
  | succ rounds ih => simp [addBytes, ih]

@[simp] theorem read_decodeFlag (first_byte : UInt8) :
    read (decodeFlag first_byte) = decodeFlag first_byte := by
  unfold decodeFlag
  generalize first_byte.toNat &&& 0b11 = flag
  match flag with
  | 0 => rfl
  | 1 => simp
  | 2 => simp
  | 3 => simp
  | _ + 4 => rfl

@[simp] theorem read_decodeCompactInteger : read decodeCompactInteger = decodeCompactInteger := by
  simp [decodeCompactInteger]

end Scale

section Entries

@[simp] theorem read_extractText : read extractText = extractText := by simp [extractText]

@[simp] theorem read_readText : read readText = readText := by simp [readText]

@[simp] theorem read_rawText (count : ℤ) : read (rawText count) = rawText count := by
  simp [rawText]

@[simp] theorem read_fallbackText : read fallbackText = fallbackText := by simp [fallbackText]

@[simp] theorem read_constText : read constText = constText := by simp [constText]

@[simp] theorem read_documents : read documents = documents := by simp [documents]

@[simp] theorem read_functionCallArg : read functionCallArg = functionCallArg := by
  simp [functionCallArg]

@[simp] theorem read_getCall : read getCall = getCall := by simp [getCall]

@[simp] theorem read_getEvent : read getEvent = getEvent := by simp [getEvent]

@[simp] theorem read_getConsts : read getConsts = getConsts := by simp [getConsts]

@[simp] theorem read_secondKey (type : UInt8) : read (secondKey type) = secondKey type := by
  simp [secondKey]

@[simp] theorem read_getStorageV4 : read getStorageV4 = getStorageV4 := by simp [getStorageV4]

@[simp] theorem read_typeByte (hasSecondType : UInt8) :
    read (typeByte hasSecondType) = typeByte hasSecondType := by
  simp [typeByte]

@[simp] theorem read_mapValue (hasSecondType : UInt8) :
    read (mapValue hasSecondType) = mapValue hasSecondType := by
  simp [mapValue]

@[simp] theorem read_linkedFlag (hasSecondType : UInt8) :
    read (linkedFlag hasSecondType) = linkedFlag hasSecondType := by
  simp [linkedFlag]

@[simp] theorem read_getStorage : read getStorage = getStorage := by simp [getStorage]

end Entries

section Modules

variable {α S M : Type}

@[simp] theorem read_getSection (fresh : α) (item : Parser α) :
    read (getSection fresh item) = getSection fresh (read item) := by
  simp [getSection]

@[simp] theorem read_getSectionV7 (item : Parser α) :
    read (getSectionV7 item) = getSectionV7 (read item) := by
  simp [getSectionV7]

@[simp] theorem read_consts (item : Parser Const) : read (consts item) = consts (read item) := by
  simp [consts]

@[simp] theorem read_getModule (fresh : S) (storageItem : Parser S) (callItem : Parser Call)
    (eventItem : Parser EventArg) :
    read (getModule fresh storageItem callItem eventItem) =
      getModule fresh (read storageItem) (read callItem) (read eventItem) := by
  simp [getModule]

@[simp] theorem read_storageV7 : read storageV7 = storageV7 := by simp [storageV7, getStorageV7]

theorem read_moduleV4 : read moduleV4 = moduleV4 := by simp [moduleV4, getCallV4, getEventV4]

theorem read_moduleV5 : read moduleV5 = moduleV5 := by
  simp [moduleV5, getCallV5, getEventV5, getStorageV5]

theorem read_moduleV6 : read moduleV6 = moduleV6 := by
  simp [moduleV6, getCallV6, getEventV6, getStorageV6, getConstsV6]

theorem read_moduleV7 : read moduleV7 = moduleV7 := by
  simp [moduleV7, getCallV7, getEventV7, getConstsV7]

@[simp] theorem read_magicBytes : read magicBytes = magicBytes := by simp [magicBytes]

theorem read_metadata (body : Parser (Traced M)) : read (metadata body) = metadata (read body) := by
  simp [metadata, modulesOf, moduleList]

end Modules

section VersionZero

@[simp] theorem read_eventArgV0 : read eventArgV0 = eventArgV0 := by simp [eventArgV0]

@[simp] theorem read_getEventV0 : read getEventV0 = getEventV0 := by simp [getEventV0]

@[simp] theorem read_functionArgV0 (ai : ℕ) (args : Slots FunctionCallArg) :
    read (functionArgV0 ai args) = functionArgV0 ai args := by
  simp [functionArgV0]

@[simp] theorem read_functionCallV0 (i : ℕ) (fn1 : Slots FunctionCallV0) :
    read (functionCallV0 i fn1) = functionCallV0 i fn1 := by
  simp [functionCallV0]

@[simp] theorem read_secondType (hasSecondType : UInt8) :
    read (secondType hasSecondType) = secondType hasSecondType := by
  simp [secondType]

@[simp] theorem read_typeTexts (type : UInt8) (type1 type2 : Str) :
    read (typeTexts type type1 type2) = typeTexts type type1 type2 := by
  simp [typeTexts]

@[simp] theorem read_storageFunctionV0 (i : ℕ) (function : Slots FunctionV0) :
    read (storageFunctionV0 i function) = storageFunctionV0 i function := by
  simp [storageFunctionV0]

@[simp] theorem read_getStorageV0 : read getStorageV0 = getStorageV0 := by simp [getStorageV0]

@[simp] theorem read_getModuleV0 : read getModuleV0 = getModuleV0 := by simp [getModuleV0]

@[simp] theorem read_getOuterDispachV0 : read getOuterDispachV0 = getOuterDispachV0 := by
  simp [getOuterDispachV0]

theorem read_metadataV0 : read metadataV0 = metadataV0 := by simp [metadataV0]

end VersionZero

end PolkadotApi.ParserPrograms
