import PolkadotApi.ParserPrograms

set_option autoImplicit false

namespace PolkadotApi.ParserRounds
open StreamReader MachineModel ScaleCodec MetadataFormats StreamPrograms Program ParserPrograms

section Payments

variable {α S M : Type}

theorem keeps_number (text : Str) : Keeps 2 (number text) := by
  change Keeps 2 (numberOf text)
  unfold numberOf
  split
  · exact keeps_pure _
  · exact keeps_fail _
  · exact keeps_fail _

theorem earns_nextByte : Earns 2 nextByte :=
  (earns_chars le_rfl).bind fun _ => (keeps_number _).bind fun _ => keeps_pure _

theorem earns_nextWord : Earns 2 nextWord :=
  (earns_chars le_rfl).bind fun _ => (keeps_chars 2).bind fun _ =>
    (keeps_number _).bind fun _ => keeps_pure _

theorem keeps_extractBytes (len : ℕ) : Keeps 2 (extractBytes len) := by
  induction len with
  | zero => exact keeps_pure _
  | succ len ih =>
    exact keeps_tick_bind (earns_nextByte.bind fun _ => ih.bind fun _ => keeps_pure _)

theorem keeps_addBytes (rounds value multiplier : ℕ) :
    Keeps 2 (addBytes rounds value multiplier) := by
  induction rounds generalizing value multiplier with
  | zero => exact keeps_pure _
  | succ rounds ih => exact keeps_tick_bind (earns_nextByte.bind fun _ => ih _ _)

theorem keeps_decodeFlag (first_byte : UInt8) : Keeps 2 (decodeFlag first_byte) := by
  unfold decodeFlag
  split
  · exact keeps_pure _
  · exact earns_nextByte.keeps.bind fun _ => keeps_pure _
  · exact (keeps_addBytes _ _ _).bind fun _ => keeps_pure _
  · exact (keeps_addBytes _ _ _).bind fun _ => keeps_pure _
  · exact keeps_fail _

theorem earns_decodeCompactInteger : Earns 2 decodeCompactInteger :=
  earns_nextByte.bind keeps_decodeFlag

theorem earns_extractText : Earns 2 extractText :=
  earns_decodeCompactInteger.bind fun _ => keeps_extractBytes _

theorem keeps_copy (text : Str) : Keeps 2 (copy text) :=
  (keeps_inside STRING_SIZE (cstr text).length).bind fun _ => keeps_pure _

theorem earns_readText : Earns 2 readText :=
  earns_extractText.bind keeps_copy

theorem keeps_rawText (count : ℤ) : Keeps 2 (rawText count) :=
  (keeps_chars _).bind keeps_copy

theorem earns_fallbackText : Earns 2 fallbackText :=
  earns_decodeCompactInteger.bind fun _ => keeps_rawText _

theorem earns_constText : Earns 2 constText :=
  earns_decodeCompactInteger.bind fun _ => keeps_rawText _

theorem earns_counted {item : Parser α} (h : Earns 2 item) (cap : ℕ) (count : ℤ → ℤ) :
    Earns 2 (decodeCompactInteger >>= fun n => storeEach cap (count n) item) :=
  earns_decodeCompactInteger.bind fun _ => keeps_storeEach h _ _

theorem earns_documents : Earns 2 documents := earns_counted earns_readText _ id

theorem earns_functionCallArg : Earns 2 functionCallArg :=
  earns_readText.bind fun _ => earns_readText.keeps.bind fun _ => keeps_pure _

theorem earns_getCall : Earns 2 getCall := by
  refine earns_readText.bind fun _ => earns_decodeCompactInteger.keeps.bind fun _ => ?_
  refine (keeps_storeEach earns_functionCallArg _ _).bind fun _ => ?_
  exact earns_documents.keeps.bind fun _ => keeps_pure _

theorem earns_getEvent : Earns 2 getEvent := by
  refine earns_readText.bind fun _ => earns_decodeCompactInteger.keeps.bind fun _ => ?_
  refine (keeps_storeEach earns_readText _ _).bind fun _ => ?_
  exact earns_documents.keeps.bind fun _ => keeps_pure _

theorem earns_getConsts : Earns 2 getConsts := by
  refine earns_readText.bind fun _ => earns_readText.keeps.bind fun _ => ?_
  refine earns_constText.keeps.bind fun _ => ?_
  exact earns_documents.keeps.bind fun _ => keeps_pure _

theorem keeps_secondKey (type : UInt8) : Keeps 2 (secondKey type) := by
  refine Keeps.ite ?_ (keeps_pure _)
  exact earns_readText.keeps.bind fun _ => earns_nextByte.keeps.bind fun _ => keeps_pure _

theorem earns_getStorageV4 : Earns 2 getStorageV4 := by
  refine earns_readText.bind fun _ => earns_nextByte.keeps.bind fun _ => ?_
  refine earns_nextByte.keeps.bind fun _ => earns_readText.keeps.bind fun _ => ?_
  refine (keeps_secondKey _).bind fun _ => earns_fallbackText.keeps.bind fun _ => ?_
  exact earns_documents.keeps.bind fun _ => keeps_pure _

theorem keeps_typeByte (hasSecondType : UInt8) : Keeps 2 (typeByte hasSecondType) :=
  Keeps.ite earns_nextByte.keeps (keeps_pure _)

theorem keeps_mapValue (hasSecondType : UInt8) : Keeps 2 (mapValue hasSecondType) := by
  refine Keeps.ite (earns_readText.keeps.bind fun _ => keeps_pure _) (Keeps.ite ?_ (keeps_pure _))
  exact earns_readText.keeps.bind fun _ => earns_readText.keeps.bind fun _ => keeps_pure _

theorem keeps_linkedFlag (hasSecondType : UInt8) : Keeps 2 (linkedFlag hasSecondType) :=
  Keeps.ite (earns_nextByte.keeps.bind fun _ => keeps_pure _) (keeps_pure _)

theorem earns_getStorage : Earns 2 getStorage := by
  refine earns_readText.bind fun _ => earns_nextByte.keeps.bind fun _ => ?_
  refine earns_nextByte.keeps.bind fun _ => (keeps_typeByte _).bind fun _ => ?_
  refine earns_readText.keeps.bind fun _ => (keeps_mapValue _).bind fun _ => ?_
  refine (keeps_linkedFlag _).bind fun _ => earns_fallbackText.keeps.bind fun _ => ?_
  exact earns_documents.keeps.bind fun _ => keeps_pure _

theorem earns_getSection {item : Parser α} (h : Earns 2 item) (fresh : α) :
    Earns 2 (getSection fresh item) := by
  refine earns_nextByte.bind fun _ => Keeps.ite ?_ (keeps_pure _)
  refine earns_decodeCompactInteger.keeps.bind fun _ => Keeps.ite ?_ ?_
  · exact (keeps_inside _ _).bind fun _ => keeps_pure _
  · exact (keeps_storeEach h _ _).bind fun _ => keeps_pure _

theorem earns_getSectionV7 {item : Parser α} (h : Earns 2 item) :
    Earns 2 (getSectionV7 item) := by
  refine earns_nextByte.bind fun _ => Keeps.ite ?_ (keeps_pure _)
  refine earns_decodeCompactInteger.keeps.bind fun _ => ?_
  exact (keeps_storeEach h _ _).bind fun _ => keeps_pure _

theorem earns_consts {item : Parser Const} (h : Earns 2 item) : Earns 2 (consts item) :=
  earns_counted h _ id

theorem earns_getModule {storageItem : Parser S} (h : Earns 2 storageItem) (fresh : S) :
    Earns 2 (getModule fresh storageItem getCall getEvent) := by
  refine earns_readText.bind fun _ => earns_readText.keeps.bind fun _ => ?_
  refine (earns_getSection h _).keeps.bind fun _ => ?_
  refine (earns_getSection earns_getCall _).keeps.bind fun _ => ?_
  exact (earns_getSection earns_getEvent _).keeps.bind fun _ => keeps_pure _

theorem earns_moduleV6 : Earns 2 moduleV6 := by
  refine (earns_getModule earns_getStorage _).bind fun _ => ?_
  exact (earns_consts earns_getConsts).keeps.bind fun _ => keeps_pure _

theorem earns_storageV7 : Earns 2 storageV7 := by
  refine earns_nextByte.bind fun _ => Keeps.ite ?_ (keeps_pure _)
  refine earns_readText.keeps.bind fun _ => earns_decodeCompactInteger.keeps.bind fun _ => ?_
  exact (keeps_storeEach earns_getStorage _ _).bind fun _ => keeps_pure _

theorem earns_moduleV7 : Earns 2 moduleV7 := by
  refine earns_readText.bind fun _ => earns_storageV7.keeps.bind fun _ => ?_
  refine (earns_getSectionV7 earns_getCall).keeps.bind fun _ => ?_
  refine (earns_getSectionV7 earns_getEvent).keeps.bind fun _ => ?_
  exact (earns_consts earns_getConsts).keeps.bind fun _ => keeps_pure _

theorem earns_magicBytes : Earns 2 magicBytes := by
  refine earns_nextByte.bind fun _ => earns_nextByte.keeps.bind fun _ => ?_
  refine earns_nextByte.keeps.bind fun _ => earns_nextByte.keeps.bind fun _ => ?_
  exact earns_nextByte.keeps

theorem earns_moduleList {body : Parser (Traced M)} (h : Earns 2 body) :
    Earns 2 (moduleList body) :=
  earns_decodeCompactInteger.bind fun _ => keeps_claimEach h _ _

theorem earns_metadata {body : Parser (Traced M)} (h : Earns 2 body) : Earns 2 (metadata body) := by
  have hmodules : Earns 2 (modulesOf body) :=
    earns_magicBytes.bind fun _ => (earns_moduleList h).keeps
  exact hmodules.bind fun _ => keeps_pure _

theorem earns_eventArgV0 : Earns 2 eventArgV0 := by
  refine earns_readText.bind fun _ => earns_decodeCompactInteger.keeps.bind fun _ => ?_
  refine (keeps_storeEach earns_readText _ _).bind fun _ => ?_
  exact earns_documents.keeps.bind fun _ => keeps_pure _

theorem earns_getEventV0 : Earns 2 getEventV0 := by
  refine earns_readText.bind fun _ => earns_decodeCompactInteger.keeps.bind fun _ => ?_
  exact (keeps_storeEach earns_eventArgV0 _ _).bind fun _ => keeps_pure _

theorem earns_functionArgV0 (ai : ℕ) (args : Slots FunctionCallArg) :
    Earns 2 (functionArgV0 ai args) := by
  refine earns_readText.bind fun _ => (keeps_inside _ _).bind fun _ => ?_
  exact earns_readText.keeps.bind fun _ => keeps_pure _

theorem earns_functionCallV0 (i : ℕ) (fn1 : Slots FunctionCallV0) :
    Earns 2 (functionCallV0 i fn1) := by
  refine earns_nextWord.bind fun _ => (keeps_inside _ _).bind fun _ => ?_
  refine earns_readText.keeps.bind fun _ => earns_decodeCompactInteger.keeps.bind fun _ => ?_
  refine (keeps_forCount earns_functionArgV0 _ _).bind fun _ => ?_
  refine earns_decodeCompactInteger.keeps.bind fun _ => ?_
  exact (keeps_storeEach earns_readText _ _).bind fun _ => keeps_pure _

theorem keeps_typeTexts (type : UInt8) (type1 type2 : Str) :
    Keeps 2 (typeTexts type type1 type2) := by
  refine Keeps.ite ((keeps_copy _).bind fun _ => keeps_pure _) ?_
  exact (keeps_copy _).bind fun _ => (keeps_copy _).bind fun _ => keeps_pure _

theorem keeps_secondType (hasSecondType : UInt8) : Keeps 2 (secondType hasSecondType) :=
  Keeps.ite earns_extractText.keeps (keeps_pure _)

theorem earns_storageFunctionV0 (i : ℕ) (function : Slots FunctionV0) :
    Earns 2 (storageFunctionV0 i function) := by
  refine earns_readText.bind fun _ => (keeps_inside _ _).bind fun _ => ?_
  refine earns_nextByte.keeps.bind fun _ => earns_nextByte.keeps.bind fun _ => ?_
  refine earns_extractText.keeps.bind fun _ => (keeps_secondType _).bind fun _ => ?_
  refine (keeps_typeTexts _ _ _).bind fun _ => earns_fallbackText.keeps.bind fun _ => ?_
  exact earns_documents.keeps.bind fun _ => keeps_pure _

theorem earns_getStorageV0 : Earns 2 getStorageV0 := by
  refine earns_nextByte.bind fun _ => Keeps.ite (keeps_pure _) ?_
  refine earns_readText.keeps.bind fun _ => earns_decodeCompactInteger.keeps.bind fun _ => ?_
  exact (keeps_forCount earns_storageFunctionV0 _ _).bind fun _ => keeps_pure _

theorem earns_getModuleV0 : Earns 2 getModuleV0 := by
  refine earns_readText.bind fun _ => earns_readText.keeps.bind fun _ => ?_
  refine earns_readText.keeps.bind fun _ => earns_decodeCompactInteger.keeps.bind fun _ => ?_
  refine (keeps_forCount earns_functionCallV0 _ _).bind fun _ => ?_
  exact earns_getStorageV0.keeps.bind fun _ => keeps_pure _

theorem earns_getOuterDispachV0 : Earns 2 getOuterDispachV0 := by
  refine earns_readText.bind fun _ => earns_readText.keeps.bind fun _ => ?_
  exact earns_nextWord.keeps.bind fun _ => keeps_pure _

theorem earns_metadataV0 : Earns 2 metadataV0 := by
  refine earns_readText.bind fun _ => earns_decodeCompactInteger.keeps.bind fun _ => ?_
  refine (keeps_storeEach earns_getEventV0 _ _).bind fun _ => ?_
  refine earns_decodeCompactInteger.keeps.bind fun _ => ?_
  refine (keeps_storeEach earns_getModuleV0 _ _).bind fun _ => ?_
  refine earns_readText.keeps.bind fun _ => earns_decodeCompactInteger.keeps.bind fun _ => ?_
  exact (keeps_storeEach earns_getOuterDispachV0 _ _).bind fun _ => keeps_pure _

end Payments

end PolkadotApi.ParserRounds
