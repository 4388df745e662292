import PolkadotApi.LayoutRules

set_option autoImplicit false

namespace PolkadotApi.ParserLayouts
open StreamReader MachineModel ScaleCodec StreamPrograms ParserPrograms BlobLayouts Measured
open LayoutRules MetadataFormats

section Entries

theorem describes_storeEach {α : Type} {cap : ℕ} {shape : Shape} {item : Parser α}
    (h : Describes shape item) (count : ℤ → ℤ) :
    Describes (.list cap count shape .nothing)
      (decodeCompactInteger >>= fun n => storeEach cap (count n) item) := by
  intro s
  rw [Shape.measure, ← read_decodeCompactInteger]
  apply silent_decodeCompactInteger.meets
  intro n t
  exact meets_forCount (meetsItem_readStore h) (count n) Slots.empty t

theorem describes_documents : Describes BlobLayouts.documents MetadataFormats.documents :=
  describes_storeEach describes_readText id

theorem describes_fallbackText : Describes fallback fallbackText := describes_digits _

theorem describes_functionCallArg : Describes (all [text, text]) functionCallArg :=
  describes_readText.seq fun _ => describes_readText.seq fun _ => describes_pure _

theorem describes_getCall : Describes call getCall :=
  describes_readText.seq fun _ => describes_functionCallArg.stores asInt fun _ _ =>
    describes_documents.seq fun _ => describes_pure _

theorem describes_getEvent : Describes event getEvent :=
  describes_readText.seq fun _ => describes_readText.stores asInt fun _ _ =>
    describes_documents.seq fun _ => describes_pure _

theorem describes_getConsts : Describes constant getConsts :=
  describes_readText.seq fun _ => describes_readText.seq fun _ =>
    (describes_digits _).seq fun _ => describes_documents.seq fun _ => describes_pure _

theorem describes_secondKey (type : UInt8) :
    Describes (if type ≠ 0 then all [text, .byte] else .nothing) (secondKey type) :=
  Describes.ite
    (describes_readText.seq fun _ => describes_nextByte.seq fun _ => describes_pure _)
    (describes_pure _)

theorem describes_getStorageV4 : Describes storageV4 getStorageV4 := by
  refine describes_readText.seq fun _ => describes_nextByte.seq fun _ => ?_
  refine describes_seq_nothing.2 (Describes.tagged fun type => ?_)
  refine describes_readText.seq fun _ => (describes_secondKey type).seq fun _ => ?_
  exact describes_fallbackText.seq fun _ => describes_documents.seq fun _ => describes_pure _

theorem describes_typeByte (tag : UInt8) :
    Describes (if tag ≠ 0 then .byte else .nothing) (typeByte tag) :=
  Describes.ite describes_nextByte (describes_pure _)

theorem describes_mapValue (tag : UInt8) :
    Describes (if tag = 1 then text else if tag = 2 then all [text, text] else .nothing)
      (mapValue tag) := by
  refine Describes.ite ?_ (Describes.ite ?_ (describes_pure _))
  · exact describes_seq_nothing.1 (describes_readText.seq fun _ => describes_pure _)
  · exact describes_readText.seq fun _ => describes_readText.seq fun _ => describes_pure _

theorem describes_linkedFlag (tag : UInt8) :
    Describes (if tag ≠ 0 then .byte else .nothing) (linkedFlag tag) :=
  Describes.ite (describes_seq_nothing.1 (describes_nextByte.seq fun _ => describes_pure _))
    (describes_pure _)

theorem describes_getStorage : Describes BlobLayouts.storage getStorage := by
  refine describes_readText.seq fun _ => describes_nextByte.seq fun _ => ?_
  refine describes_seq_nothing.2 (Describes.tagged fun tag => ?_)
  refine (describes_typeByte tag).seq fun _ => describes_readText.seq fun _ => ?_
  refine (describes_mapValue tag).seq fun _ => (describes_linkedFlag tag).seq fun _ => ?_
  exact describes_fallbackText.seq fun _ => describes_documents.seq fun _ => describes_pure _

end Entries

section Modules

variable {α S M : Type}

/-- An empty list in versions 4 to 6 gets a first item, for which there is room. -/
theorem meets_fresh (a : α) (s : Str) :
    Meets (roomy (inside COLLECTION_SIZE 0 >>= fun _ => pure a : Parser α) s)
      ⟨[.list COLLECTION_SIZE 0], some s⟩ := by
  obtain ⟨hinside, hrest⟩ := inside_store COLLECTION_SIZE 0 (pure a : Parser α) s
  refine ⟨iff_of_true (hinside.2 ⟨by decide, inside_nil rfl⟩) ?_, hrest⟩
  simp [Fits, Size.fits]

theorem describes_getSection {shape : Shape} {item : Parser α} (h : Describes shape item)
    (fresh : α) : Describes (optional (listOf shape)) (getSection fresh item) := by
  refine Describes.tagged fun isset => Describes.ite ?_ (describes_pure _)
  intro s
  rw [listOf, Shape.measure, ← read_decodeCompactInteger]
  apply silent_decodeCompactInteger.meets
  intro n t
  by_cases hzero : asInt n = 0
  · rw [if_pos hzero, hzero]
    exact meets_fresh _ t
  · rw [if_neg hzero, roomy_bind]
    have hitem : ∀ i (slots : Slots α) s, MeetsItem COLLECTION_SIZE i shape.measure
        Shape.nothing.measure s (roomy (readStore COLLECTION_SIZE item i slots) s) :=
      meetsItem_readStore h
    have hreturn := (meets_forCount hitem (asInt n) Slots.empty t).andThen fun items t =>
      describes_pure (⟨isset, asInt n, items⟩ : Section α) t
    rwa [andThen_nothing] at hreturn

theorem describes_getSectionV7 {shape : Shape} {item : Parser α} (h : Describes shape item) :
    Describes (optional (listOf shape)) (getSectionV7 item) :=
  Describes.tagged fun _ => Describes.ite
    (describes_seq_nothing.1 (h.stores asInt fun _ _ => describes_pure _)) (describes_pure _)

theorem describes_consts : Describes constants (consts getConsts) :=
  describes_storeEach describes_getConsts id

theorem describes_getModule {shape : Shape} {storageItem : Parser S}
    (h : Describes shape storageItem) (fresh : S) :
    Describes (moduleWith shape) (getModule fresh storageItem getCall getEvent) := by
  refine describes_readText.seq fun _ => describes_readText.seq fun _ => ?_
  refine (describes_getSection h fresh).seq fun _ => ?_
  refine (describes_getSection describes_getCall _).seq fun _ => ?_
  exact (describes_getSection describes_getEvent _).seq fun _ => describes_pure _

theorem describes_moduleV6 : Describes BlobLayouts.moduleV6 MetadataFormats.moduleV6 :=
  (describes_getModule describes_getStorage _).seq fun _ =>
    describes_consts.seq fun _ => describes_pure _

theorem describes_storageV7 :
    Describes (optional (all [text, listOf BlobLayouts.storage])) storageV7 :=
  Describes.tagged fun _ => Describes.ite
    (describes_readText.seq fun _ => describes_getStorage.stores asInt fun _ _ => describes_pure _)
    (describes_pure _)

theorem describes_moduleV7 : Describes BlobLayouts.moduleV7 MetadataFormats.moduleV7 := by
  refine describes_readText.seq fun _ => describes_storageV7.seq fun _ => ?_
  refine (describes_getSectionV7 describes_getCall).seq fun _ => ?_
  refine (describes_getSectionV7 describes_getEvent).seq fun _ => ?_
  exact describes_consts.seq fun _ => describes_pure _

theorem describes_magicBytes : Describes magic magicBytes := by
  refine describes_nextByte.seq fun _ => describes_nextByte.seq fun _ => ?_
  refine describes_nextByte.seq fun _ => describes_nextByte.seq fun _ => ?_
  exact describes_seq_nothing.2 describes_nextByte

theorem describes_moduleList {shape : Shape} {body : Parser (Traced M)}
    (h : Describes shape body) :
    Describes (.list COLLECTION_SIZE asInt .nothing shape) (moduleList body) := by
  intro s
  rw [Shape.measure, ← read_decodeCompactInteger]
  apply silent_decodeCompactInteger.meets
  intro n t
  exact meets_forCount (meetsItem_claimStore h) (asInt n) Slots.empty t

theorem describes_metadata {shape : Shape} {body : Parser (Traced M)} (h : Describes shape body) :
    Describes (blob shape) (metadata body) := by
  have hmodules : Describes (blob shape) (modulesOf body) :=
    describes_magicBytes.seq fun _ => describes_seq_nothing.2 (describes_moduleList h)
  exact describes_seq_nothing.1 (hmodules.seq fun _ => describes_pure _)

end Modules

section VersionZero

variable {α : Type}

theorem describes_eventArgV0 :
    Describes (all [text, longListOf text, BlobLayouts.documents]) eventArgV0 :=
  describes_readText.seq fun _ => (describes_readText.stores id fun _ _ =>
    describes_documents.seq fun _ => describes_pure _)

theorem describes_getEventV0 : Describes eventV0 getEventV0 :=
  describes_readText.seq fun _ => describes_eventArgV0.stores asInt fun _ _ => describes_pure _

theorem meetsItem_functionArgV0 (ai : ℕ) (args : Slots FunctionCallArg) (s : Str) :
    MeetsItem COLLECTION_SIZE ai text.measure text.measure s (roomy (functionArgV0 ai args) s) :=
  meetsItem describes_readText
    (fun _ => describes_seq_nothing.1 (describes_readText.seq fun _ => describes_pure _)) s

theorem meetsItem_functionCallV0 (i : ℕ) (fn1 : Slots FunctionCallV0) (s : Str) :
    MeetsItem COLLECTION_SIZE i Shape.word.measure
      (all [text, .list COLLECTION_SIZE asInt text text, listOf text]).measure s
      (roomy (functionCallV0 i fn1) s) := by
  apply meetsItem describes_nextWord
  intro id
  refine describes_readText.seq fun _ => Describes.list meetsItem_functionArgV0 fun _ _ => ?_
  exact describes_readText.stores asInt fun _ _ => describes_pure _

theorem meets_copy_bind (text : Str) {f : Str → Parser α} {g : Str → Measured}
    (hf : ∀ t, Meets (roomy (f (cstr text)) t) (g t)) (s : Str) :
    Meets (roomy (copy text >>= f) s)
      (Measured.andThen ⟨[.text (cstr text).length], some s⟩ g) := by
  obtain ⟨hinside, hrest⟩ := inside_store STRING_SIZE (cstr text).length (f (cstr text)) s
  constructor
  · rw [fits_andThen rfl]
    refine hinside.trans (and_congr ?_ (hf s).inside_iff)
    simp [Fits, Size.fits]
  · exact hrest.trans (hf s).rest_eq

/-- The second text is copied first. -/
theorem meets_typeTexts (type : UInt8) (type1 type2 s : Str) :
    Meets (roomy (typeTexts type type1 type2) s)
      ⟨.text (cstr type1).length :: if type ≠ 0 then [.text (cstr type2).length] else [],
        some s⟩ := by
  have hfirst : ∀ (make : Str → FuncTypeV0) t,
      Meets (roomy (copy type1 >>= fun text => pure (make text)) t)
        ⟨[.text (cstr type1).length], some t⟩ := by
    intro make t
    have h := meets_copy_bind type1 (f := fun text => pure (make text))
      (describes_pure (make (cstr type1))) t
    rwa [andThen_nothing] at h
  unfold typeTexts
  by_cases hzero : type = 0
  · rw [if_pos hzero, if_neg (not_not_intro hzero)]
    exact hfirst _ s
  · rw [if_neg hzero, if_pos hzero]
    let make (value key : Str) : FuncTypeV0 := { key := some key, value := some value }
    obtain ⟨hinside, hrest⟩ := meets_copy_bind type2
      (f := fun value => copy type1 >>= fun key => pure (make value key))
      (hfirst (make (cstr type2))) s
    refine ⟨hinside.trans ?_, hrest⟩
    simp [Fits, Measured.andThen, and_comm]

theorem measure_two_texts (copied : Bool) (s : Str) :
    (Shape.texts [true, copied]).measure s =
      after (extractText (m := Reader) s) fun type1 t =>
        after (extractText (m := Reader) t) fun type2 u =>
          ⟨.text (cstr type1).length :: if copied then [.text (cstr type2).length] else [],
            some u⟩ := by
  change after (collect extractText (0 + 1 + 1) s) _ = _
  simp only [collect, after_bind]
  cases copied <;> rfl

theorem describes_types (type hasSecondType : UInt8) {second : Shape}
    {next : FuncTypeV0 → Parser α} (hnext : ∀ texts, Describes second (next texts)) :
    Describes (.seq (typesV0 type hasSecondType) second) (do
      let type1 ← extractText
      let type2 ← secondType hasSecondType
      let texts ← typeTexts type type1 type2
      next texts) := by
  have hcopied : ∀ type1 type2 u, Meets (roomy (typeTexts type type1 type2 >>= next) u)
      (Measured.andThen
        ⟨.text (cstr type1).length :: if type ≠ 0 then [.text (cstr type2).length] else [],
          some u⟩ second.measure) := by
    intro type1 type2 u
    rw [roomy_bind]
    exact (meets_typeTexts type type1 type2 u).andThen hnext
  intro s
  rw [measure_seq]
  unfold typesV0 secondType
  by_cases hsecond : hasSecondType ≠ 0
  · simp only [if_pos hsecond, measure_two_texts, after_andThen, ← read_extractText]
    apply silent_extractText.meets
    intro type1 t
    apply silent_extractText.meets
    intro type2 u
    simpa only [ne_eq, decide_eq_true_eq] using hcopied type1 type2 u
  · simp only [if_neg hsecond, measure_text, after_andThen, ← read_extractText]
    apply silent_extractText.meets
    intro type1 t
    obtain ⟨hinside, hrest⟩ := hcopied type1 [] t
    refine ⟨hinside.trans ?_, hrest⟩
    rw [fits_andThen rfl, fits_andThen rfl]
    refine and_congr_left' ?_
    split_ifs <;> simp [Fits, cstr, Size.fits, STRING_SIZE]

theorem meetsItem_storageFunctionV0 (i : ℕ) (function : Slots FunctionV0) (s : Str) :
    MeetsItem COLLECTION_SIZE i text.measure
      (Shape.tagged fun type => Shape.tagged fun hasSecondType =>
        all [typesV0 type hasSecondType, fallback, BlobLayouts.documents]).measure s
      (roomy (storageFunctionV0 i function) s) := by
  apply meetsItem describes_readText
  intro name
  refine Describes.tagged fun type => Describes.tagged fun hasSecondType => ?_
  refine describes_types type hasSecondType fun texts => ?_
  exact describes_fallbackText.seq fun _ => describes_documents.seq fun _ => describes_pure _

theorem describes_getStorageV0 : Describes storageV0 getStorageV0 := by
  refine Describes.tagged fun isset => ?_
  rw [ite_not]
  refine Describes.ite (describes_pure _) (describes_readText.seq fun _ => ?_)
  exact Describes.list meetsItem_storageFunctionV0 fun _ _ => describes_pure _

theorem describes_getModuleV0 : Describes moduleV0 getModuleV0 := by
  refine describes_readText.seq fun _ => describes_readText.seq fun _ => ?_
  refine describes_readText.seq fun _ => Describes.list meetsItem_functionCallV0 fun _ _ => ?_
  exact describes_getStorageV0.seq fun _ => describes_pure _

theorem describes_getOuterDispachV0 : Describes (all [text, text, .word]) getOuterDispachV0 :=
  describes_readText.seq fun _ => describes_readText.seq fun _ =>
    describes_nextWord.seq fun _ => describes_pure _

theorem describes_metadataV0 : Describes blobV0 metadataV0 := by
  refine describes_readText.seq fun _ => describes_getEventV0.stores asInt fun _ _ => ?_
  refine describes_getModuleV0.stores asInt fun _ _ => describes_readText.seq fun _ => ?_
  exact describes_getOuterDispachV0.stores asInt fun _ _ => describes_pure _

end VersionZero

end PolkadotApi.ParserLayouts
