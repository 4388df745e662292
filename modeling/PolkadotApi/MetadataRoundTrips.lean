import PolkadotApi.MetadataV7RoundTrip

set_option autoImplicit false

namespace PolkadotApi.MetadataRoundTrips
open StreamReader HexText MachineModel ScaleCodec ScaleRoundTrip MetadataFormats
open MetadataV7RoundTrip

section Layouts

/-- The second type and the byte behind it stand after a type byte other than zero. -/
inductive WireTypeV4 where
  | plain (key : Text)
  | map (type : UInt8) (nonzero : type ≠ 0) (key1 key2 : Text) (hasher : UInt8)

structure WireStorageV4 where
  name : Text
  modifier : UInt8
  type : WireTypeV4
  fallback : RawBytes
  docs : Docs

structure WireSections (S : Type) where
  name : Text
  modulePrefix : Text
  storage : Option (Bounded COLLECTION_SIZE S)
  calls : Option (Bounded COLLECTION_SIZE WireCall)
  events : Option (Bounded COLLECTION_SIZE WireEvent)

structure WireModuleV6 extends WireSections WireStorage where
  consts : Bounded COLLECTION_SIZE WireConst

def Wire : Layout → Type
  | .v4 => WireSections WireStorageV4
  | .v5 => WireSections WireStorage
  | .v6 => WireModuleV6
  | .v7 => WireModule

def wireEvents : (layout : Layout) → Wire layout → Option (Bounded COLLECTION_SIZE WireEvent)
  | .v4 => WireSections.events
  | .v5 => WireSections.events
  | .v6 => fun m => m.events
  | .v7 => WireModule.events

def EventsFit (layout : Layout) (m : Wire layout) : Prop :=
  ∀ events ∈ wireEvents layout m, ∀ e ∈ events.items, e.args.length ≤ COLLECTION_SIZE

end Layouts

section Encoding

def encodeTypeV4 : WireTypeV4 → List UInt8
  | .plain key => [0] ++ encodeText key
  | .map type _ key1 key2 hasher =>
    [type] ++ (encodeText key1 ++ (encodeText key2 ++ [hasher]))

def encodeStorageV4 (s : WireStorageV4) : List UInt8 :=
  encodeText s.name ++ ([s.modifier] ++ (encodeTypeV4 s.type ++ (encodeRaw s.fallback ++
    encodeDocs s.docs)))

def encodeSections {S : Type} (code : S → List UInt8) (m : WireSections S) : List UInt8 :=
  encodeText m.name ++ (encodeText m.modulePrefix ++
    (encodeFlag (fun items => encodeList code items.items) m.storage ++
      (encodeFlag (fun calls => encodeList encodeCall calls.items) m.calls ++
        encodeFlag (fun events => encodeList encodeEvent events.items) m.events)))

def encodeWire : (layout : Layout) → Wire layout → List UInt8
  | .v4 => encodeSections encodeStorageV4
  | .v5 => encodeSections encodeStorage
  | .v6 => fun m => encodeSections encodeStorage m.toWireSections ++
    encodeList encodeConst m.consts.items
  | .v7 => encodeModule

end Encoding

section Decoded

variable (d : DigitSet)

def decodedTypeV4 : WireTypeV4 → FuncTypeV4
  | .plain key => { type := some 0, key1 := some key.chars }
  | .map type _ key1 key2 hasher =>
    { type := some type, hasher := some hasher, key1 := some key1.chars, key2 := some key2.chars }

def decodedStorageV4 (s : WireStorageV4) : StorageV4 where
  name := some s.name.chars
  modifier := some s.modifier
  type := decodedTypeV4 s.type
  fallback := some (d.text s.fallback.items)
  documentation := textSlots s.docs.items

/-- A present list without items leaves one new entry. -/
def decodedItems {α β : Type} {n : ℕ} (fresh : β) (value : α → β) :
    Option (Bounded n α) → Slots β
  | none => Slots.empty
  | some xs => if xs.items = [] then Slots.ofList [fresh] else Slots.ofList (xs.items.map value)

def decodedSections {S T : Type} (fresh : T) (value : S → T) (m : WireSections S) : Module T where
  name := m.name.chars
  modulePrefix := m.modulePrefix.chars
  storage := decodedItems fresh value m.storage
  call := decodedItems {} decodedCall m.calls
  ev := decodedItems {} decodedEvent m.events

def decodedWire : (layout : Layout) → Wire layout → layout.Carrier
  | .v4 => decodedSections {} (decodedStorageV4 d)
  | .v5 => decodedSections {} (decodedStorage d)
  | .v6 => fun m => ⟨decodedSections {} (decodedStorage d) m.toWireSections,
    Slots.ofList (m.consts.items.map (decodedConst d))⟩
  | .v7 => decodedModule d

end Decoded

section Parsers

variable (d : DigitSet)

theorem decodes_pure_bind {α β : Type} {a : α} {f : α → Reader β} {bytes : List UInt8} {b : β}
    (h : Decodes d.script (f a) bytes b) : Decodes d.script (pure a >>= f) bytes b := h

theorem decodes_secondKey {type : UInt8} (nonzero : type ≠ 0) (key2 : Text) (hasher : UInt8) :
    Decodes d.script (secondKey type) (encodeText key2 ++ [hasher])
      (some (key2.chars, hasher)) := by
  rw [secondKey, if_pos nonzero]
  apply (decodes_readText d.script key2).bind
  exact (decodes_nextByte d.script hasher).bind_end (Decodes.of_pure (fun _ => rfl))

theorem decodes_getStorageV4 (s : WireStorageV4) :
    Decodes d.script getStorageV4 (encodeStorageV4 s) (decodedStorageV4 d s) := by
  obtain ⟨name, modifier, type, fallback, docs⟩ := s
  cases type with
  | plain key =>
    simp only [encodeStorageV4, encodeTypeV4, List.append_assoc]
    apply (decodes_readText d.script name).bind
    apply (decodes_nextByte d.script modifier).bind
    apply (decodes_nextByte d.script 0).bind
    apply (decodes_readText d.script key).bind
    change Decodes d.script (pure none >>= _) _ _
    apply decodes_pure_bind
    apply (decodes_fallbackText d fallback).bind
    apply (decodes_documents d.script docs).bind_end
    exact Decodes.of_pure (fun _ => rfl)
  | map type nonzero key1 key2 hasher =>
    simp only [encodeStorageV4, encodeTypeV4, List.append_assoc]
    apply (decodes_readText d.script name).bind
    apply (decodes_nextByte d.script modifier).bind
    apply (decodes_nextByte d.script type).bind
    apply (decodes_readText d.script key1).bind
    rw [← List.append_assoc (encodeText key2)]
    apply (decodes_secondKey d nonzero key2 hasher).bind
    apply (decodes_fallbackText d fallback).bind
    apply (decodes_documents d.script docs).bind_end
    exact Decodes.of_pure (fun _ => rfl)

def sectionOf {α β : Type} {n : ℕ} (fresh : β) (value : α → β) :
    Option (Bounded n α) → Section β
  | none => ⟨0, 0, Slots.empty⟩
  | some xs => ⟨1, xs.items.length, decodedItems fresh value (some xs)⟩

theorem sectionOf_items {α β : Type} {n : ℕ} (fresh : β) (value : α → β)
    (o : Option (Bounded n α)) : (sectionOf fresh value o).items = decodedItems fresh value o := by
  cases o <;> rfl

theorem decodes_getSection {α γ : Type} (fresh : α) {item : Reader α} {code : γ → List UInt8}
    {value : γ → α} (o : Option (Bounded COLLECTION_SIZE γ))
    (h : ∀ xs ∈ o, ∀ x ∈ xs.items, Decodes d.script item (code x) (value x)) :
    Decodes d.script (getSection fresh item) (encodeFlag (fun xs => encodeList code xs.items) o)
      (sectionOf fresh value o) := by
  cases o with
  | none => exact (decodes_nextByte d.script 0).bind_end (Decodes.of_pure (fun _ => rfl))
  | some xs =>
    have hbound : xs.items.length ≤ 64 := xs.bounded
    apply (decodes_nextByte d.script 1).bind
    rw [if_pos (by decide)]
    apply (decodes_compact d.script xs.items.length (by omega)).bind
    rw [asInt_of_small (by omega)]
    by_cases hempty : xs.items = []
    · simp only [sectionOf, decodedItems, hempty, List.length_nil, Nat.cast_zero, if_true,
        List.flatMap_nil]
      exact Decodes.of_pure (fun _ => rfl)
    · have hcount : (xs.items.length : ℤ) ≠ 0 := by
        simpa using hempty
      rw [if_neg hcount]
      simp only [sectionOf, decodedItems, if_neg hempty]
      apply (Decodes.storeEach xs.bounded (h xs rfl)).bind_end
      exact Decodes.of_pure (fun _ => rfl)

def tracedSections {S T : Type} (fresh : T) (value : S → T) (m : WireSections S) :
    Traced (Module T) :=
  ⟨decodedSections fresh value m, (sectionOf {} decodedCall m.calls).isset,
    (sectionOf {} decodedCall m.calls).count⟩

theorem decodes_getModule {S T : Type} (fresh : T) {item : Reader T} {code : S → List UInt8}
    {value : S → T} (hitem : ∀ s, Decodes d.script item (code s) (value s)) (m : WireSections S)
    (h : ∀ events ∈ m.events, ∀ e ∈ events.items, e.args.length ≤ COLLECTION_SIZE) :
    Decodes d.script (getModule fresh item getCall getEvent) (encodeSections code m)
      (tracedSections fresh value m) := by
  apply (decodes_readText d.script m.name).bind
  apply (decodes_readText d.script m.modulePrefix).bind
  apply (decodes_getSection d fresh m.storage (fun _ _ s _ => hitem s)).bind
  apply (decodes_getSection d {} m.calls (fun _ _ c _ => decodes_getCallV7 d.script c)).bind
  apply (decodes_getSection d {} m.events
    (fun xs hxs e he => decodes_getEventV7 d.script e (h xs hxs e he))).bind_end
  rw [sectionOf_items, sectionOf_items, sectionOf_items]
  exact Decodes.of_pure (fun _ => rfl)

def tracedWire : (layout : Layout) → Wire layout → Traced layout.Carrier
  | .v4 => tracedSections {} (decodedStorageV4 d)
  | .v5 => tracedSections {} (decodedStorage d)
  | .v6 => fun m => ⟨decodedWire d .v6 m, (sectionOf {} decodedCall m.calls).isset,
    (sectionOf {} decodedCall m.calls).count⟩
  | .v7 => tracedModule d

theorem tracedWire_module (layout : Layout) (m : Wire layout) :
    (tracedWire d layout m).module = decodedWire d layout m := by
  cases layout <;> rfl

theorem decodes_moduleV4 (m : WireSections WireStorageV4) (h : EventsFit .v4 m) :
    Decodes d.script moduleV4 (encodeSections encodeStorageV4 m)
      (tracedSections {} (decodedStorageV4 d) m) := by
  have hmodule := decodes_getModule d ({} : StorageV4) (decodes_getStorageV4 d) m h
  unfold moduleV4 getCallV4 getEventV4
  exact hmodule

theorem decodes_moduleV5 (m : WireSections WireStorage) (h : EventsFit .v5 m) :
    Decodes d.script moduleV5 (encodeSections encodeStorage m)
      (tracedSections {} (decodedStorage d) m) := by
  have hmodule := decodes_getModule d ({} : Storage) (decodes_getStorageV7 d) m h
  unfold moduleV5 getStorageV5 getCallV5 getEventV5
  exact hmodule

theorem decodes_moduleV6 (m : WireModuleV6) (h : EventsFit .v6 m) :
    Decodes d.script moduleV6
      (encodeSections encodeStorage m.toWireSections ++ encodeList encodeConst m.consts.items)
      (tracedWire d .v6 m) := by
  unfold moduleV6 getStorageV6 getCallV6 getEventV6
  apply (decodes_getModule d {} (decodes_getStorageV7 d) m.toWireSections h).bind
  apply (decodes_consts d m.consts).bind_end
  exact Decodes.of_pure (fun _ => rfl)

theorem decodes_body (layout : Layout) (m : Wire layout) (h : EventsFit layout m) :
    Decodes d.script layout.body (encodeWire layout m) (tracedWire d layout m) := by
  cases layout with
  | v4 => exact decodes_moduleV4 d m h
  | v5 => exact decodes_moduleV5 d m h
  | v6 => exact decodes_moduleV6 d m h
  | v7 => exact decodes_moduleV7 d m h

end Parsers

section Documents

structure WireDocument (layout : Layout) where
  header : FixedBytes 5
  modules : Bounded COLLECTION_SIZE (Wire layout)

def encodeDocument {layout : Layout} (w : WireDocument layout) : List UInt8 :=
  w.header.toList ++ encodeList (encodeWire layout) w.modules.items

variable (d : DigitSet)

def decodedDocument {layout : Layout} (w : WireDocument layout) : MD layout.Carrier :=
  ⟨Slots.ofList (w.modules.items.map (decodedWire d layout))⟩

theorem traceModules_encodeDocument {layout : Layout} (w : WireDocument layout)
    (h : ∀ m ∈ w.modules.items, EventsFit layout m) :
    traceModules layout.body (d.text (encodeDocument w)) =
      .ok (Slots.ofList (w.modules.items.map (tracedWire d layout))) := by
  have hbound : w.modules.items.length ≤ 64 := w.modules.bounded
  obtain ⟨version, hmagic⟩ := decodes_magicBytes d.script w.header
  have hlist : Decodes d.script (moduleList layout.body)
      (encodeList (encodeWire layout) w.modules.items)
      (Slots.ofList (w.modules.items.map (tracedWire d layout))) := by
    apply (decodes_compact d.script w.modules.items.length (by omega)).bind
    rw [asInt_of_small (by omega)]
    exact Decodes.claimEach w.modules.bounded
      (fun m hm => decodes_body d layout m (h m hm))
  have hheader := hmagic _ (d.text (encodeList (encodeWire layout) w.modules.items)) rfl
  have hmodules := hlist _ [] rfl
  rw [List.append_nil] at hmodules
  rw [traceModules, encodeDocument, DigitSet.text_append, modulesOf, bind_ok hheader, hmodules]
  rfl

/-- Each parser of versions 4 to 7 gives back every field of what its version lays out,
in either case of the hexadecimal digits, as long as the events' arguments fit. -/
theorem fillMetadata_encodeDocument {layout : Layout} (w : WireDocument layout)
    (h : ∀ m ∈ w.modules.items, EventsFit layout m) :
    fillMetadata layout.body (d.text (encodeDocument w)) = .ok (decodedDocument d w) := by
  have hmodule : Traced.module ∘ tracedWire d layout = decodedWire d layout := by
    funext m
    exact tracedWire_module d layout m
  rw [fillMetadata_eq, traceModules_encodeDocument d w h]
  change Except.ok (forget _) = _
  rw [forget_ofList, List.map_map, hmodule]
  rfl

theorem length_nil_le (n : ℕ) (α : Type) : ([] : List α).length ≤ n := Nat.zero_le n

theorem length_singleton_le {α : Type} (a : α) : [a].length ≤ COLLECTION_SIZE := by
  simp [COLLECTION_SIZE]

def noItems {n : ℕ} {α : Type} : Bounded n α := ⟨[], length_nil_le n α⟩

def oneItem {α : Type} (a : α) : Bounded COLLECTION_SIZE α := ⟨[a], length_singleton_le a⟩

theorem map_nonzero : (1 : UInt8) ≠ 0 := by decide

theorem fallback_fits : ([7] : List UInt8).length ≤ 127 := by decide

def mapAndEvent (count : ℕ) : WireSections WireStorageV4 where
  name := emptyText
  modulePrefix := emptyText
  storage := some (oneItem ⟨emptyText, 0, .map 1 map_nonzero emptyText emptyText 2,
    ⟨[7], fallback_fits⟩, noItems⟩)
  calls := some noItems
  events := some (oneItem ⟨emptyText, List.replicate count emptyText, noItems⟩)

def oneModule (layout : Layout) (m : Wire layout) : WireDocument layout :=
  ⟨⟨[0x6d, 0x65, 0x74, 0x61, layout.number], rfl⟩, oneItem m⟩

theorem fillMetadata_encodeDocument_mapAndEvent :
    EventsFit .v4 (mapAndEvent 64) ∧
      fillMetadata moduleV4 (upperText (encodeDocument (oneModule .v4 (mapAndEvent 64)))) =
        .ok (decodedDocument .upper (oneModule .v4 (mapAndEvent 64))) := by
  have hfit : EventsFit .v4 (mapAndEvent 64) := by
    intro events hevents e he
    obtain rfl := Option.some.inj hevents
    obtain rfl := List.mem_singleton.1 he
    simp [COLLECTION_SIZE]
  have hmodules : ∀ m ∈ (oneModule .v4 (mapAndEvent 64)).modules.items,
      EventsFit .v4 m := by
    intro m hm
    obtain rfl := List.mem_singleton.1 hm
    exact hfit
  exact ⟨hfit, fillMetadata_encodeDocument .upper (oneModule .v4 (mapAndEvent 64)) hmodules⟩

end Documents

end PolkadotApi.MetadataRoundTrips
