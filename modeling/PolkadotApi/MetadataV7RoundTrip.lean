import PolkadotApi.MetadataFormats
import PolkadotApi.ScaleRoundTrip

set_option autoImplicit false

namespace PolkadotApi.MetadataV7RoundTrip
open StreamReader HexText MachineModel ScaleCodec ScaleRoundTrip MetadataFormats

structure Text where
  chars : Str
  short : chars.length ≤ 255
  noNul : 0 ∉ chars

structure Bounded (n : ℕ) (α : Type) where
  items : List α
  bounded : items.length ≤ n

abbrev Docs := Bounded COLLECTION_SIZE Text

abbrev RawBytes := Bounded 127 UInt8

structure WireArg where
  name : Text
  type : Text

structure WireCall where
  name : Text
  args : Bounded STRING_SIZE WireArg
  docs : Docs

/-- The number of arguments of an event is left open. -/
structure WireEvent where
  name : Text
  args : List Text
  docs : Docs

structure WireConst where
  name : Text
  type : Text
  value : RawBytes
  docs : Docs

inductive WireType where
  | plain (type : Text)
  | map (hasher : UInt8) (key value : Text) (linked : Bool)
  | doubleMap (hasher : UInt8) (key1 key2 value : Text) (linked : Bool)

structure WireStorage where
  name : Text
  modifier : UInt8
  type : WireType
  fallback : RawBytes
  docs : Docs

structure WireCollection where
  collectionPrefix : Text
  items : Bounded COLLECTION_SIZE WireStorage

structure WireModule where
  name : Text
  storage : Option WireCollection
  calls : Option (Bounded COLLECTION_SIZE WireCall)
  events : Option (Bounded COLLECTION_SIZE WireEvent)
  consts : Bounded COLLECTION_SIZE WireConst

structure WireMetadata where
  header : FixedBytes 5
  modules : Bounded COLLECTION_SIZE WireModule

section Encoding

def encodeList {α : Type} (code : α → List UInt8) (xs : List α) : List UInt8 :=
  compact xs.length ++ xs.flatMap code

def encodeText (t : Text) : List UInt8 := compact t.chars.length ++ t.chars

def encodeRaw (r : RawBytes) : List UInt8 := compact r.items.length ++ r.items

def encodeDocs (docs : Docs) : List UInt8 := encodeList encodeText docs.items

def encodeFlag {α : Type} (code : α → List UInt8) : Option α → List UInt8
  | none => [0]
  | some a => [1] ++ code a

def encodeBool (b : Bool) : List UInt8 := [if b then 1 else 0]

def encodeArg (a : WireArg) : List UInt8 := encodeText a.name ++ encodeText a.type

def encodeCall (c : WireCall) : List UInt8 :=
  encodeText c.name ++ (encodeList encodeArg c.args.items ++ encodeDocs c.docs)

def encodeEvent (e : WireEvent) : List UInt8 :=
  encodeText e.name ++ (encodeList encodeText e.args ++ encodeDocs e.docs)

def encodeConst (c : WireConst) : List UInt8 :=
  encodeText c.name ++ (encodeText c.type ++ (encodeRaw c.value ++ encodeDocs c.docs))

def encodeType : WireType → List UInt8
  | .plain type => [0] ++ encodeText type
  | .map hasher key value linked =>
    [1] ++ ([hasher] ++ (encodeText key ++ (encodeText value ++ encodeBool linked)))
  | .doubleMap hasher key1 key2 value linked =>
    [2] ++ ([hasher] ++ (encodeText key1 ++ (encodeText key2 ++ (encodeText value ++
      encodeBool linked))))

def encodeStorage (s : WireStorage) : List UInt8 :=
  encodeText s.name ++ ([s.modifier] ++ (encodeType s.type ++ (encodeRaw s.fallback ++
    encodeDocs s.docs)))

def encodeCollection (c : WireCollection) : List UInt8 :=
  encodeText c.collectionPrefix ++ encodeList encodeStorage c.items.items

def encodeModule (m : WireModule) : List UInt8 :=
  encodeText m.name ++ (encodeFlag encodeCollection m.storage ++
    (encodeFlag (fun calls => encodeList encodeCall calls.items) m.calls ++
      (encodeFlag (fun events => encodeList encodeEvent events.items) m.events ++
        encodeList encodeConst m.consts.items)))

def encodeMetadata (w : WireMetadata) : List UInt8 :=
  w.header.toList ++ encodeList encodeModule w.modules.items

end Encoding

section Decoded

variable (d : DigitSet)

def textSlots (ts : List Text) : Slots Str := Slots.ofList (ts.map Text.chars)

def decodedArg (a : WireArg) : FunctionCallArg := ⟨a.name.chars, a.type.chars⟩

def decodedCall (c : WireCall) : Call where
  name := some c.name.chars
  args := Slots.ofList (c.args.items.map decodedArg)
  documentation := textSlots c.docs.items

def decodedEvent (e : WireEvent) : EventArg where
  name := some e.name.chars
  args := textSlots e.args
  documentation := textSlots e.docs.items

def decodedConst (c : WireConst) : Const where
  name := c.name.chars
  type := c.type.chars
  value := d.text c.value.items
  documentation := textSlots c.docs.items

def decodedType : WireType → FuncType
  | .plain type => { type := some 0, key1 := some type.chars }
  | .map hasher key value linked =>
    { type := some hasher, key1 := some key.chars, value := some value.chars,
      isLinked := some linked }
  | .doubleMap hasher key1 _ value linked =>
    { type := some hasher, key1 := some key1.chars, value := some value.chars,
      isLinked := some linked }

def decodedStorage (s : WireStorage) : Storage where
  name := some s.name.chars
  modifier := some s.modifier
  type := decodedType s.type
  fallback := some (d.text s.fallback.items)
  documentation := textSlots s.docs.items

def decodedCollection (c : WireCollection) : StorageCollectionV7 :=
  ⟨c.collectionPrefix.chars, Slots.ofList (c.items.items.map (decodedStorage d))⟩

def decodedSlots {α β : Type} {n : ℕ} (value : α → β) : Option (Bounded n α) → Slots β
  | none => Slots.empty
  | some xs => Slots.ofList (xs.items.map value)

def decodedModule (m : WireModule) : ModuleV7 where
  name := m.name.chars
  storage := m.storage.map (decodedCollection d)
  call := decodedSlots decodedCall m.calls
  ev := decodedSlots decodedEvent m.events
  cons := Slots.ofList (m.consts.items.map (decodedConst d))

/-- The structure the parser should build; all slots behind the last entry of a
list are null. -/
def decodedMetadata (w : WireMetadata) : MDV7 :=
  ⟨Slots.ofList (w.modules.items.map (decodedModule d))⟩

end Decoded

section Texts

variable (R : Script)

theorem decodes_readText (t : Text) : Decodes R readText (encodeText t) t.chars := by
  have hshort := t.short
  have hread : Decodes R extractText (encodeText t) t.chars :=
    (decodes_compact R t.chars.length (by omega)).bind
      (decodes_extractString R t.chars (by omega))
  apply hread.bind_end
  exact Decodes.of_pure (copy_ok t.noNul (by rw [STRING_SIZE]; omega))

theorem decodes_counted {α γ : Type} {item : Reader α} {code : γ → List UInt8} {value : γ → α}
    {cap : ℕ} {xs : List γ} (hcap : xs.length ≤ cap) (hsmall : cap < 2 ^ 31)
    (h : ∀ x ∈ xs, Decodes R item (code x) (value x)) :
    Decodes R (decodeCompactInteger >>= fun count => storeEach cap count item)
      (encodeList code xs) (Slots.ofList (xs.map value)) := by
  apply (decodes_compact R xs.length (by omega)).bind
  exact Decodes.storeEach hcap h

theorem decodes_list {α β γ : Type} {item : Reader α} {code : γ → List UInt8} {value : γ → α}
    {cap : ℕ} {xs : List γ} (hcap : xs.length ≤ cap) (hsmall : cap < 2 ^ 31)
    (h : ∀ x ∈ xs, Decodes R item (code x) (value x)) {f : Slots α → Reader β}
    {bs : List UInt8} {b : β} (h' : Decodes R (f (Slots.ofList (xs.map value))) bs b) :
    Decodes R (decodeCompactInteger >>= fun count =>
      storeEach cap (asInt count) item >>= f) (encodeList code xs ++ bs) b := by
  rw [encodeList, List.append_assoc]
  apply (decodes_compact R xs.length (by omega)).bind
  rw [asInt_of_small (by omega)]
  have hstore := Decodes.storeEach hcap h
  exact hstore.bind h'

theorem decodes_documents (docs : Docs) :
    Decodes R documents (encodeDocs docs) (textSlots docs.items) :=
  decodes_counted R docs.bounded (by norm_num [COLLECTION_SIZE]) (fun t _ => decodes_readText R t)

theorem decodes_functionCallArg (a : WireArg) :
    Decodes R functionCallArg (encodeArg a) (decodedArg a) := by
  apply (decodes_readText R a.name).bind
  apply (decodes_readText R a.type).bind_end
  exact Decodes.of_pure (fun _ => rfl)

theorem decodes_getCallV7 (c : WireCall) : Decodes R getCallV7 (encodeCall c) (decodedCall c) := by
  apply (decodes_readText R c.name).bind
  apply decodes_list R c.args.bounded (by norm_num [STRING_SIZE])
    (fun a _ => decodes_functionCallArg R a)
  apply (decodes_documents R c.docs).bind_end
  exact Decodes.of_pure (fun _ => rfl)

theorem decodes_getEventV7 (e : WireEvent) (h : e.args.length ≤ COLLECTION_SIZE) :
    Decodes R getEventV7 (encodeEvent e) (decodedEvent e) := by
  apply (decodes_readText R e.name).bind
  apply decodes_list R h (by norm_num [COLLECTION_SIZE]) (fun t _ => decodes_readText R t)
  apply (decodes_documents R e.docs).bind_end
  exact Decodes.of_pure (fun _ => rfl)

end Texts

section Modules

variable (d : DigitSet)

theorem zero_not_mem_text (bs : List UInt8) : 0 ∉ d.text bs := by
  induction bs with
  | nil => simp [DigitSet.text]
  | cons b bs ih =>
    have hb := b.toNat_lt
    have hdigit : ∀ v < 16, d.digit v ≠ 0 := by
      intro v hv hz
      have h := d.hexValue_digit hv
      rw [hz] at h
      exact absurd h (by simp [hexValue])
    have hhigh := hdigit (b.toNat / 16) (by omega)
    have hlow := hdigit (b.toNat % 16) (by omega)
    simp only [DigitSet.text, List.mem_cons, not_or]
    exact ⟨hhigh.symm, hlow.symm, ih⟩

theorem decodes_rawText (r : RawBytes) :
    Decodes d.script (rawText (r.items.length * 2 : ℕ)) r.items (d.text r.items) := by
  rintro text rest rfl
  have hshort := r.bounded
  have hlength : (d.text r.items).length = r.items.length * 2 := by
    rw [(d.spells_text r.items).length, Nat.mul_comm]
  have hcount : (((r.items.length * 2 : ℕ) : ℤ) % 2 ^ 64).toNat = r.items.length * 2 := by omega
  rw [rawText, hcount, bind_ok (chars_append hlength rest)]
  exact copy_ok (zero_not_mem_text d r.items) (by rw [hlength, STRING_SIZE]; omega) rest

theorem decodes_fallbackText (r : RawBytes) :
    Decodes d.script fallbackText (encodeRaw r) (d.text r.items) := by
  have hshort := r.bounded
  apply (decodes_compact d.script r.items.length (by omega)).bind
  exact_mod_cast decodes_rawText d r

theorem decodes_constText (r : RawBytes) :
    Decodes d.script constText (encodeRaw r) (d.text r.items) := by
  have hshort := r.bounded
  apply (decodes_compact d.script r.items.length (by omega)).bind
  have hint : asInt (asInt (r.items.length : ℤ) * 2) = (r.items.length * 2 : ℕ) := by
    rw [asInt_of_small (by omega)]
    exact_mod_cast asInt_of_small (n := r.items.length * 2) (by omega)
  rw [hint]
  exact decodes_rawText d r

theorem decodes_getConstsV7 (c : WireConst) :
    Decodes d.script getConstsV7 (encodeConst c) (decodedConst d c) := by
  apply (decodes_readText d.script c.name).bind
  apply (decodes_readText d.script c.type).bind
  apply (decodes_constText d c.value).bind
  apply (decodes_documents d.script c.docs).bind_end
  exact Decodes.of_pure (fun _ => rfl)

theorem decodes_getStorage_of {tag type : UInt8} {value : Option Str} {linked : Option Bool}
    {as bs cs : List UInt8} (htype : Decodes d.script (typeByte tag) as type)
    (hvalue : Decodes d.script (mapValue tag) bs value)
    (hlinked : Decodes d.script (linkedFlag tag) cs linked)
    (name key : Text) (modifier : UInt8) (fallback : RawBytes) (docs : Docs) :
    Decodes d.script getStorage
      (encodeText name ++ ([modifier] ++ ([tag] ++ (as ++ (encodeText key ++ (bs ++ (cs ++
        (encodeRaw fallback ++ encodeDocs docs))))))))
      { name := some name.chars, modifier := some modifier,
        type := { type := some type, key1 := some key.chars, value, isLinked := linked },
        fallback := some (d.text fallback.items), documentation := textSlots docs.items } := by
  apply (decodes_readText d.script name).bind
  apply (decodes_nextByte d.script modifier).bind
  apply (decodes_nextByte d.script tag).bind
  apply htype.bind
  apply (decodes_readText d.script key).bind
  apply hvalue.bind
  apply hlinked.bind
  apply (decodes_fallbackText d fallback).bind
  apply (decodes_documents d.script docs).bind_end
  exact Decodes.of_pure (fun _ => rfl)

theorem decodes_typeByte {tag : UInt8} (h : tag ≠ 0) (hasher : UInt8) :
    Decodes d.script (typeByte tag) [hasher] hasher := by
  rw [typeByte, if_pos h]
  exact decodes_nextByte d.script hasher

theorem decodes_linkedFlag {tag : UInt8} (h : tag ≠ 0) (linked : Bool) :
    Decodes d.script (linkedFlag tag) (encodeBool linked) (some linked) := by
  rw [linkedFlag, if_pos h]
  apply (decodes_nextByte d.script (if linked then 1 else 0)).bind_end
  cases linked <;> exact Decodes.of_pure (fun _ => rfl)

theorem decodes_getStorageV7 (s : WireStorage) :
    Decodes d.script getStorageV7 (encodeStorage s) (decodedStorage d s) := by
  obtain ⟨name, modifier, type, fallback, docs⟩ := s
  cases type with
  | plain key =>
    have htype : Decodes d.script (typeByte 0) [] 0 := Decodes.of_pure (fun _ => rfl)
    have hvalue : Decodes d.script (mapValue 0) [] none := Decodes.of_pure (fun _ => rfl)
    have hlinked : Decodes d.script (linkedFlag 0) [] none := Decodes.of_pure (fun _ => rfl)
    have h := decodes_getStorage_of d htype hvalue hlinked name key modifier fallback docs
    simp only [encodeStorage, encodeType, List.append_assoc]
    exact h
  | map hasher key value linked =>
    have hvalue : Decodes d.script (mapValue 1) (encodeText value) (some value.chars) :=
      (decodes_readText d.script value).bind_end (Decodes.of_pure (fun _ => rfl))
    have h := decodes_getStorage_of d (decodes_typeByte d (by decide) hasher) hvalue
      (decodes_linkedFlag d (by decide) linked) name key modifier fallback docs
    simp only [encodeStorage, encodeType, List.append_assoc] at h ⊢
    exact h
  | doubleMap hasher key1 key2 value linked =>
    have hvalue : Decodes d.script (mapValue 2) (encodeText key2 ++ encodeText value)
        (some value.chars) :=
      (decodes_readText d.script key2).bind
        ((decodes_readText d.script value).bind_end (Decodes.of_pure (fun _ => rfl)))
    have h := decodes_getStorage_of d (decodes_typeByte d (by decide) hasher) hvalue
      (decodes_linkedFlag d (by decide) linked) name key1 modifier fallback docs
    simp only [encodeStorage, encodeType, List.append_assoc] at h ⊢
    exact h

theorem decodes_storageV7 (o : Option WireCollection) :
    Decodes d.script storageV7 (encodeFlag encodeCollection o) (o.map (decodedCollection d)) := by
  cases o with
  | none => exact (decodes_nextByte d.script 0).bind_end (Decodes.of_pure (fun _ => rfl))
  | some c =>
    apply (decodes_nextByte d.script 1).bind
    rw [if_pos (by decide)]
    apply (decodes_readText d.script c.collectionPrefix).bind
    rw [← List.append_nil (encodeList encodeStorage c.items.items)]
    apply decodes_list d.script c.items.bounded (by norm_num [COLLECTION_SIZE])
      (fun s _ => decodes_getStorageV7 d s)
    exact Decodes.of_pure (fun _ => rfl)

def decodedSection {α β : Type} {n : ℕ} (value : α → β) : Option (Bounded n α) → Section β
  | none => ⟨0, 0, Slots.empty⟩
  | some xs => ⟨1, xs.items.length, Slots.ofList (xs.items.map value)⟩

theorem decodedSection_items {α β : Type} {n : ℕ} (value : α → β) (o : Option (Bounded n α)) :
    (decodedSection value o).items = decodedSlots value o := by
  cases o <;> rfl

theorem decodes_getSectionV7 {α γ : Type} {item : Reader α} {code : γ → List UInt8}
    {value : γ → α} (o : Option (Bounded COLLECTION_SIZE γ))
    (h : ∀ xs ∈ o, ∀ x ∈ xs.items, Decodes d.script item (code x) (value x)) :
    Decodes d.script (getSectionV7 item) (encodeFlag (fun xs => encodeList code xs.items) o)
      (decodedSection value o) := by
  cases o with
  | none => exact (decodes_nextByte d.script 0).bind_end (Decodes.of_pure (fun _ => rfl))
  | some xs =>
    have hbound : xs.items.length ≤ 64 := xs.bounded
    apply (decodes_nextByte d.script 1).bind
    rw [if_pos (by decide)]
    apply (decodes_compact d.script xs.items.length (by omega)).bind
    rw [asInt_of_small (by omega)]
    apply (Decodes.storeEach xs.bounded (h xs rfl)).bind_end
    exact Decodes.of_pure (fun _ => rfl)

theorem decodes_consts (cs : Bounded COLLECTION_SIZE WireConst) :
    Decodes d.script (consts getConstsV7) (encodeList encodeConst cs.items)
      (Slots.ofList (cs.items.map (decodedConst d))) :=
  decodes_counted d.script cs.bounded (by norm_num [COLLECTION_SIZE])
    (fun c _ => decodes_getConstsV7 d c)

def tracedModule (m : WireModule) : Traced ModuleV7 :=
  ⟨decodedModule d m, (decodedSection decodedCall m.calls).isset,
    (decodedSection decodedCall m.calls).count⟩

/-- No event has more arguments than `EventArgV7` has room for. -/
def EventArgsFit (m : WireModule) : Prop :=
  ∀ events ∈ m.events, ∀ e ∈ events.items, e.args.length ≤ COLLECTION_SIZE

theorem decodes_moduleV7 (m : WireModule) (h : EventArgsFit m) :
    Decodes d.script moduleV7 (encodeModule m) (tracedModule d m) := by
  apply (decodes_readText d.script m.name).bind
  apply (decodes_storageV7 d m.storage).bind
  apply (decodes_getSectionV7 d m.calls (fun _ _ c _ => decodes_getCallV7 d.script c)).bind
  apply (decodes_getSectionV7 d m.events
    (fun xs hxs e he => decodes_getEventV7 d.script e (h xs hxs e he))).bind
  apply (decodes_consts d m.consts).bind_end
  rw [decodedSection_items, decodedSection_items]
  exact Decodes.of_pure (fun _ => rfl)

theorem decodes_magicBytes (R : Script) (header : FixedBytes 5) :
    ∃ version, Decodes R magicBytes header.toList version := by
  obtain ⟨bytes, hlength⟩ := header
  match bytes, hlength with
  | [a, b, c, e, f], _ =>
    refine ⟨f, ?_⟩
    change Decodes R magicBytes ([a] ++ ([b] ++ ([c] ++ ([e] ++ [f])))) f
    apply (decodes_nextByte R a).bind
    apply (decodes_nextByte R b).bind
    apply (decodes_nextByte R c).bind
    apply (decodes_nextByte R e).bind
    exact decodes_nextByte R f

theorem decodes_moduleList (ms : Bounded COLLECTION_SIZE WireModule)
    (h : ∀ m ∈ ms.items, EventArgsFit m) :
    Decodes d.script (moduleList moduleV7) (encodeList encodeModule ms.items)
      (Slots.ofList (ms.items.map (tracedModule d))) := by
  have hbound : ms.items.length ≤ 64 := ms.bounded
  apply (decodes_compact d.script ms.items.length (by omega)).bind
  rw [asInt_of_small (by omega)]
  exact Decodes.claimEach ms.bounded (fun m hm => decodes_moduleV7 d m (h m hm))

theorem forget_ofList {M : Type} (ts : List (Traced M)) :
    forget (Slots.ofList ts) = ⟨Slots.ofList (ts.map Traced.module)⟩ := by
  rw [forget]
  congr 1
  funext i
  simp [Slots.ofList]

/-- The parser recovers every field of every value whose events fit, in either
case of the hexadecimal digits. -/
theorem fillV7Metadata_encodeMetadata (w : WireMetadata)
    (h : ∀ m ∈ w.modules.items, EventArgsFit m) :
    fillV7Metadata (d.text (encodeMetadata w)) = .ok (decodedMetadata d w) := by
  obtain ⟨version, hmagic⟩ := decodes_magicBytes d.script w.header
  have hheader := hmagic _ (d.text (encodeList encodeModule w.modules.items)) rfl
  have hlist := decodes_moduleList d w.modules h _ [] rfl
  rw [List.append_nil] at hlist
  have htrace : traceModules moduleV7 (d.text (encodeMetadata w)) =
      .ok (Slots.ofList (w.modules.items.map (tracedModule d))) := by
    rw [traceModules, encodeMetadata, DigitSet.text_append, modulesOf, bind_ok hheader, hlist]
    rfl
  rw [fillV7Metadata, fillMetadata_eq, htrace]
  change Except.ok (forget _) = _
  rw [forget_ofList, List.map_map]
  rfl

def emptyText : Text := ⟨[], by simp, by simp⟩

def oneEvent (count : ℕ) : WireMetadata :=
  ⟨⟨[0x6d, 0x65, 0x74, 0x61, 7], rfl⟩,
    ⟨[⟨emptyText, none, none,
      some ⟨[⟨emptyText, List.replicate count emptyText, ⟨[], by simp⟩⟩], by
        simp [COLLECTION_SIZE]⟩, ⟨[], by simp⟩⟩], by simp [COLLECTION_SIZE]⟩⟩

theorem fillV7Metadata_encodeMetadata_oneEvent :
    (∀ m ∈ (oneEvent 64).modules.items, EventArgsFit m) ∧
      fillV7Metadata (upperText (encodeMetadata (oneEvent 64))) =
        .ok (decodedMetadata .upper (oneEvent 64)) := by
  have hfit : ∀ m ∈ (oneEvent 64).modules.items, EventArgsFit m := by
    intro m hm events hevents e he
    obtain rfl := List.mem_singleton.1 hm
    obtain rfl := Option.some.inj hevents
    obtain rfl := List.mem_singleton.1 he
    simp [COLLECTION_SIZE]
  exact ⟨hfit, fillV7Metadata_encodeMetadata .upper (oneEvent 64) hfit⟩

theorem fillV7Metadata_encodeMetadata_fails : ¬ ∀ (d : DigitSet) (w : WireMetadata),
    fillV7Metadata (d.text (encodeMetadata w)) = .ok (decodedMetadata d w) := by
  intro hall
  have hfill := hall .upper (oneEvent 65)
  have hundefined : (fillV7Metadata (upperText (encodeMetadata (oneEvent 65)))).map
      (fun _ => ()) = .error .undefined := by decide +kernel
  rw [hfill] at hundefined
  cases hundefined

end Modules

end PolkadotApi.MetadataV7RoundTrip
