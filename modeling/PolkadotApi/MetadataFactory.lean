import PolkadotApi.MetadataFormats

set_option autoImplicit false

/-!
All five parsers are tried on the same text and every one that does not throw
leaves its result. The four parsers of versions 4 to 7 skip the header bytes
without looking at them, so which of them accept is decided by the text behind
the header alone.
-/
namespace PolkadotApi.MetadataFactory
open StreamReader MachineModel ScaleCodec MetadataFormats

structure Factory where
  buffer : Str
  version : ℤ
  log : List Str

structure Metadata where
  metadataV0 : Option MDV0 := none
  metadataV4 : Option MDV4 := none
  metadataV5 : Option MDV5 := none
  metadataV6 : Option MDV6 := none
  metadataV7 : Option MDV7 := none

def newFactory : Factory := ⟨[], -1, []⟩

def setInputData (mdf : Factory) (hexString : Str) : Factory := { mdf with buffer := hexString }

/-- `catch (...)` turns any exception into a null result. -/
def tryFill {M : Type} (version : ℤ) (name : String) (fill : Str → Result M) (mdf : Factory) :
    Result (Option M × Factory) :=
  match fill mdf.buffer with
  | .ok md => .ok (some md, { mdf with
      version, log := mdf.log ++ [lit "Metadata version " ++ lit name ++ lit " detected"] })
  | .error (.thrown _) => .ok (none, { mdf with
      log := mdf.log ++ [lit "Metadata version is not " ++ lit name] })
  | .error .undefined => .error .undefined

def getMetadataV0 : Factory → Result (Option MDV0 × Factory) := tryFill 0 "V0" fillV0Metadata

def getMetadataV4 : Factory → Result (Option MDV4 × Factory) := tryFill 4 "V4" fillV4Metadata

def getMetadataV5 : Factory → Result (Option MDV5 × Factory) := tryFill 5 "V5" fillV5Metadata

def getMetadataV6 : Factory → Result (Option MDV6 × Factory) := tryFill 6 "V6" fillV6Metadata

def getMetadataV7 : Factory → Result (Option MDV7 × Factory) := tryFill 7 "V7" fillV7Metadata

/-- One more attempt while no version is known; version 4 is not among them. -/
def attemptUnknown {M : Type} (getMetadata : Factory → Result (Option M × Factory))
    (mdf : Factory) : Result Factory :=
  if mdf.version = -1 then (getMetadata mdf).map Prod.snd else .ok mdf

def getVersion (mdf : Factory) : Result (ℤ × Factory) := do
  let (_, mdf) ← getMetadataV0 mdf
  let mdf ← attemptUnknown getMetadataV5 mdf
  let mdf ← attemptUnknown getMetadataV6 mdf
  let mdf ← attemptUnknown getMetadataV7 mdf
  return (mdf.version, mdf)

def createMetadata (jsonString : Str) : Result Metadata := do
  let hexString ← substrFrom jsonString 2
  let (metadataV0, mdf) ← getMetadataV0 (setInputData newFactory hexString)
  let (metadataV4, mdf) ← getMetadataV4 mdf
  let (metadataV5, mdf) ← getMetadataV5 mdf
  let (metadataV6, mdf) ← getMetadataV6 mdf
  let (metadataV7, _) ← getMetadataV7 mdf
  return { metadataV0, metadataV4, metadataV5, metadataV6, metadataV7 }

section Acceptance

theorem tryFill_eq_ok {M : Type} {version : ℤ} {name : String} {fill : Str → Result M}
    {mdf next : Factory} {md : Option M} (h : tryFill version name fill mdf = .ok (md, next)) :
    next.buffer = mdf.buffer ∧ ∀ m, md = some m ↔ fill mdf.buffer = .ok m := by
  unfold tryFill at h
  cases hf : fill mdf.buffer with
  | ok m =>
    rw [hf] at h
    cases h
    exact ⟨rfl, by simp⟩
  | error e =>
    rw [hf] at h
    cases e with
    | thrown e =>
      cases h
      exact ⟨rfl, by simp⟩
    | undefined => cases h

theorem createMetadata_eq_ok {jsonString : Str} {md : Metadata}
    (h : createMetadata jsonString = .ok md) :
    (∀ m, md.metadataV0 = some m ↔ fillV0Metadata (jsonString.drop 2) = .ok m) ∧
      (∀ m, md.metadataV4 = some m ↔ fillV4Metadata (jsonString.drop 2) = .ok m) ∧
      (∀ m, md.metadataV5 = some m ↔ fillV5Metadata (jsonString.drop 2) = .ok m) ∧
      (∀ m, md.metadataV6 = some m ↔ fillV6Metadata (jsonString.drop 2) = .ok m) ∧
      (∀ m, md.metadataV7 = some m ↔ fillV7Metadata (jsonString.drop 2) = .ok m) := by
  obtain ⟨text, ht, h₀⟩ := except_bind_eq_ok h
  obtain ⟨⟨v0, f0⟩, hv0, h₁⟩ := except_bind_eq_ok h₀
  obtain ⟨⟨v4, f4⟩, hv4, h₂⟩ := except_bind_eq_ok h₁
  obtain ⟨⟨v5, f5⟩, hv5, h₃⟩ := except_bind_eq_ok h₂
  obtain ⟨⟨v6, f6⟩, hv6, h₄⟩ := except_bind_eq_ok h₃
  obtain ⟨⟨v7, f7⟩, hv7, h₅⟩ := except_bind_eq_ok h₄
  have hd := substrFrom_eq_ok ht
  obtain ⟨b0, r0⟩ := tryFill_eq_ok hv0
  obtain ⟨b4, r4⟩ := tryFill_eq_ok hv4
  obtain ⟨b5, r5⟩ := tryFill_eq_ok hv5
  obtain ⟨b6, r6⟩ := tryFill_eq_ok hv6
  obtain ⟨-, r7⟩ := tryFill_eq_ok hv7
  have e0 : f0.buffer = jsonString.drop 2 := b0.trans hd
  have e4 := b4.trans e0
  have e5 := b5.trans e4
  have e6 := b6.trans e5
  change ∀ m, v0 = some m ↔ fillV0Metadata text = .ok m at r0
  rw [hd] at r0
  rw [e0] at r4
  rw [e4] at r5
  rw [e5] at r6
  rw [e6] at r7
  cases h₅
  exact ⟨r0, r4, r5, r6, r7⟩

theorem isSome_iff_accepts {M : Type} {pointer : Option M} {r : Result M}
    (h : ∀ m, pointer = some m ↔ r = .ok m) : pointer.isSome ↔ ∃ m, r = .ok m := by
  rw [Option.isSome_iff_exists]
  exact exists_congr h

theorem nextByte_rest {s t : Str} {b : UInt8} (h : nextByte (m := Reader) s = .ok (b, t)) :
    t = s.drop 2 := by
  obtain ⟨nb, u, hu, h₁⟩ := bind_eq_ok h
  obtain ⟨byte, v, hv, h₂⟩ := bind_eq_ok h₁
  obtain ⟨n, -, hn⟩ := except_map_eq_ok hv
  cases hn
  rw [(pure_eq_ok h₂).2, (chars_eq_ok hu).2]

theorem magicBytes_rest {s t : Str} {b : UInt8} (h : magicBytes (m := Reader) s = .ok (b, t)) :
    t = s.drop 10 := by
  obtain ⟨_, s₁, e₁, h₁⟩ := bind_eq_ok h
  obtain ⟨_, s₂, e₂, h₂⟩ := bind_eq_ok h₁
  obtain ⟨_, s₃, e₃, h₃⟩ := bind_eq_ok h₂
  obtain ⟨_, s₄, e₄, h₄⟩ := bind_eq_ok h₃
  rw [nextByte_rest h₄, nextByte_rest e₄, nextByte_rest e₃, nextByte_rest e₂, nextByte_rest e₁]
  simp only [List.drop_drop]

def Accepts {M : Type} (body : Reader (Traced M)) (text : Str) : Prop :=
  ∃ r, moduleList body text = .ok r

/-- Acceptance needs a readable header and says nothing about its bytes. -/
theorem fillMetadata_ok_iff {M : Type} (body : Reader (Traced M)) (str : Str) :
    (∃ md, fillMetadata body str = .ok md) ↔
      (∃ version, magicBytes (m := Reader) str = .ok (version, str.drop 10)) ∧
        Accepts body (str.drop 10) := by
  constructor
  · rintro ⟨md, h⟩
    obtain ⟨⟨md, rest⟩, hm, -⟩ := except_map_eq_ok h
    obtain ⟨modules, t, hmodules, -⟩ := bind_eq_ok hm
    obtain ⟨version, u, hv, hlist⟩ := bind_eq_ok hmodules
    obtain rfl := magicBytes_rest hv
    exact ⟨⟨version, hv⟩, _, hlist⟩
  · rintro ⟨⟨version, hv⟩, r, hr⟩
    refine ⟨forget r.1, ?_⟩
    rw [fillMetadata_eq, traceModules, modulesOf, bind_ok hv, hr]
    rfl

end Acceptance

section Detection

theorem number_injective : Function.Injective Layout.number := by
  intro a b h
  cases a <;> cases b <;> first | rfl | exact absurd h (by decide)

def Fits (layout : Layout) : Str → Prop := Accepts layout.body

def present (md : Metadata) : Layout → Bool
  | .v4 => md.metadataV4.isSome
  | .v5 => md.metadataV5.isSome
  | .v6 => md.metadataV6.isSome
  | .v7 => md.metadataV7.isSome

def detected (md : Metadata) : List UInt8 :=
  (if md.metadataV0.isSome then [0] else []) ++
    ([Layout.v4, .v5, .v6, .v7].filter (present md)).map Layout.number

def versionByte (jsonString : Str) : Result UInt8 :=
  (magicBytes (m := Reader) (jsonString.drop 2)).map Prod.fst

/-- At most one version is reported, and one with a header is the version its
header names. -/
def DetectsVersion (jsonString : Str) (md : Metadata) : Prop :=
  (detected md).length ≤ 1 ∧
    ∀ layout : Layout, present md layout → versionByte jsonString = .ok layout.number

theorem present_iff {jsonString : Str} {md : Metadata} (h : createMetadata jsonString = .ok md)
    (layout : Layout) : present md layout ↔
      (∃ version, magicBytes (m := Reader) (jsonString.drop 2) = .ok (version, jsonString.drop 12)) ∧
        Fits layout (jsonString.drop 12) := by
  obtain ⟨-, h4, h5, h6, h7⟩ := createMetadata_eq_ok h
  have hdrop : (jsonString.drop 2).drop 10 = jsonString.drop 12 := by rw [List.drop_drop]
  cases layout with
  | v4 => exact (isSome_iff_accepts h4).trans (hdrop ▸ fillMetadata_ok_iff moduleV4 _)
  | v5 => exact (isSome_iff_accepts h5).trans (hdrop ▸ fillMetadata_ok_iff moduleV5 _)
  | v6 => exact (isSome_iff_accepts h6).trans (hdrop ▸ fillMetadata_ok_iff moduleV6 _)
  | v7 => exact (isSome_iff_accepts h7).trans (hdrop ▸ fillMetadata_ok_iff moduleV7 _)

theorem detected_length_le_one_iff (md : Metadata) : (detected md).length ≤ 1 ↔
    (∀ a b : Layout, present md a → present md b → a = b) ∧
      (md.metadataV0.isSome → ∀ a : Layout, ¬ present md a) := by
  have hall : ∀ P : Layout → Prop, (∀ a, P a) ↔ P .v4 ∧ P .v5 ∧ P .v6 ∧ P .v7 := by
    intro P
    exact ⟨fun h => ⟨h _, h _, h _, h _⟩, fun h a => by cases a <;> simp [h]⟩
  simp only [detected, hall, List.filter_cons, List.filter_nil]
  cases md.metadataV0.isSome <;> cases present md .v4 <;> cases present md .v5 <;>
    cases present md .v6 <;> cases present md .v7 <;> simp

/-- Exactly when the reported version is the right one: no layout but the one
the header names fits the text behind the header, and none does if the whole
text also parses as version 0. -/
theorem detectsVersion_iff (jsonString : Str) (md : Metadata)
    (h : createMetadata jsonString = .ok md) :
    DetectsVersion jsonString md ↔ ∀ version,
      magicBytes (m := Reader) (jsonString.drop 2) = .ok (version, jsonString.drop 12) →
        (∀ layout : Layout, Fits layout (jsonString.drop 12) → layout.number = version) ∧
          ((∃ m, fillV0Metadata (jsonString.drop 2) = .ok m) →
            ∀ layout : Layout, ¬ Fits layout (jsonString.drop 12)) := by
  have h0 := isSome_iff_accepts (createMetadata_eq_ok h).1
  have hp := present_iff h
  have hv : ∀ version, magicBytes (m := Reader) (jsonString.drop 2) = .ok (version, jsonString.drop 12) →
      versionByte jsonString = .ok version := by
    intro version hm
    rw [versionByte, hm]
    rfl
  rw [DetectsVersion, detected_length_le_one_iff]
  constructor
  · rintro ⟨⟨-, hzero⟩, hbyte⟩ version hm
    refine ⟨fun layout hfit => ?_, fun hfill layout hfit => ?_⟩
    · have hpresent := (hp layout).2 ⟨⟨version, hm⟩, hfit⟩
      exact Except.ok.inj ((hbyte layout hpresent).symm.trans (hv version hm))
    · exact hzero (h0.2 hfill) layout ((hp layout).2 ⟨⟨version, hm⟩, hfit⟩)
  · intro hcond
    have hbyte : ∀ layout : Layout, present md layout →
        versionByte jsonString = .ok layout.number := by
      intro layout hpresent
      obtain ⟨⟨version, hm⟩, hfit⟩ := (hp layout).1 hpresent
      rw [hv version hm, (hcond version hm).1 layout hfit]
    refine ⟨⟨fun a b ha hb => ?_, fun hsome a ha => ?_⟩, hbyte⟩
    · apply number_injective
      exact Except.ok.inj ((hbyte a ha).symm.trans (hbyte b hb))
    · obtain ⟨⟨version, hm⟩, hfit⟩ := (hp a).1 ha
      exact (hcond version hm).2 (h0.1 hsome) a hfit

def singleModule : Str := lit "0x6d6574610704044101044100000000"

/-- A header with an empty module list: all four layouts fit. -/
def noModules : Str := lit "0x6d6574610400"

end Detection

end PolkadotApi.MetadataFactory
