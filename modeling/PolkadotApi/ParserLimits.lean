import PolkadotApi.ParserLayouts
import PolkadotApi.ParserRounds

set_option autoImplicit false

namespace PolkadotApi.ParserLimits
open StreamReader MachineModel StreamPrograms Program ParserPrograms
open BlobLayouts LayoutRules ParserLayouts ParserRounds
open MetadataFormats (MD ModuleV4 ModuleV5 ModuleV6 ModuleV7 MDV0 metadata metadataV0 fillV0Metadata
  fillV4Metadata fillV5Metadata fillV6Metadata fillV7Metadata)

/-- The five parsers that are run on every blob. -/
inductive Version where
  | v0
  | v4
  | v5
  | v6
  | v7
  deriving DecidableEq

namespace Version

abbrev Metadata : Version → Type
  | v0 => MDV0
  | v4 => MD ModuleV4
  | v5 => MD ModuleV5
  | v6 => MD ModuleV6
  | v7 => MD ModuleV7

def fill : (version : Version) → Str → Result version.Metadata
  | v0 => fillV0Metadata
  | v4 => fillV4Metadata
  | v5 => fillV5Metadata
  | v6 => fillV6Metadata
  | v7 => fillV7Metadata

def program : (version : Version) → Parser version.Metadata
  | v0 => metadataV0
  | v4 => metadata MetadataFormats.moduleV4
  | v5 => metadata MetadataFormats.moduleV5
  | v6 => metadata MetadataFormats.moduleV6
  | v7 => metadata MetadataFormats.moduleV7

def trace (version : Version) (s : Str) : Trace UInt8 Exception version.Metadata :=
  version.program.exec .outOfRange Access.fits s

def layout : Version → Shape
  | v0 => blobV0
  | v4 => blob (moduleWith storageV4)
  | v5 => blob (moduleWith storage)
  | v6 => blob moduleV6
  | v7 => blob moduleV7

/-- No list of the blob has more items than its array, and no text that is copied has
256 or more bytes in front of a NUL. -/
def FitsArrays (version : Version) (s : Str) : Prop :=
  ∀ size ∈ (version.layout.measure s).sizes, size.fits

instance (version : Version) (s : Str) : Decidable (version.FitsArrays s) :=
  inferInstanceAs (Decidable (∀ size ∈ (version.layout.measure s).sizes, size.fits))

theorem read_program (version : Version) (s : Str) :
    version.fill s = (read version.program s).map Prod.fst := by
  cases version with
  | v0 =>
    rw [program, read_metadataV0]
    rfl
  | v4 =>
    rw [program, read_metadata, read_moduleV4]
    rfl
  | v5 =>
    rw [program, read_metadata, read_moduleV5]
    rfl
  | v6 =>
    rw [program, read_metadata, read_moduleV6]
    rfl
  | v7 =>
    rw [program, read_metadata, read_moduleV7]
    rfl

theorem describes_program (version : Version) : Describes version.layout version.program := by
  cases version with
  | v0 => exact describes_metadataV0
  | v4 => exact describes_metadata (describes_getModule describes_getStorageV4 _)
  | v5 => exact describes_metadata (describes_getModule describes_getStorage _)
  | v6 => exact describes_metadata describes_moduleV6
  | v7 => exact describes_metadata describes_moduleV7

theorem earns_program (version : Version) : Earns 2 version.program := by
  cases version with
  | v0 => exact earns_metadataV0
  | v4 => exact earns_metadata (earns_getModule earns_getStorageV4 _)
  | v5 => exact earns_metadata (earns_getModule earns_getStorage _)
  | v6 => exact earns_metadata earns_moduleV6
  | v7 => exact earns_metadata earns_moduleV7

theorem fill_eq_trace (version : Version) (s : Str) :
    version.fill s = ((version.trace s).ending.toExcept .thrown).map Prod.fst :=
  version.read_program s

theorem inside_iff_fitsArrays (version : Version) (s : Str) :
    (∀ a ∈ (version.trace s).accesses, a.index < a.size) ↔ version.FitsArrays s := by
  have h := allowed_iff_unlimited .outOfRange Access.fits version.program s
  simp only [Access.fits, decide_eq_true_eq] at h
  exact h.trans (version.describes_program s).inside_iff

/-- The run ends in a result or an exception exactly when it stays inside its
arrays. -/
theorem returns_or_throws_iff (version : Version) (s : Str) :
    ((∃ md, version.fill s = .ok md) ∨ ∃ e, version.fill s = throwing e) ↔
      version.FitsArrays s := by
  have hinside := not_outside_iff .outOfRange Access.fits version.program s
  simp only [Access.fits, decide_eq_true_eq] at hinside
  rw [← inside_iff_fitsArrays, fill_eq_trace]
  change _ ↔ ∀ a ∈ (version.program.exec .outOfRange Access.fits s).accesses, _
  rw [← hinside]
  change _ ↔ (version.trace s).ending ≠ .outside
  cases (version.trace s).ending with
  | returned md t => simp [Ending.toExcept, Except.map]
  | threw e => simp [Ending.toExcept, Except.map, throwing]
  | outside => simp [Ending.toExcept, Except.map, throwing]

theorem not_fitsArrays_of_undefined {version : Version} {s : Str}
    (h : (version.fill s).map (fun _ => ()) = .error .undefined) : ¬ version.FitsArrays s := by
  rw [← returns_or_throws_iff]
  rintro (⟨md, hmd⟩ | ⟨e, he⟩)
  · rw [hmd] at h
    cases h
  · rw [he] at h
    cases h

end Version

/-- Every store of a parser is inside its array and every text shorter than its
member exactly when the blob fits the arrays. -/
theorem stores_inside_iff (version : Version) (s : Str) :
    version.fill s = ((version.trace s).ending.toExcept .thrown).map Prod.fst ∧
      ((∀ a ∈ (version.trace s).accesses, a.index < a.size) ↔ version.FitsArrays s) :=
  ⟨version.fill_eq_trace s, version.inside_iff_fitsArrays s⟩

def longName : Str := lit "6d65746107040104" ++ (List.replicate 256 (lit "61")).flatten

/-- The name and its NUL do not fit into the member. -/
theorem stores_inside_fails :
    ¬ ∀ (version : Version) (s : Str), ∀ a ∈ (version.trace s).accesses, a.index < a.size := by
  intro hall
  have hundefined : (Version.v7.fill longName).map (fun _ => ()) = .error .undefined := by
    decide +kernel
  exact Version.not_fitsArrays_of_undefined hundefined
    ((Version.inside_iff_fitsArrays .v7 longName).1 (hall .v7 longName))

example : (Version.v7.layout.measure longName).sizes = [.list 64 1, .text 256] := by decide +kernel

/-- The unread stream is always a suffix of the input and the loops make at most one
round for each byte; the run ends in a result or an exception exactly when the blob
fits the arrays. -/
theorem bounded_run_iff (version : Version) (s : Str) :
    version.fill s = ((version.trace s).ending.toExcept .thrown).map Prod.fst ∧
      (∀ t ∈ (version.trace s).visited, t <:+ s) ∧ 2 * (version.trace s).rounds ≤ s.length ∧
      (((∃ md, version.fill s = .ok md) ∨ ∃ e, version.fill s = throwing e) ↔
        version.FitsArrays s) :=
  ⟨version.fill_eq_trace s, visited_suffix _ _ _ s, version.earns_program.rounds_le _ _ s,
    version.returns_or_throws_iff s⟩

def manyModules : Str := lit "6d657461040501" ++ (List.replicate 65 (lit "0000000000")).flatten

theorem bounded_run_fails :
    ¬ ∀ (version : Version) (s : Str),
      (∃ md, version.fill s = .ok md) ∨ ∃ e, version.fill s = throwing e := by
  intro hall
  have hundefined : (Version.v4.fill manyModules).map (fun _ => ()) = .error .undefined := by
    decide +kernel
  exact Version.not_fitsArrays_of_undefined hundefined
    ((Version.returns_or_throws_iff .v4 manyModules).1 (hall .v4 manyModules))

end PolkadotApi.ParserLimits
