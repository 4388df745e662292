import PolkadotApi.GappedSearch
import PolkadotApi.MissingNames

set_option autoImplicit false

namespace PolkadotApi.FunctionHashers
open StreamReader MachineModel MetadataFormats MetadataFactory MetadataLookup StorageKeys
open MethodSearch MissingNames GappedSearch

section Items

/-- The hasher texts of a module's items; version 4 has a number, taken as a character. -/
def hasherOf : (layout : Layout) → layout.Carrier → Slots Str
  | .v4, m, i => ((m.storage i).bind fun item => item.type.hasher).map fun hasher => [hasher]
  | .v5, m, i => (m.storage i).bind fun item => item.type.hasher
  | .v6, m, i => (m.storage i).bind fun item => item.type.hasher
  | .v7, m, i => (m.storage.bind fun c => c.items i).bind fun item => item.type.hasher

def moduleWith (layout : Layout) (md : MD layout.Carrier) (moduleName : Str) :
    Option layout.Carrier :=
  ((List.range COLLECTION_SIZE).find? fun k => (md.module k).map
    (fun m => lower (layout.moduleName m)) = some (lower moduleName)).bind md.module

def itemHasher (layout : Layout) (m : layout.Carrier) (funcName : Str) : Option Str :=
  ((List.range COLLECTION_SIZE).find? fun j =>
    (storageName layout m j).map lower = some (lower funcName)).bind (hasherOf layout m)

def hasherNamed (text : Str) : Hasher := if text = lit "Blake2_256" then .blake2 else .xxhash

def hasherFor (layout : Layout) (md : MD layout.Carrier) (moduleName funcName : Str) : Hasher :=
  match (moduleWith layout md moduleName).bind fun m => itemHasher layout m funcName with
  | some text => hasherNamed text
  | none => .xxhash

end Items

section Rounds

variable (layout : Layout) (md : MD layout.Carrier) (m : layout.Carrier) (funcName : Str)

def roundName (i : ℕ) : Option Str :=
  if (md.module i).isSome then storageName layout m i else some []

def SameName (funcName text : Str) : Prop := lower text = lower funcName

/-- No round or round 0 finds the name, and the hasher is to be the default; or a later
round finds it, at an item whose hasher text names the hasher. -/
def SearchAgrees (hasher : Hasher) : Prop :=
  (Passes (roundName layout md m) (SameName funcName) COLLECTION_SIZE ∨
      StopsAt (roundName layout md m) (SameName funcName) 0) ∧ hasher = .xxhash ∨
    ∃ c, 0 < c ∧ c < COLLECTION_SIZE ∧ StopsAt (roundName layout md m) (SameName funcName) c ∧
      ∃ text, hasherOf layout m c = some text ∧ hasherNamed text = hasher

end Rounds

section Lookup

variable {layout : Layout} {md : MD layout.Carrier} {m : layout.Carrier}
  {moduleName funcName : Str} {k : ℕ}

theorem lower_eq_nil_iff {s : Str} : lower s = [] ↔ s = [] := List.map_eq_nil_iff

theorem named_only_iff (layout : Layout) (md : MD layout.Carrier) (moduleName : Str) (k : ℕ) :
    Named (only layout md) (lower moduleName) k ↔ moduleName ≠ [] ∧
      (md.module k).map (fun m => lower (layout.moduleName m)) = some (lower moduleName) := by
  rw [Named, nameAt_only]
  cases md.module k with
  | none => simp
  | some m =>
    rw [Option.map_some, Option.getD_some, Option.map_some, Option.some.injEq]
    apply and_congr_left
    intro heq
    rw [not_iff_not, ← lower_eq_nil_iff, heq, lower_eq_nil_iff]

theorem moduleWith_of_first (hk : k < COLLECTION_SIZE)
    (h : IsFirst (only layout md) (lower moduleName) k) :
    moduleName ≠ [] ∧ ∃ m, md.module k = some m ∧ moduleWith layout md moduleName = some m := by
  obtain ⟨hnamed, hbefore⟩ := h
  obtain ⟨hne, hmatch⟩ := (named_only_iff layout md moduleName k).1 hnamed
  obtain ⟨m, hm, -⟩ := Option.map_eq_some_iff.1 hmatch
  refine ⟨hne, m, hm, ?_⟩
  have hfind : (List.range COLLECTION_SIZE).find? (fun k => (md.module k).map
      (fun m => lower (layout.moduleName m)) = some (lower moduleName)) = some k := by
    rw [List.find?_range_eq_some]
    refine ⟨by simpa using hmatch, List.mem_range.2 hk, ?_⟩
    intro j hj
    have hother := hbefore j hj
    rw [named_only_iff] at hother
    simpa [hne] using hother
  rw [moduleWith, hfind]
  exact hm

theorem moduleWith_of_none (h : ∀ k < COLLECTION_SIZE, ¬ Named (only layout md) (lower moduleName) k)
    (hne : moduleName ≠ []) : moduleWith layout md moduleName = none := by
  have hfind : (List.range COLLECTION_SIZE).find? (fun k => (md.module k).map
      (fun m => lower (layout.moduleName m)) = some (lower moduleName)) = none := by
    rw [List.find?_eq_none]
    intro k hk
    have hother := h k (List.mem_range.1 hk)
    rw [named_only_iff] at hother
    simpa [hne] using hother
  rw [moduleWith, hfind]
  rfl

theorem only_metadataV0 (layout : Layout) (md : MD layout.Carrier) :
    (only layout md).metadataV0 = none := by
  cases layout <;> rfl

theorem hasherText_only (hm : md.module k = some m) (c : ℤ) :
    hasherText (only layout md) k c = deref (hasherOf layout m c.toNat) := by
  have hat := moduleAt_of_some hm
  cases layout with
  | v4 =>
    simp only [hasherText, only, hat, except_ok_bind, hasherOf]
    cases m.storage c.toNat with
    | none => rfl
    | some item => cases hhasher : item.type.hasher <;> simp [deref, hhasher, except_ok_bind]
  | v5 => simp only [hasherText, only, hat, except_ok_bind, hasherOf, deref_bind]
  | v6 => simp only [hasherText, only, hat, except_ok_bind, hasherOf, deref_bind]
  | v7 =>
    simp only [hasherText, only, hat, except_ok_bind, hasherOf, deref_bind]
    rw [Option.bind_assoc]

theorem search_only (hm : md.module k = some m) :
    getStorageMethodIndex (only layout md) k funcName =
      methodIndexFrom (fun i => deref (roundName layout md m i)) (lower funcName)
        COLLECTION_SIZE 0 := by
  rw [getStorageMethodIndex]
  congr 1
  funext i
  rw [storageNameAt_only layout md hm, roundName]
  split_ifs <;> rfl

theorem search_passes (hm : md.module k = some m) {c : ℕ} (hc : c ≤ COLLECTION_SIZE)
    (h : Passes (roundName layout md m) (SameName funcName) c) :
    getStorageMethodIndex (only layout md) k funcName =
      methodIndexFrom (fun i => deref (roundName layout md m i)) (lower funcName)
        (COLLECTION_SIZE - c) c := by
  have hloop := h.loop (methodIndexFrom (fun i => deref (roundName layout md m i)) (lower funcName))
    (by
      intro rounds i text htext hne
      rw [methodIndexFrom, htext]
      exact if_neg (Ne.symm hne))
    (COLLECTION_SIZE - c)
  rw [Nat.add_sub_cancel' hc] at hloop
  rw [search_only hm, hloop]

theorem search_stops (hm : md.module k = some m) {c : ℕ} (hc : c < COLLECTION_SIZE)
    (h : StopsAt (roundName layout md m) (SameName funcName) c) :
    getStorageMethodIndex (only layout md) k funcName = .ok (c : ℤ) := by
  obtain ⟨hpass, text, htext, hmatch⟩ := h
  rw [search_passes hm hc.le hpass, ← Nat.succ_pred_eq_of_pos (Nat.sub_pos_of_lt hc)]
  apply methodIndexFrom_hit _ hmatch
  rw [htext]
  rfl

theorem search_gap (hm : md.module k = some m) {c : ℕ} (hc : c < COLLECTION_SIZE)
    (h : GapAt (roundName layout md m) (SameName funcName) c) :
    getStorageMethodIndex (only layout md) k funcName = .error .undefined := by
  rw [search_passes hm hc.le h.1, ← Nat.succ_pred_eq_of_pos (Nat.sub_pos_of_lt hc)]
  apply methodIndexFrom_null
  rw [h.2]
  rfl

theorem getFuncHasher_found (hm : md.module k = some m)
    (hindex : getModuleIndex (only layout md) moduleName false = .ok (k : ℤ)) :
    getFuncHasher (only layout md) moduleName funcName =
      (getStorageMethodIndex (only layout md) k funcName >>= fun c =>
        if 0 < c then (deref (hasherOf layout m c.toNat)).map hasherNamed else .ok .xxhash) := by
  rw [getFuncHasher, only_metadataV0, if_neg (by simp), hindex, except_ok_bind,
    if_pos (Int.natCast_nonneg k)]
  apply bind_congr
  intro c
  rw [hasherText_only hm]
  split_ifs
  · cases deref (hasherOf layout m c.toNat) <;> rfl
  · rfl

theorem getFuncHasher_missing
    (hindex : getModuleIndex (only layout md) moduleName false = .ok (-1)) :
    getFuncHasher (only layout md) moduleName funcName = .ok .xxhash := by
  rw [getFuncHasher, only_metadataV0, if_neg (by simp), hindex]
  rfl

theorem getFuncHasher_found_iff (hm : md.module k = some m)
    (hindex : getModuleIndex (only layout md) moduleName false = .ok (k : ℤ)) (hasher : Hasher) :
    getFuncHasher (only layout md) moduleName funcName = .ok hasher ↔
      SearchAgrees layout md m funcName hasher := by
  rw [getFuncHasher_found hm hindex, SearchAgrees]
  rcases search_cases (roundName layout md m) (SameName funcName) COLLECTION_SIZE with
    hpass | ⟨c, hc, hstop⟩ | ⟨c, hc, hgap⟩
  · rw [search_passes hm le_rfl hpass]
    change Except.ok _ = _ ↔ _
    rw [Except.ok.injEq]
    constructor
    · intro h
      exact Or.inl ⟨Or.inl hpass, h.symm⟩
    · rintro (⟨-, h⟩ | ⟨c, -, hc, hstop, -⟩)
      · exact h.symm
      · exact absurd hstop (hpass.not_stops hc)
  · rw [search_stops hm hc hstop, except_ok_bind]
    rcases Nat.eq_zero_or_pos c with rfl | hpos
    · rw [if_neg (by simp), Except.ok.injEq]
      constructor
      · intro h
        exact Or.inl ⟨Or.inr hstop, h.symm⟩
      · rintro (⟨-, h⟩ | ⟨d, hd, -, hother, -⟩)
        · exact h.symm
        · exact absurd (hstop.unique hother) (by omega)
    · rw [if_pos (by omega), Int.toNat_natCast]
      constructor
      · intro h
        obtain ⟨text, htext, hnamed⟩ := except_map_eq_ok h
        exact Or.inr ⟨c, hpos, hc, hstop, text, deref_eq_ok htext, hnamed⟩
      · rintro (⟨hpass | hzero, -⟩ | ⟨d, -, -, hother, text, htext, hnamed⟩)
        · exact absurd hstop (hpass.not_stops hc)
        · exact absurd (hstop.unique hzero) (by omega)
        · rw [hstop.unique hother, htext, ← hnamed]
          rfl
  · rw [search_gap hm hc hgap]
    apply iff_of_false
    · intro h
      cases h
    · rintro (⟨hpass | hzero, -⟩ | ⟨d, -, -, hstop, -⟩)
      · exact hpass.not_gap hc hgap
      · exact hgap.not_stops 0 hzero
      · exact hgap.not_stops d hstop

end Lookup

/-- The hasher is that of the first item of the first module with the names exactly if
the search in this module agrees with it; a module without a name is not found. -/
theorem func_hasher_iff (layout : Layout) (md : MD layout.Carrier) (moduleName funcName : Str) :
    getFuncHasher (only layout md) moduleName funcName =
        .ok (hasherFor layout md moduleName funcName) ↔
      ∀ m, moduleWith layout md moduleName = some m →
        if moduleName = [] then hasherFor layout md moduleName funcName = .xxhash
        else SearchAgrees layout md m funcName (hasherFor layout md moduleName funcName) := by
  obtain ⟨index, hindex⟩ :=
    (getModuleIndex_ok_iff moduleName false).2 (scans_only layout md (lower moduleName))
  rcases getModuleIndex_value hindex with ⟨k, hk, rfl, hfirst⟩ | ⟨rfl, hnone⟩
  · obtain ⟨hne, m, hm, hwith⟩ := moduleWith_of_first hk hfirst
    rw [getFuncHasher_found_iff hm hindex]
    constructor
    · intro h other hother
      cases hwith.symm.trans hother
      rwa [if_neg hne]
    · intro h
      have hagrees := h m hwith
      rwa [if_neg hne] at hagrees
  · rw [getFuncHasher_missing hindex, Except.ok.injEq]
    by_cases hempty : moduleName = []
    · constructor
      · intro h m _
        rw [if_pos hempty]
        exact h.symm
      · intro h
        cases hwith : moduleWith layout md moduleName with
        | none => rw [hasherFor, hwith]; rfl
        | some m =>
          have hdefault := h m hwith
          rw [if_pos hempty] at hdefault
          exact hdefault.symm
    · have hwith := moduleWith_of_none hnone hempty
      apply iff_of_true
      · rw [hasherFor, hwith]
        rfl
      · intro m hm
        cases hwith.symm.trans hm

section Samples

def firstBlake : MDV7 := ⟨Slots.ofList [{
  name := lit "A"
  storage := some ⟨lit "A", Slots.ofList [{
    name := some (lit "b"), type := { hasher := some (lit "Blake2_256") } }]⟩
  call := Slots.empty
  ev := Slots.empty
  cons := Slots.empty }]⟩

def twoItems : Str :=
  ["6d65746107", "08", "0441", "01", "0441", "08", "0461", "0000", "0c753634", "0000", "0462",
    "0000", "0c753634", "0000", "00", "00", "00", "0442", "00", "00", "00", "00"].flatMap lit

/-- The first item's hasher is not used; the hasher of a later item is read, but no
parser of the versions 5 to 7 has written it. -/
theorem func_hasher_fails :
    (¬ ∀ (layout : Layout) (md : MD layout.Carrier) (moduleName funcName : Str),
      getFuncHasher (only layout md) moduleName funcName =
        .ok (hasherFor layout md moduleName funcName)) ∧
    ¬ ∀ (layout : Layout) (blob : Str) (md : MD layout.Carrier),
      fillMetadata layout.body blob = .ok md → ∀ moduleName funcName,
        getFuncHasher (only layout md) moduleName funcName =
          .ok (hasherFor layout md moduleName funcName) := by
  constructor
  · intro hall
    have h := hall .v7 firstBlake (lit "A") (lit "b")
    have hused : getFuncHasher (only .v7 firstBlake) (lit "A") (lit "b") = .ok .xxhash := by
      decide +kernel
    have hgiven : hasherFor .v7 firstBlake (lit "A") (lit "b") = .blake2 := by decide +kernel
    rw [hused, hgiven] at h
    cases h
  · intro hall
    have hread : (fillMetadata Layout.v7.body twoItems).map
        (fun md => getFuncHasher (only .v7 md) (lit "A") (lit "b")) = .ok (.error .undefined) := by
      decide +kernel
    obtain ⟨md, hmd, hundefined⟩ := except_map_eq_ok hread
    have h := hall .v7 twoItems md hmd (lit "A") (lit "b")
    rw [hundefined] at h
    cases h

end Samples

end PolkadotApi.FunctionHashers
