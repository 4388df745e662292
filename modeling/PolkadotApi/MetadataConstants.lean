import PolkadotApi.EpochMode
import PolkadotApi.FunctionHashers
import PolkadotApi.HexValues
import PolkadotApi.MappedKeys

set_option autoImplicit false

namespace PolkadotApi.MetadataConstants
open StatefulActions StreamReader MachineModel Converters HexValues MetadataFormats MetadataFactory
open MetadataLookup StorageKeys Subscriptions Connection GappedSearch MissingNames FunctionHashers
open ExtrinsicFaults MappedKeys EpochMode ObjectRuns

section Values

variable {w : ℕ}

def constBytes (c : Const) : List UInt8 := hexBytes (c.value.drop (hexStart c.value))

/-- The byte that does not fit any more is shifted by the width or more. -/
theorem joinLittle_overflow (bytes : List UInt8) {byteOffset result : ℕ} (hstart : byteOffset < w + 8)
    (hlong : w + 8 ≤ byteOffset + 8 * bytes.length) :
    joinLittle w bytes byteOffset result = .error .undefined := by
  induction bytes generalizing byteOffset result with
  | nil =>
    rw [List.length_nil] at hlong
    omega
  | cons b bytes ih =>
    rw [List.length_cons] at hlong
    rw [joinLittle]
    split_ifs with hfits
    · exact ih (by omega) (by omega)
    · rfl

theorem littleEndian_lt (bytes : List UInt8) : littleEndian bytes < 256 ^ bytes.length := by
  have h := Nat.ofDigits_lt_base_pow_length (b := 256) (l := bytes.map UInt8.toNat) (by norm_num)
    (by
      intro x hx
      obtain ⟨b, -, rfl⟩ := List.mem_map.1 hx
      exact b.toNat_lt)
  rwa [List.length_map] at h

theorem asLong_eq_iff {n : ℕ} (hn : n < 2 ^ 64) : asLong n = n ↔ n < 2 ^ 63 := by
  constructor
  · intro h
    by_contra hlarge
    unfold asLong at h
    simp only at h
    rw [if_neg (by omega)] at h
    omega
  · exact asLong_of_small

/-- A value text of a structure is converted exactly if it has at most eight bytes. -/
theorem fromHex_const {c : Const} (htext : c.value.length < STRING_SIZE) :
    fromHex 64 c.value false =
      if (constBytes c).length ≤ 8 then .ok (littleEndian (constBytes c)) else .error .undefined := by
  have hbytes : bytesUp c.value (pairsBelow c.value) = .ok (constBytes c) :=
    bytesUp_short (htext.trans (by decide)) le_rfl
  split_ifs with hroom
  · exact (fromHex_of_bytes hbytes (by omega)).2
  · rw [fromHex, hbytes, except_ok_bind, if_neg (by decide),
      joinLittle_overflow _ (by omega) (by omega)]

end Values

section Scan

variable {cons : Slots Const} {constName : Str} {j : ℕ} {c : Const}

def HasName (constName : Str) (c : Const) : Prop := c.name = cstr constName

/-- All slots hold other constants, or the first one with the name, for which `Q` holds,
comes before the first slot that is not filled. -/
def ReadsConst (cons : Slots Const) (constName : Str) (Q : Const → Prop) : Prop :=
  Passes cons (HasName constName) COLLECTION_SIZE ∨
    ∃ j < COLLECTION_SIZE, ∃ c, cons j = some c ∧ StopsAt cons (HasName constName) j ∧ Q c

def firstConst (cons : Slots Const) (constName : Str) : Option Const :=
  ((List.range COLLECTION_SIZE).find? fun i =>
    (cons i).map Const.name = some (cstr constName)).bind cons

theorem constFrom_passes (h : Passes cons (HasName constName) j) (hj : j ≤ COLLECTION_SIZE) :
    constFrom cons constName COLLECTION_SIZE 0 =
      constFrom cons constName (COLLECTION_SIZE - j) j := by
  have hloop := h.loop (constFrom cons constName)
    (by
      intro rounds i c hc hne
      rw [constFrom, hc]
      exact if_neg hne)
    (COLLECTION_SIZE - j)
  rwa [Nat.add_sub_cancel' hj] at hloop

theorem constFrom_none (h : Passes cons (HasName constName) COLLECTION_SIZE) :
    constFrom cons constName COLLECTION_SIZE 0 = .ok (-1) := constFrom_passes h le_rfl

theorem constFrom_stops (hj : j < COLLECTION_SIZE) (hc : cons j = some c)
    (h : StopsAt cons (HasName constName) j) :
    constFrom cons constName COLLECTION_SIZE 0 = (fromHex 64 c.value false).map asLong := by
  obtain ⟨hpass, d, hd, hname⟩ := h
  obtain rfl : c = d := Option.some.inj (hc.symm.trans hd)
  have hround : constFrom cons constName (COLLECTION_SIZE - j - 1 + 1) j =
      (fromHex 64 c.value false).map asLong := by
    rw [constFrom, hc]
    change (if c.name = cstr constName then _ else _) = _
    rw [if_pos (show c.name = cstr constName from hname)]
    cases fromHex 64 c.value false <;> rfl
  rw [constFrom_passes hpass hj.le, ← hround]
  congr 1
  omega

theorem constFrom_gap (hj : j < COLLECTION_SIZE) (h : GapAt cons (HasName constName) j) :
    constFrom cons constName COLLECTION_SIZE 0 = .error .undefined := by
  have hround : constFrom cons constName (COLLECTION_SIZE - j - 1 + 1) j = .error .undefined := by
    rw [constFrom, h.2]
    rfl
  rw [constFrom_passes h.1 hj.le, ← hround]
  congr 1
  omega

theorem firstConst_none (h : Passes cons (HasName constName) COLLECTION_SIZE) :
    firstConst cons constName = none := by
  have hfind : (List.range COLLECTION_SIZE).find? (fun i =>
      (cons i).map Const.name = some (cstr constName)) = none := by
    rw [List.find?_eq_none]
    intro i hi
    obtain ⟨c, hc, hne⟩ := h i (List.mem_range.1 hi)
    simpa [hc, HasName] using hne
  rw [firstConst, hfind]
  rfl

theorem firstConst_stops (hj : j < COLLECTION_SIZE) (hc : cons j = some c)
    (h : StopsAt cons (HasName constName) j) : firstConst cons constName = some c := by
  obtain ⟨hpass, d, hd, hname⟩ := h
  obtain rfl : c = d := Option.some.inj (hc.symm.trans hd)
  have hfind : (List.range COLLECTION_SIZE).find? (fun i =>
      (cons i).map Const.name = some (cstr constName)) = some j := by
    rw [List.find?_range_eq_some]
    refine ⟨?_, List.mem_range.2 hj, ?_⟩
    · rw [hc]
      exact decide_eq_true (congrArg some hname)
    · intro i hi
      obtain ⟨d, hd, hne⟩ := hpass i hi
      simpa [hd, HasName] using hne
  rw [firstConst, hfind]
  exact hc

theorem constFrom_iff {R : Result ℤ → Prop} {Q : Const → Prop} (hundefined : ¬ R (.error .undefined))
    (hnone : firstConst cons constName = none → R (.ok (-1)))
    (hsome : ∀ c, firstConst cons constName = some c →
      (R ((fromHex 64 c.value false).map asLong) ↔ Q c)) :
    R (constFrom cons constName COLLECTION_SIZE 0) ↔ ReadsConst cons constName Q := by
  rcases search_cases cons (HasName constName) COLLECTION_SIZE with
    hpass | ⟨j, hj, hstop⟩ | ⟨j, hj, hgap⟩
  · rw [constFrom_none hpass]
    exact iff_of_true (hnone (firstConst_none hpass)) (Or.inl hpass)
  · obtain ⟨c, hc, -⟩ := hstop.2
    rw [constFrom_stops hj hc hstop, hsome c (firstConst_stops hj hc hstop)]
    constructor
    · intro h
      exact Or.inr ⟨j, hj, c, hc, hstop, h⟩
    · rintro (hpass | ⟨i, hi, d, hd, hother, h⟩)
      · exact absurd hstop (hpass.not_stops hj)
      · rw [← hstop.unique hother, hc] at hd
        cases hd
        exact h
  · rw [constFrom_gap hj hgap]
    apply iff_of_false hundefined
    rintro (hpass | ⟨i, hi, d, hd, hother, h⟩)
    · exact hpass.not_gap hj hgap
    · exact hgap.not_stops i hother

end Scan

section Lookup

inductive Present where
  | v0 (md : MDV0)
  | later (layout : Layout) (md : MD layout.Carrier)

def Present.metadata : Present → Metadata
  | .v0 md => { metadataV0 := some md }
  | .later layout md => only layout md

/-- The constants of a module; versions 4 and 5 have none. -/
def constants : (layout : Layout) → layout.Carrier → Slots Const
  | .v4, _ => Slots.empty
  | .v5, _ => Slots.empty
  | .v6, m => m.cons
  | .v7, m => m.cons

def Present.const : Present → Str → Str → Option Const
  | .v0 _, _, _ => none
  | .later layout md, moduleName, constName =>
    (moduleWith layout md moduleName).bind fun m => firstConst (constants layout m) constName

def valueOf : Option Const → ℤ
  | some c => littleEndian (constBytes c)
  | none => -1

/-- Version 7 is present and has the module, and the scan reads a value of at most
eight bytes that is no negative `long long`, or no constant. -/
def ConstRight (p : Present) (moduleName constName : Str) : Prop :=
  ∃ md m, p = .later .v7 md ∧ moduleName ≠ [] ∧ moduleWith .v7 md moduleName = some m ∧
    ReadsConst m.cons constName fun c =>
      (constBytes c).length ≤ 8 ∧ littleEndian (constBytes c) < 2 ^ 63

/-- Each module that the search for the name looks at can be asked for its methods,
there is such a module, and version 7 has one at this index whose scan ends. -/
def ConstDefined (md : Metadata) (moduleName constName : Str) : Prop :=
  Scans md (lower moduleName) ∧
    ∃ k < COLLECTION_SIZE, IsFirst md (lower moduleName) k ∧
      ∃ m x, md.metadataV7 = some m ∧ m.module k = some x ∧
        ReadsConst x.cons constName fun c => ∃ word, fromHex 64 c.value false = .ok word

variable {md : Metadata} {moduleName constName : Str}

theorem getMetadataConst_found {k : ℕ} {m : MDV7} {x : ModuleV7}
    (hindex : getModuleIndex md moduleName false = .ok (k : ℤ)) (hm : md.metadataV7 = some m)
    (hx : m.module k = some x) :
    getMetadataConst md moduleName constName = constFrom x.cons constName COLLECTION_SIZE 0 := by
  rw [getMetadataConst, hindex, hm, except_ok_bind]
  change moduleAt m.module k >>= _ = _
  rw [moduleAt_of_some hx]
  rfl

theorem getMetadataConst_eq_ok {v : ℤ} (h : getMetadataConst md moduleName constName = .ok v) :
    ∃ k < COLLECTION_SIZE, getModuleIndex md moduleName false = .ok (k : ℤ) ∧
      IsFirst md (lower moduleName) k ∧ ∃ m x, md.metadataV7 = some m ∧ m.module k = some x := by
  obtain ⟨index, hindex, h⟩ := except_bind_eq_ok h
  obtain ⟨m, hm, h⟩ := except_bind_eq_ok h
  obtain ⟨x, hx, -⟩ := except_bind_eq_ok h
  rcases getModuleIndex_value hindex with ⟨k, hk, rfl, hfirst⟩ | ⟨rfl, -⟩
  · rw [moduleAt, if_pos (by omega), Int.toNat_natCast] at hx
    exact ⟨k, hk, hindex, hfirst, m, x, deref_eq_ok hm, deref_eq_ok hx⟩
  · cases hx

/-- The value of a constant is defined exactly for the lookups that end. -/
theorem getMetadataConst_defined_iff :
    (∃ v, getMetadataConst md moduleName constName = .ok v) ↔
      ConstDefined md moduleName constName := by
  have hscan : ∀ cons : Slots Const,
      (∃ v, constFrom cons constName COLLECTION_SIZE 0 = .ok v) ↔
        ReadsConst cons constName fun c => ∃ word, fromHex 64 c.value false = .ok word := by
    intro cons
    apply constFrom_iff (R := fun r => ∃ v, r = .ok v)
    · rintro ⟨v, h⟩
      cases h
    · intro _
      exact ⟨-1, rfl⟩
    · intro c _
      cases fromHex 64 c.value false <;> simp [Except.map]
  constructor
  · rintro ⟨v, h⟩
    obtain ⟨k, hk, hindex, hfirst, m, x, hm, hx⟩ := getMetadataConst_eq_ok h
    rw [getMetadataConst_found hindex hm hx] at h
    exact ⟨(getModuleIndex_ok_iff moduleName false).1 ⟨_, hindex⟩, k, hk, hfirst, m, x, hm, hx,
      (hscan x.cons).1 ⟨v, h⟩⟩
  · rintro ⟨hscans, k, hk, hfirst, m, x, hm, hx, hreads⟩
    obtain ⟨index, hindex⟩ := (getModuleIndex_ok_iff moduleName false).2 hscans
    obtain rfl : index = k := by
      rcases getModuleIndex_value hindex with ⟨l, -, rfl, hfirst'⟩ | ⟨-, hnone⟩
      · rw [hfirst.unique hfirst']
      · exact absurd hfirst.1 (hnone k hk)
    rw [getMetadataConst_found hindex hm hx]
    exact (hscan x.cons).2 hreads

/-- The converted value is the constant's exactly if it fits a `long long`. -/
theorem convert_const_iff {c : Const} (htext : c.value.length < STRING_SIZE) :
    (fromHex 64 c.value false).map asLong = .ok (littleEndian (constBytes c) : ℤ) ↔
      (constBytes c).length ≤ 8 ∧ littleEndian (constBytes c) < 2 ^ 63 := by
  rw [fromHex_const htext]
  split_ifs with hroom
  · have hword : littleEndian (constBytes c) < 2 ^ 64 := by
      calc littleEndian (constBytes c) < 256 ^ (constBytes c).length := littleEndian_lt _
        _ ≤ 256 ^ 8 := Nat.pow_le_pow_right (by norm_num) hroom
        _ = 2 ^ 64 := by norm_num
    change Except.ok (asLong _) = _ ↔ _
    rw [Except.ok.injEq, asLong_eq_iff hword]
    exact (and_iff_right hroom).symm
  · apply iff_of_false
    · intro h
      cases h
    · exact fun h => hroom h.1

theorem constFrom_right_iff {cons : Slots Const}
    (htext : ∀ c, firstConst cons constName = some c → c.value.length < STRING_SIZE) :
    constFrom cons constName COLLECTION_SIZE 0 = .ok (valueOf (firstConst cons constName)) ↔
      ReadsConst cons constName fun c =>
        (constBytes c).length ≤ 8 ∧ littleEndian (constBytes c) < 2 ^ 63 := by
  apply constFrom_iff (R := fun r => r = .ok (valueOf (firstConst cons constName)))
  · intro h
    cases h
  · intro hnone
    rw [hnone]
    rfl
  · intro c hc
    rw [hc]
    exact convert_const_iff (htext c hc)

theorem index_of_moduleWith {layout : Layout} {md : MD layout.Carrier} {m : layout.Carrier}
    (hne : moduleName ≠ []) (hwith : moduleWith layout md moduleName = some m) :
    ∃ k : ℕ, getModuleIndex (only layout md) moduleName false = .ok (k : ℤ) ∧
      md.module k = some m := by
  obtain ⟨index, hindex⟩ :=
    (getModuleIndex_ok_iff moduleName false).2 (scans_only layout md (lower moduleName))
  rcases getModuleIndex_value hindex with ⟨k, hk, rfl, hfirst⟩ | ⟨-, hnone⟩
  · obtain ⟨-, n, hn, hwith'⟩ := moduleWith_of_first hk hfirst
    cases hwith.symm.trans hwith'
    exact ⟨k, hindex, hn⟩
  · cases hwith.symm.trans (moduleWith_of_none hnone hne)

theorem getMetadataConst_right_iff (p : Present)
    (htext : ∀ c, p.const moduleName constName = some c → c.value.length < STRING_SIZE) :
    getMetadataConst p.metadata moduleName constName =
        .ok (valueOf (p.const moduleName constName)) ↔ ConstRight p moduleName constName := by
  constructor
  · intro h
    obtain ⟨k, hk, hindex, hfirst, m, x, hm, hx⟩ := getMetadataConst_eq_ok h
    obtain ⟨md, rfl⟩ : ∃ md, p = .later .v7 md := by
      cases p with
      | v0 md => cases hm
      | later layout md =>
        cases layout with
        | v7 => exact ⟨md, rfl⟩
        | v4 => cases hm
        | v5 => cases hm
        | v6 => cases hm
    obtain rfl : md = m := Option.some.inj hm
    obtain ⟨hne, n, hn, hwith⟩ := moduleWith_of_first hk hfirst
    obtain rfl : n = x := Option.some.inj (hn.symm.trans hx)
    have hconst : (Present.later .v7 md).const moduleName constName = firstConst n.cons constName := by
      rw [Present.const, hwith]
      rfl
    rw [hconst] at htext h
    rw [getMetadataConst_found hindex hm hx] at h
    exact ⟨md, n, rfl, hne, hwith, (constFrom_right_iff htext).1 h⟩
  · rintro ⟨md, m, rfl, hne, hwith, hreads⟩
    obtain ⟨k, hindex, hk⟩ := index_of_moduleWith hne hwith
    have hconst : (Present.later .v7 md).const moduleName constName = firstConst m.cons constName := by
      rw [Present.const, hwith]
      rfl
    rw [hconst] at htext ⊢
    have hfound : getMetadataConst (Present.later .v7 md).metadata moduleName constName =
        constFrom m.cons constName COLLECTION_SIZE 0 := getMetadataConst_found hindex rfl hk
    rw [hfound]
    exact (constFrom_right_iff htext).2 hreads

end Lookup

section Connecting

variable {lib : Libraries} {md : Metadata} {hasher : Hasher} {w : World}

def Defined {α : Type} (r : Result α) : Prop := ∃ a, r = .ok a

/-- The action returns, or an exception that `connect` catches ends it. -/
def ComesThrough {α : Type} (x : Action α) (w : World) : Prop :=
  (∃ a t, x.run w = .ok a t) ∨ ∃ text t, x.run w = .error (.thrown (.application text)) t

/-- A Babe key cannot be computed and says so, before anything is undefined; or the three
keys are computed and both constants are defined. -/
def BabeSettled (lib : Libraries) (md : Metadata) (hasher : Hasher) : Prop :=
  Rejected (babeKey lib md hasher "GenesisSlot") ∨ Defined (babeKey lib md hasher "GenesisSlot") ∧
    (Rejected (babeKey lib md hasher "CurrentSlot") ∨
      Defined (babeKey lib md hasher "CurrentSlot") ∧
        (Rejected (babeKey lib md hasher "EpochIndex") ∨
          Defined (babeKey lib md hasher "EpochIndex") ∧
            ConstDefined md (lit "Staking") (lit "SessionsPerEra") ∧
            ConstDefined md (lit "Babe") (lit "EpochDuration")))

theorem comesThrough_lift {α : Type} {r : Result α} {next : α → Action Unit} {p : Prop}
    (hnext : ∀ a w, ComesThrough (next a) w ↔ p) (w : World) :
    ComesThrough (liftResult r >>= next) w ↔ Rejected r ∨ Defined r ∧ p := by
  cases r with
  | ok a =>
    have hrejected : ¬ Rejected (.ok a : Result α) := by
      rintro ⟨text, h⟩
      cases h
    rw [or_iff_right hrejected, and_iff_right ⟨a, rfl⟩]
    exact hnext a w
  | error fault =>
    have hdefined : ¬ Defined (.error fault : Result α) := by
      rintro ⟨a, h⟩
      cases h
    rw [or_iff_left fun h => hdefined h.1]
    cases fault with
    | thrown e =>
      constructor
      · rintro (⟨a, t, h⟩ | ⟨text, t, h⟩)
        · cases h
        · cases h
          exact ⟨text, rfl⟩
      · rintro ⟨text, h⟩
        cases h
        exact Or.inr ⟨text, w, rfl⟩
    | undefined =>
      apply iff_of_false
      · rintro (⟨a, t, h⟩ | ⟨text, t, h⟩)
        · cases h
        · cases h
      · rintro ⟨text, h⟩
        cases h

theorem not_throws_joinLittle (width : ℕ) (bytes : List UInt8) (byteOffset result : ℕ) :
    ¬ Throws (joinLittle width bytes byteOffset result) := by
  induction bytes generalizing byteOffset result with
  | nil => exact not_throws_ok result
  | cons b bytes ih =>
    rw [joinLittle]
    split_ifs
    · exact ih _ _
    · exact not_throws_undefined

theorem not_throws_constFrom (cons : Slots Const) (constName : Str) (rounds i : ℕ) :
    ¬ Throws (constFrom cons constName rounds i) := by
  induction rounds generalizing i with
  | zero => exact not_throws_ok (-1)
  | succ rounds ih =>
    apply not_throws_bind (not_throws_deref _)
    intro c
    split_ifs
    · apply not_throws_bind
      · apply not_throws_bind
        · rw [bytesUp]
          split_ifs
          · exact not_throws_undefined
          · exact not_throws_ok _
        · intro bytes
          exact not_throws_joinLittle 64 bytes 0 0
      · intro word
        exact not_throws_ok _
    · exact ih (i + 1)

theorem const_not_rejected (md : Metadata) (moduleName constName : Str) :
    ¬ Rejected (getMetadataConst md moduleName constName) := by
  have hthrows : ¬ Throws (getMetadataConst md moduleName constName) := by
    apply not_throws_bind (not_throws_moduleIndexFrom _ _ _ _ _ _)
    intro index
    apply not_throws_bind (not_throws_deref _)
    intro m
    apply not_throws_bind (not_throws_moduleAt _ _)
    intro x
    exact not_throws_constFrom _ _ _ _
  rintro ⟨text, h⟩
  exact hthrows ⟨_, h⟩

theorem comesThrough_const {moduleName constName : Str} {next : ℤ → Action Unit} {p : Prop}
    (hnext : ∀ a w, ComesThrough (next a) w ↔ p) (w : World) :
    ComesThrough (liftResult (getMetadataConst md moduleName constName) >>= next) w ↔
      ConstDefined md moduleName constName ∧ p := by
  rw [comesThrough_lift hnext, or_iff_right (const_not_rejected md moduleName constName)]
  exact and_congr_left' getMetadataConst_defined_iff

theorem comesThrough_update {f : Api → Api} {rest : Action Unit} {p : Prop}
    (hrest : ∀ w, ComesThrough rest w ↔ p) (w : World) :
    ComesThrough (do
      update f
      rest) w ↔ p := hrest (w.update f)

theorem readBabe_comesThrough (w : World) :
    ComesThrough (readBabe lib md hasher) w ↔ BabeSettled lib md hasher := by
  apply comesThrough_lift
  intro _
  apply comesThrough_update
  apply comesThrough_lift
  intro _
  apply comesThrough_update
  apply comesThrough_lift
  intro _
  apply comesThrough_update
  apply comesThrough_const
  intro _
  apply comesThrough_update
  intro u
  rw [← and_true (ConstDefined md (lit "Babe") (lit "EpochDuration"))]
  apply comesThrough_const
  intro _ u
  exact iff_of_true (Or.inl ⟨_, _, rfl⟩) trivial

/-- Once the parameters are read, `connect` returns exactly if Babe is settled. -/
theorem connect_returns_iff {code : ℤ} {w₁ : World}
    (h : (readParameters lib).run w = .ok (md, hasher) w₁) :
    (∃ w', (connect lib code).run w = .ok code w') ↔ BabeSettled lib md hasher := by
  have hrun : (connect lib code).run w = (do
      tryCatch (readBabe lib md hasher) expected
      update fun api => { api with isEpoch := decide (api.storageKeyBabeGenesisSlot ≠ []) }
      return code : Action ℤ).run w₁ := by
    rw [connect, EStateM.run_bind, h]
  rw [hrun, ← readBabe_comesThrough w₁, EStateM.run_bind, run_tryCatch]
  constructor
  · intro hreturns
    cases hbabe : (readBabe lib md hasher).run w₁ with
    | ok a t => exact Or.inl ⟨a, t, hbabe⟩
    | error halt t =>
      rw [hbabe] at hreturns
      obtain ⟨w', hreturns⟩ := hreturns
      cases halt with
      | thrown e =>
        cases e with
        | application text => exact Or.inr ⟨text, t, hbabe⟩
        | _ => cases hreturns
      | _ => cases hreturns
  · rintro (⟨a, t, hbabe⟩ | ⟨text, t, hbabe⟩)
    · rw [hbabe]
      exact ⟨_, rfl⟩
    · rw [hbabe]
      exact ⟨_, rfl⟩

end Connecting

/-- Constants are looked up as meant exactly if version 7 is present, the module exists and
the scan neither reads an unfilled slot nor a value that is too long; and `connect`, once
it has read the parameters, returns exactly if a Babe key is rejected or all keys and
constants are defined. -/
theorem metadata_constants_iff (p : Present) (moduleName constName : Str) (lib : Libraries)
    (code : ℤ) (w : World) :
    ((∀ c, p.const moduleName constName = some c → c.value.length < STRING_SIZE) →
      (getMetadataConst p.metadata moduleName constName =
          .ok (valueOf (p.const moduleName constName)) ↔ ConstRight p moduleName constName)) ∧
    ∀ (w₁ : World) (md : Metadata) (hasher : Hasher),
      (readParameters lib).run w = .ok (md, hasher) w₁ →
        ((∃ w', (connect lib code).run w = .ok code w') ↔ BabeSettled lib md hasher) :=
  ⟨fun htext => getMetadataConst_right_iff p htext, fun _ _ _ h => connect_returns_iff h⟩

section Samples

def durationConst : Const := ⟨lit "EpochDuration", lit "u64", lit "9600", Slots.empty⟩

def durationModule : ModuleV7 where
  name := lit "Babe"
  storage := none
  call := Slots.empty
  ev := Slots.empty
  cons := Slots.ofList [durationConst]

def durationChain : MDV7 := ⟨Slots.ofList [durationModule]⟩

def connecting (chain : Str) : World := meets (start (construct blankMemory)) (connectTo chain)

def babeThere (lib : Libraries) (p : Metadata × Hasher) : Bool :=
  (babeKey lib p.1 p.2 "GenesisSlot").isOk && (babeKey lib p.1 p.2 "CurrentSlot").isOk &&
    (babeKey lib p.1 p.2 "EpochIndex").isOk &&
    (getMetadataConst p.1 (lit "Staking") (lit "SessionsPerEra")).isOk &&
    (getMetadataConst p.1 (lit "Babe") (lit "EpochDuration")).isOk

theorem defined_of_isOk {α : Type} {r : Result α} (h : r.isOk = true) : Defined r := by
  cases r with
  | ok a => exact ⟨a, rfl⟩
  | error fault => cases h

theorem babeSettled_of_there {lib : Libraries} {p : Metadata × Hasher} (h : babeThere lib p = true) :
    BabeSettled lib p.1 p.2 := by
  simp only [babeThere, Bool.and_eq_true] at h
  obtain ⟨⟨⟨⟨hgenesis, hcurrent⟩, hepoch⟩, hsessions⟩, hduration⟩ := h
  exact Or.inr ⟨defined_of_isOk hgenesis, Or.inr ⟨defined_of_isOk hcurrent,
    Or.inr ⟨defined_of_isOk hepoch, getMetadataConst_defined_iff.1 (defined_of_isOk hsessions),
      getMetadataConst_defined_iff.1 (defined_of_isOk hduration)⟩⟩⟩

theorem metadata_constants_iff_babe :
    getMetadataConst (only .v7 durationChain) (lit "Babe") (lit "EpochDuration") = .ok 150 ∧
      ∃ w', (connect sampleLibraries PAPI_OK).run (connecting babeChain) = .ok PAPI_OK w' := by
  have hiff := metadata_constants_iff (.later .v7 durationChain) (lit "Babe") (lit "EpochDuration")
    sampleLibraries PAPI_OK (connecting babeChain)
  constructor
  · have hconst : (Present.later .v7 durationChain).const (lit "Babe") (lit "EpochDuration") =
        some durationConst := rfl
    have hvalue : valueOf (some durationConst) = 150 := by decide +kernel
    have hright : ConstRight (.later .v7 durationChain) (lit "Babe") (lit "EpochDuration") :=
      ⟨durationChain, durationModule, rfl, by decide, rfl, Or.inr ⟨0, by decide, durationConst, rfl,
        ⟨fun i hi => absurd hi (Nat.not_lt_zero i), durationConst, rfl, rfl⟩, by decide,
        by decide +kernel⟩⟩
    have h := (hiff.1 (by
      intro c hc
      cases hconst.symm.trans hc
      decide)).2 hright
    rwa [hconst, hvalue] at h
  · have hthere : (result (readParameters sampleLibraries) (connecting babeChain)).map
        (babeThere sampleLibraries) = some true := by decide +kernel
    obtain ⟨p, hp, hbabe⟩ := Option.map_eq_some_iff.1 hthere
    exact (hiff.2 _ p.1 p.2 (run_of_result hp)).2 (babeSettled_of_there hbabe)

/-- The chain has the module Babe with its variables, but no module Staking. -/
def withoutStaking : Str :=
  (["0x6d657461", "07", "0c"] ++ balancesModule ++ ["0441", "00", "00", "00", "00"] ++
    babeModule).flatMap lit

theorem metadata_constants_fails :
    (¬ ∀ (p : Present) (moduleName constName : Str),
      (∀ c, p.const moduleName constName = some c → c.value.length < STRING_SIZE) →
        getMetadataConst p.metadata moduleName constName =
          .ok (valueOf (p.const moduleName constName))) ∧
    ¬ ∀ (lib : Libraries) (code : ℤ) (w w₁ : World) (md : Metadata) (hasher : Hasher),
      (readParameters lib).run w = .ok (md, hasher) w₁ → HasBabe md →
        ∃ w', (connect lib code).run w = .ok code w' := by
  constructor
  · intro hall
    have h := hall (.later .v6 ⟨Slots.empty⟩) (lit "Staking") (lit "SessionsPerEra") (by
      intro c hc
      cases hc)
    have hundefined : getMetadataConst (Present.later .v6 ⟨Slots.empty⟩).metadata (lit "Staking")
        (lit "SessionsPerEra") = .error .undefined := by decide +kernel
    rw [hundefined] at h
    cases h
  · intro hall
    obtain ⟨hbabe, hnone⟩ :
        (result (readParameters sampleLibraries) (connecting withoutStaking)).map
          (fun p => decide (HasVariable p.1 (lit "Babe") (lit "GenesisSlot") ∧
            HasVariable p.1 (lit "Babe") (lit "CurrentSlot") ∧
            HasVariable p.1 (lit "Babe") (lit "EpochIndex"))) = some true ∧
        result (connect sampleLibraries PAPI_OK) (connecting withoutStaking) = none := by
      decide +kernel
    obtain ⟨p, hp, hhas⟩ := Option.map_eq_some_iff.1 hbabe
    rw [decide_eq_true_eq] at hhas
    obtain ⟨w', hreturns⟩ := hall sampleLibraries PAPI_OK _ _ p.1 p.2 (run_of_result hp) hhas
    rw [result, hreturns] at hnone
    cases hnone

end Samples

end PolkadotApi.MetadataConstants
