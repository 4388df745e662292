import PolkadotApi.Converters
import PolkadotApi.MetadataV7RoundTrip
import PolkadotApi.StorageKeys

set_option autoImplicit false

namespace PolkadotApi.StorageEntries
open StreamReader HexText MachineModel ScaleCodec Converters MetadataFormats MetadataFactory
open MetadataLookup MetadataV7RoundTrip ExtrinsicSubmission StorageKeys

/-- The versions whose storage entries have a tag and a hasher. -/
inductive Tagged where
  | v5
  | v6
  | v7

namespace Tagged

def layout : Tagged → Layout
  | v5 => .v5
  | v6 => .v6
  | v7 => .v7

def fill : (version : Tagged) → Str → Result (MD version.layout.Carrier)
  | v5 => fillV5Metadata
  | v6 => fillV6Metadata
  | v7 => fillV7Metadata

def getStorage : Tagged → Reader Storage
  | v5 => getStorageV5
  | v6 => getStorageV6
  | v7 => getStorageV7

def storageAt : (version : Tagged) → version.layout.Carrier → ℕ → Option Storage
  | v5, m, i => m.storage i
  | v6, m, i => m.storage i
  | v7, m, i => m.storage.bind fun storage => storage.items i

end Tagged

section Blob

/-- A storage entry as it stands in the blob, with all its bytes. -/
structure Entry where
  name : Str
  modifier : UInt8
  tag : UInt8
  hasher : Option UInt8
  key1 : Str
  value : Option Str
  isLinked : Option Bool
  fallback : Str
  documentation : Slots Str

def hasherByte (tag : UInt8) : Reader (Option UInt8) :=
  if tag ≠ 0 then do
    let hasher ← nextByte
    return some hasher
  else return none

def storageEntry : Reader Entry := do
  let name ← readText
  let modifier ← nextByte
  let tag ← nextByte
  let hasher ← hasherByte tag
  let key1 ← readText
  let value ← mapValue tag
  let isLinked ← linkedFlag tag
  let fallback ← fallbackText
  let documentation ← documents
  return ⟨name, modifier, tag, hasher, key1, value, isLinked, fallback, documentation⟩

def entrySection : Reader (List Entry) := do
  let isset ← nextByte
  if isset ≠ 0 then
    let count ← decodeCompactInteger
    collect storageEntry (asInt count).toNat
  else return []

def collectionEntries : Reader (List Entry) := do
  let isset ← nextByte
  if isset ≠ 0 then
    let _ ← readText
    let count ← decodeCompactInteger
    collect storageEntry (asInt count).toNat
  else return []

def moduleEntries : Tagged → Reader (List Entry)
  | .v5 => do
    let _ ← readText
    let _ ← readText
    let entries ← entrySection
    let _ ← getSection {} getCallV5
    let _ ← getSection {} getEventV5
    return entries
  | .v6 => do
    let _ ← readText
    let _ ← readText
    let entries ← entrySection
    let _ ← getSection {} getCallV6
    let _ ← getSection {} getEventV6
    let _ ← consts getConstsV6
    return entries
  | .v7 => do
    let _ ← readText
    let entries ← collectionEntries
    let _ ← getSectionV7 getCallV7
    let _ ← getSectionV7 getEventV7
    let _ ← consts getConstsV7
    return entries

def blobEntries (version : Tagged) (blob : Str) : Result (List (List Entry)) := do
  let (_, str) ← magicBytes (m := Reader) blob
  let (mLen, str) ← decodeCompactInteger (m := Reader) str
  let (modules, _) ← collect (moduleEntries version) (asInt mLen).toNat str
  return modules

end Blob

section Kept

/-- What the parser makes of an entry: the tag is dropped, and `type.type` is the
hasher or 0. -/
def Entry.kept (e : Entry) : Storage where
  name := some e.name
  modifier := some e.modifier
  type := {
    type := some (e.hasher.getD 0), key1 := some e.key1, value := e.value, isLinked := e.isLinked }
  fallback := some e.fallback
  documentation := e.documentation

theorem typeByte_eq (tag : UInt8) :
    typeByte tag = (do let hasher ← hasherByte tag; return hasher.getD 0) := by
  unfold typeByte hasherByte
  split_ifs
  · simp
  · simp

theorem getStorage_eq : getStorage = (do let e ← storageEntry; return e.kept) := by
  simp only [getStorage, storageEntry, typeByte_eq, bind_assoc, pure_bind, Entry.kept]

theorem hasherByte_eq_ok {tag : UInt8} {hasher : Option UInt8} {s t : Str}
    (h : hasherByte tag s = .ok (hasher, t)) : hasher = none ↔ tag = 0 := by
  unfold hasherByte at h
  split_ifs at h with htag
  · obtain ⟨_, _, -, h⟩ := bind_eq_ok h
    obtain ⟨rfl, -⟩ := pure_eq_ok h
    exact iff_of_false (by simp) htag
  · obtain ⟨rfl, -⟩ := pure_eq_ok h
    exact iff_of_true rfl (not_not.1 htag)

theorem storageEntry_hasher {e : Entry} {s t : Str} (h : storageEntry s = .ok (e, t)) :
    e.hasher = none ↔ e.tag = 0 := by
  obtain ⟨_, _, -, h⟩ := bind_eq_ok h
  obtain ⟨_, _, -, h⟩ := bind_eq_ok h
  obtain ⟨_, _, -, h⟩ := bind_eq_ok h
  obtain ⟨_, _, hhasher, h⟩ := bind_eq_ok h
  obtain ⟨_, _, -, h⟩ := bind_eq_ok h
  obtain ⟨_, _, -, h⟩ := bind_eq_ok h
  obtain ⟨_, _, -, h⟩ := bind_eq_ok h
  obtain ⟨_, _, -, h⟩ := bind_eq_ok h
  obtain ⟨_, _, -, h⟩ := bind_eq_ok h
  obtain ⟨rfl, -⟩ := pure_eq_ok h
  exact hasherByte_eq_ok hhasher

def Keeps (items : ℕ → Option Storage) (entries : List Entry) : Prop :=
  ∀ i e, entries[i]? = some e → items i = some e.kept ∧ (e.hasher = none ↔ e.tag = 0)

theorem storeEach_keeps {count : ℤ} {slots : Slots Storage} {s t : Str}
    (h : storeEach (m := Reader) COLLECTION_SIZE count MetadataFormats.getStorage s =
      .ok (slots, t)) :
    ∃ entries, collect storageEntry count.toNat s = .ok (entries, t) ∧ Keeps slots entries := by
  obtain ⟨items, hreads, hcount, -, rfl⟩ := (storeEach_eq_ok_iff _ _ _ _ _ _).1 h
  have hitem : ∀ s x t, MetadataFormats.getStorage (m := Reader) s = .ok (x, t) →
      ∃ e, storageEntry s = .ok (e, t) ∧ x = e.kept ∧ (e.hasher = none ↔ e.tag = 0) := by
    intro s x t hx
    rw [getStorage_eq] at hx
    obtain ⟨e, _, he, hx⟩ := bind_eq_ok hx
    obtain ⟨rfl, rfl⟩ := pure_eq_ok hx
    exact ⟨e, he, rfl, storageEntry_hasher he⟩
  obtain ⟨entries, hentries, hkept⟩ := hreads.in_step hitem
  rw [hcount] at hentries
  refine ⟨entries, hentries, ?_⟩
  intro i e he
  obtain ⟨x, hx, rfl, hhasher⟩ := hkept i e he
  exact ⟨hx, hhasher⟩

theorem keeps_nil (items : ℕ → Option Storage) : Keeps items [] := by
  intro i e he
  simp at he

theorem getSection_keeps {sec : Section Storage} {s t : Str}
    (h : getSection (m := Reader) {} MetadataFormats.getStorage s = .ok (sec, t)) :
    ∃ entries, entrySection s = .ok (entries, t) ∧ Keeps sec.items entries := by
  obtain ⟨isset, _, hisset, h⟩ := bind_eq_ok h
  rw [entrySection, bind_ok hisset]
  by_cases hset : isset ≠ 0
  · rw [if_pos hset] at h ⊢
    obtain ⟨count, _, hcount, h⟩ := bind_eq_ok h
    rw [bind_ok hcount]
    by_cases hzero : asInt count = 0
    · rw [if_pos hzero] at h
      obtain ⟨_, _, hfirst, h⟩ := bind_eq_ok h
      obtain ⟨-, rfl⟩ := inside_eq_ok hfirst
      obtain ⟨rfl, rfl⟩ := pure_eq_ok h
      rw [hzero]
      exact ⟨[], rfl, keeps_nil _⟩
    · rw [if_neg hzero] at h
      obtain ⟨items, _, hitems, h⟩ := bind_eq_ok h
      obtain ⟨rfl, rfl⟩ := pure_eq_ok h
      exact storeEach_keeps hitems
  · rw [if_neg hset] at h ⊢
    obtain ⟨rfl, rfl⟩ := pure_eq_ok h
    exact ⟨[], rfl, keeps_nil _⟩

theorem storageV7_keeps {storage : Option StorageCollectionV7} {s t : Str}
    (h : storageV7 (m := Reader) s = .ok (storage, t)) :
    ∃ entries, collectionEntries s = .ok (entries, t) ∧
      Keeps (fun i => storage.bind fun c => c.items i) entries := by
  obtain ⟨isset, _, hisset, h⟩ := bind_eq_ok h
  rw [collectionEntries, bind_ok hisset]
  by_cases hset : isset ≠ 0
  · rw [if_pos hset] at h ⊢
    obtain ⟨_, _, hprefix, h⟩ := bind_eq_ok h
    obtain ⟨_, _, hcount, h⟩ := bind_eq_ok h
    obtain ⟨items, _, hitems, h⟩ := bind_eq_ok h
    obtain ⟨rfl, rfl⟩ := pure_eq_ok h
    rw [bind_ok hprefix, bind_ok hcount]
    exact storeEach_keeps hitems
  · rw [if_neg hset] at h ⊢
    obtain ⟨rfl, rfl⟩ := pure_eq_ok h
    exact ⟨[], rfl, keeps_nil _⟩

theorem body_keeps (version : Tagged) {m : Traced version.layout.Carrier} {s t : Str}
    (h : version.layout.body s = .ok (m, t)) :
    ∃ entries, moduleEntries version s = .ok (entries, t) ∧
      Keeps (version.storageAt m.module) entries := by
  cases version with
  | v5 =>
    obtain ⟨_, _, hname, h⟩ := bind_eq_ok h
    obtain ⟨_, _, hprefix, h⟩ := bind_eq_ok h
    obtain ⟨storage, _, hstorage, h⟩ := bind_eq_ok h
    obtain ⟨_, _, hcalls, h⟩ := bind_eq_ok h
    obtain ⟨_, _, hevents, h⟩ := bind_eq_ok h
    obtain ⟨rfl, rfl⟩ := pure_eq_ok h
    obtain ⟨entries, hentries, hkeeps⟩ := getSection_keeps hstorage
    refine ⟨entries, ?_, hkeeps⟩
    rw [moduleEntries, bind_ok hname, bind_ok hprefix, bind_ok hentries, bind_ok hcalls,
      bind_ok hevents]
    rfl
  | v6 =>
    obtain ⟨base, _, hbase, h⟩ := bind_eq_ok h
    obtain ⟨_, _, hconsts, h⟩ := bind_eq_ok h
    obtain ⟨rfl, rfl⟩ := pure_eq_ok h
    obtain ⟨_, _, hname, hbase⟩ := bind_eq_ok hbase
    obtain ⟨_, _, hprefix, hbase⟩ := bind_eq_ok hbase
    obtain ⟨storage, _, hstorage, hbase⟩ := bind_eq_ok hbase
    obtain ⟨_, _, hcalls, hbase⟩ := bind_eq_ok hbase
    obtain ⟨_, _, hevents, hbase⟩ := bind_eq_ok hbase
    obtain ⟨rfl, rfl⟩ := pure_eq_ok hbase
    obtain ⟨entries, hentries, hkeeps⟩ := getSection_keeps hstorage
    refine ⟨entries, ?_, hkeeps⟩
    rw [moduleEntries, bind_ok hname, bind_ok hprefix, bind_ok hentries, bind_ok hcalls,
      bind_ok hevents, bind_ok hconsts]
    rfl
  | v7 =>
    obtain ⟨_, _, hname, h⟩ := bind_eq_ok h
    obtain ⟨storage, _, hstorage, h⟩ := bind_eq_ok h
    obtain ⟨_, _, hcalls, h⟩ := bind_eq_ok h
    obtain ⟨_, _, hevents, h⟩ := bind_eq_ok h
    obtain ⟨_, _, hconsts, h⟩ := bind_eq_ok h
    obtain ⟨rfl, rfl⟩ := pure_eq_ok h
    obtain ⟨entries, hentries, hkeeps⟩ := storageV7_keeps hstorage
    refine ⟨entries, ?_, hkeeps⟩
    rw [moduleEntries, bind_ok hname, bind_ok hentries, bind_ok hcalls, bind_ok hevents,
      bind_ok hconsts]
    rfl

/-- The modules of an accepted blob hold the kept parts of its storage entries. -/
theorem fill_keeps {version : Tagged} {blob : Str} {md : MD version.layout.Carrier}
    (h : version.fill blob = .ok md) :
    ∃ table, blobEntries version blob = .ok table ∧ ∀ k entries, table[k]? = some entries →
      ∃ m, md.module k = some m ∧ Keeps (version.storageAt m) entries := by
  have hfill : fillMetadata version.layout.body blob = .ok md := by
    cases version <;> exact h
  rw [fillMetadata_eq] at hfill
  obtain ⟨modules, htrace, rfl⟩ := except_map_eq_ok hfill
  obtain ⟨⟨slots, t⟩, hmodules, rfl⟩ := except_map_eq_ok htrace
  obtain ⟨_, s, hmagic, hlist⟩ := bind_eq_ok hmodules
  obtain ⟨mLen, _, hlen, hlist⟩ := bind_eq_ok hlist
  obtain ⟨ts, hreads, hcount, -, rfl⟩ := (claimEach_eq_ok_iff _ _ _ _ _ _).1 hlist
  obtain ⟨table, htable, hkept⟩ := hreads.in_step (fun _ _ _ h => body_keeps version h)
  rw [hcount] at htable
  refine ⟨table, ?_, ?_⟩
  · rw [blobEntries, hmagic, except_ok_bind]
    dsimp only
    rw [hlen, except_ok_bind]
    dsimp only
    rw [htable]
    rfl
  · intro k entries hk
    obtain ⟨m, hm, hkeeps⟩ := hkept k entries hk
    refine ⟨m.module, ?_, hkeeps⟩
    change (ts[k]?).map Traced.module = _
    rw [hm]
    rfl

end Kept

section Plain

theorem isStateVariablePlain_only {version : Tagged} {md : MD version.layout.Carrier}
    {m : version.layout.Carrier} {k i : ℕ} {item : Storage} (hm : md.module k = some m)
    (hitem : version.storageAt m i = some item) :
    isStateVariablePlain (only version.layout md) k i = isPlain item.type.type := by
  cases version with
  | v5 =>
    change MDV5 at md
    change ModuleV5 at m
    change m.storage i = some item at hitem
    simp [isStateVariablePlain, firstVersion, only, Tagged.layout, hm, hitem, deref, except_ok_bind]
  | v6 =>
    change MDV6 at md
    change ModuleV6 at m
    change m.storage i = some item at hitem
    simp [isStateVariablePlain, firstVersion, only, Tagged.layout, hm, hitem, deref, except_ok_bind]
  | v7 =>
    change MDV7 at md
    change ModuleV7 at m
    obtain ⟨storage, hstorage, hi⟩ := Option.bind_eq_some_iff.1 hitem
    simp [isStateVariablePlain, firstVersion, only, Tagged.layout, hm, hstorage, hi, deref,
      except_ok_bind]

def expectedKey (lib : Libraries) (e : Entry) (hasher : Hasher) (jsonPrm keyPrefix : Str) :
    Result Str :=
  if e.tag = 0 then .ok (getPlainStorageKey lib hasher keyPrefix)
  else getMappedStorageKey lib hasher jsonPrm keyPrefix

/-- The variable counts as plain exactly if its tag says so, and `getKeys` gives
the key that goes with its tag whenever the names lead to it. -/
def PlainAsTagged (md : Metadata) (k i : ℕ) (e : Entry) : Prop :=
  isStateVariablePlain md k i = .ok (decide (e.tag = 0)) ∧
    ∀ (lib : Libraries) (hasher : Hasher) (jsonPrm module variableName : Str),
      getModuleIndex md module false = .ok (k : ℤ) →
      getStorageMethodIndex md k variableName = .ok (i : ℤ) →
        getKeys lib md hasher jsonPrm module variableName =
          expectedKey lib e hasher jsonPrm (module ++ lit " " ++ variableName)

theorem getKeys_eq {md : Metadata} {k i : ℕ} {plain : Bool} {module variableName : Str}
    (lib : Libraries) (hasher : Hasher) (jsonPrm : Str)
    (hmodule : getModuleIndex md module false = .ok (k : ℤ))
    (hvariable : getStorageMethodIndex md k variableName = .ok (i : ℤ))
    (hplain : isStateVariablePlain md k i = .ok plain) :
    getKeys lib md hasher jsonPrm module variableName =
      if plain then .ok (getPlainStorageKey lib hasher (module ++ lit " " ++ variableName))
      else getMappedStorageKey lib hasher jsonPrm (module ++ lit " " ++ variableName) := by
  have hk : ¬ (k : ℤ) = -1 := by omega
  have hi : ¬ (i : ℤ) = -1 := by omega
  simp only [getKeys, hmodule, except_ok_bind, if_neg hk, hvariable, if_neg hi, Int.toNat_natCast,
    hplain]
  rfl

end Plain

/-- In every accepted blob a storage entry counts as plain exactly when its tag is
0, unless it has a hasher byte and that byte is 0. -/
theorem plain_as_tagged_iff (version : Tagged) (blob : Str) (md : MD version.layout.Carrier)
    (h : version.fill blob = .ok md) :
    ∃ table, blobEntries version blob = .ok table ∧
      ∀ k entries i e, table[k]? = some entries → entries[i]? = some e →
        (PlainAsTagged (only version.layout md) k i e ↔ e.hasher ≠ some 0) := by
  obtain ⟨table, htable, hkeeps⟩ := fill_keeps h
  refine ⟨table, htable, ?_⟩
  intro k entries i e hk he
  obtain ⟨m, hm, hentries⟩ := hkeeps k entries hk
  obtain ⟨hitem, hhasher⟩ := hentries i e he
  have hplain : isStateVariablePlain (only version.layout md) k i =
      .ok (decide (e.hasher.getD 0 = 0)) := isStateVariablePlain_only hm hitem
  have hagree : e.hasher.getD 0 = 0 ↔ e.hasher = none ∨ e.hasher = some 0 := by
    cases e.hasher <;> simp
  constructor
  · rintro ⟨htagged, -⟩ hzero
    rw [hplain, Except.ok.injEq, decide_eq_decide, hagree, ← hhasher] at htagged
    have hnone := htagged.1 (Or.inr hzero)
    rw [hzero] at hnone
    cases hnone
  · intro hne
    have htag : e.hasher.getD 0 = 0 ↔ e.tag = 0 := by
      rw [hagree, ← hhasher]
      exact or_iff_left hne
    have htagged : isStateVariablePlain (only version.layout md) k i =
        .ok (decide (e.tag = 0)) := by
      rw [hplain, Except.ok.injEq, decide_eq_decide]
      exact htag
    refine ⟨htagged, ?_⟩
    intro lib hasher jsonPrm module variableName hmodule hvariable
    rw [getKeys_eq lib hasher jsonPrm hmodule hvariable htagged, expectedKey]
    simp only [decide_eq_true_eq]

section Samples

def mapChain (hasher : String) : Str :=
  ["6d65746105", "04", "0441", "0441", "01", "04", "0478", "00", "01", hasher, "0461", "0462", "00",
    "00", "00", "00", "00"].flatMap lit

def bytes (e : Entry) : UInt8 × Option UInt8 := (e.tag, e.hasher)

theorem entry_of_bytes {table : List (List Entry)} {b : UInt8 × Option UInt8}
    (h : table.map (fun entries => entries.map bytes) = [[b]]) :
    ∃ entries e, table[0]? = some entries ∧ entries[0]? = some e ∧ bytes e = b := by
  obtain ⟨entries, rest, rfl, hentries, -⟩ := List.map_eq_cons_iff.1 h
  obtain ⟨e, others, rfl, he, -⟩ := List.map_eq_cons_iff.1 hentries
  exact ⟨_, e, rfl, rfl, he⟩

end Samples

theorem plain_as_tagged_iff_blake2 : ∃ md table entries e,
    Tagged.v5.fill (mapChain "02") = .ok md ∧ blobEntries .v5 (mapChain "02") = .ok table ∧
      table[0]? = some entries ∧ entries[0]? = some e ∧ bytes e = (1, some 2) ∧
      PlainAsTagged (only .v5 md) 0 0 e := by
  have hfill : (Tagged.v5.fill (mapChain "02")).map (fun _ => ()) = .ok () := by decide +kernel
  have hbytes : (blobEntries .v5 (mapChain "02")).map
      (fun table => table.map fun entries => entries.map bytes) = .ok [[(1, some 2)]] := by
    decide +kernel
  obtain ⟨md, hmd, -⟩ := except_map_eq_ok hfill
  obtain ⟨table, htable, hiff⟩ := plain_as_tagged_iff .v5 _ md hmd
  rw [htable] at hbytes
  obtain ⟨entries, e, hk, hi, he⟩ := entry_of_bytes (Except.ok.inj hbytes)
  refine ⟨md, table, entries, e, hmd, htable, hk, hi, he, (hiff 0 entries 0 e hk hi).2 ?_⟩
  rw [(Prod.mk.inj he).2]
  decide

/-- A map with the hasher byte 0 counts as plain. -/
theorem plain_as_tagged_fails :
    ¬ ∀ (version : Tagged) (blob : Str) (md : MD version.layout.Carrier) (table : List (List Entry)),
      version.fill blob = .ok md → blobEntries version blob = .ok table →
      ∀ k entries i e, table[k]? = some entries → entries[i]? = some e →
        PlainAsTagged (only version.layout md) k i e := by
  intro hall
  have hplain : (Tagged.v5.fill (mapChain "00")).map
      (fun md => isStateVariablePlain (only .v5 md) 0 0) = .ok (.ok true) := by decide +kernel
  have hbytes : (blobEntries .v5 (mapChain "00")).map
      (fun table => table.map fun entries => entries.map bytes) = .ok [[(1, some 0)]] := by
    decide +kernel
  obtain ⟨md, hmd, hplain⟩ := except_map_eq_ok hplain
  obtain ⟨table, htable, hbytes⟩ := except_map_eq_ok hbytes
  obtain ⟨entries, e, hk, hi, he⟩ := entry_of_bytes hbytes
  have htagged := (hall .v5 _ md table hmd htable 0 entries 0 e hk hi).1
  have htag : e.tag = 1 := (Prod.mk.inj he).1
  rw [htag] at htagged
  cases hplain.symm.trans htagged

section Losses

variable {α β : Type}

def Differ (a b : Option α) : Prop := ∃ x y, a = some x ∧ b = some y ∧ x ≠ y

theorem differ_some_iff {x y : α} : Differ (some x) (some y) ↔ x ≠ y := by
  simp [Differ]

theorem not_differ_none_left (b : Option α) : ¬ Differ none b := by
  rintro ⟨x, y, h, -⟩
  cases h

theorem not_differ_none_right (a : Option α) : ¬ Differ a none := by
  rintro ⟨x, y, -, h, -⟩
  cases h

theorem differ_map_iff {f : α → β} (hf : Function.Injective f) (a b : Option α) :
    Differ (a.map f) (b.map f) ↔ Differ a b := by
  cases a with
  | none => exact iff_of_false (not_differ_none_left _) (not_differ_none_left _)
  | some x =>
    cases b with
    | none => exact iff_of_false (not_differ_none_right _) (not_differ_none_right _)
    | some y =>
      rw [Option.map_some, Option.map_some, differ_some_iff, differ_some_iff]
      exact not_congr hf.eq_iff

/-- Some member that both parses assigned tells the two structures apart. -/
def Apart (s s' : Storage) : Prop :=
  Differ s.name s'.name ∨ Differ s.modifier s'.modifier ∨ Differ s.type.type s'.type.type ∨
    Differ s.type.hasher s'.type.hasher ∨ Differ s.type.key1 s'.type.key1 ∨
    Differ s.type.key2 s'.type.key2 ∨ Differ s.type.value s'.type.value ∨
    Differ s.type.key2hasher s'.type.key2hasher ∨ Differ s.type.isLinked s'.type.isLinked ∨
    Differ s.fallback s'.fallback ∨ ∃ i, Differ (s.documentation i) (s'.documentation i)

def hasherOf : WireType → UInt8
  | .plain _ => 0
  | .map hasher _ _ _ => hasher
  | .doubleMap hasher _ _ _ _ => hasher

def firstKey : WireType → Text
  | .plain type => type
  | .map _ key _ _ => key
  | .doubleMap _ key1 _ _ _ => key1

def valueOf : WireType → Option Text
  | .plain _ => none
  | .map _ _ value _ => some value
  | .doubleMap _ _ _ value _ => some value

def linkedOf : WireType → Option Bool
  | .plain _ => none
  | .map _ _ _ linked => some linked
  | .doubleMap _ _ _ _ linked => some linked

/-- The entries differ in more than the tag, the second key of a double map and the
number of lines of documentation. The hasher of a plain entry is 0, and a value or
a flag that only one of them has makes no difference. -/
def DifferWhereKept (e e' : WireStorage) : Prop :=
  e.name ≠ e'.name ∨ e.modifier ≠ e'.modifier ∨ hasherOf e.type ≠ hasherOf e'.type ∨
    firstKey e.type ≠ firstKey e'.type ∨ Differ (valueOf e.type) (valueOf e'.type) ∨
    Differ (linkedOf e.type) (linkedOf e'.type) ∨ e.fallback ≠ e'.fallback ∨
    ∃ i : ℕ, Differ (e.docs.items[i]?) (e'.docs.items[i]?)

theorem chars_injective : Function.Injective Text.chars := by
  rintro ⟨s, _, _⟩ ⟨t, _, _⟩ rfl
  rfl

theorem text_injective (d : DigitSet) : Function.Injective d.text := by
  intro as bs h
  rw [← hexBytes_spells (d.spells_text as), ← hexBytes_spells (d.spells_text bs), h]

theorem rawText_injective (d : DigitSet) :
    Function.Injective fun r : RawBytes => d.text r.items := by
  rintro ⟨as, _⟩ ⟨bs, _⟩ h
  obtain rfl := text_injective d h
  rfl

theorem decodedType_eq (type : WireType) :
    decodedType type = {
      type := some (hasherOf type), key1 := some (firstKey type).chars,
      value := (valueOf type).map Text.chars, isLinked := linkedOf type } := by
  cases type <;> rfl

theorem apart_iff (d : DigitSet) (e e' : WireStorage) :
    Apart (decodedStorage d e) (decodedStorage d e') ↔ DifferWhereKept e e' := by
  have hdocs : ∀ i, Differ (textSlots e.docs.items i) (textSlots e'.docs.items i) ↔
      Differ (e.docs.items[i]?) (e'.docs.items[i]?) := by
    intro i
    rw [textSlots, textSlots, Slots.ofList, Slots.ofList, List.getElem?_map, List.getElem?_map]
    exact differ_map_iff chars_injective _ _
  have hnone : ¬ Differ (none : Option Str) none := not_differ_none_left none
  simp only [Apart, decodedStorage, decodedType_eq, differ_some_iff, hdocs, hnone, false_or,
    differ_map_iff chars_injective, DifferWhereKept, ne_eq, chars_injective.eq_iff,
    (rawText_injective d).eq_iff]

end Losses

/-- The three parsers tell two different well-formed entries apart exactly when the
entries differ in one of the parts that are kept. -/
theorem entries_apart_iff (version : Tagged) (d : DigitSet) (e e' : WireStorage) :
    ∃ s s', Decodes d.script version.getStorage (encodeStorage e) s ∧
      Decodes d.script version.getStorage (encodeStorage e') s' ∧
      ((e ≠ e' → Apart s s') ↔ e = e' ∨ DifferWhereKept e e') := by
  have hdecodes : ∀ e, Decodes d.script version.getStorage (encodeStorage e) (decodedStorage d e) := by
    intro e
    cases version <;> exact decodes_getStorageV7 d e
  refine ⟨_, _, hdecodes e, hdecodes e', ?_⟩
  rw [apart_iff]
  tauto

def doubleMapTo (key2 : Text) : WireStorage :=
  ⟨emptyText, 0, .doubleMap 2 emptyText key2 emptyText false, ⟨[], Nat.zero_le _⟩,
    ⟨[], Nat.zero_le _⟩⟩

def letterA : Text := ⟨[97], by simp, by simp⟩

/-- The second key of a double map is lost. -/
theorem entries_apart_fails :
    ¬ ∀ (version : Tagged) (d : DigitSet) (e e' : WireStorage) (s s' : Storage),
      Decodes d.script version.getStorage (encodeStorage e) s →
      Decodes d.script version.getStorage (encodeStorage e') s' → e ≠ e' → Apart s s' := by
  intro hall
  have hsame : decodedStorage .upper (doubleMapTo emptyText) =
      decodedStorage .upper (doubleMapTo letterA) := rfl
  have hne : doubleMapTo emptyText ≠ doubleMapTo letterA := by
    simp [doubleMapTo, emptyText, letterA]
  have hdecodes := decodes_getStorageV7 .upper (doubleMapTo letterA)
  rw [← hsame] at hdecodes
  have happart := hall .v7 .upper _ _ _ _ (decodes_getStorageV7 .upper (doubleMapTo emptyText))
    hdecodes hne
  rw [apart_iff] at happart
  simp [DifferWhereKept, Differ, doubleMapTo, hasherOf, firstKey, valueOf, linkedOf] at happart

end PolkadotApi.StorageEntries
