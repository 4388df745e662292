import PolkadotApi.MetadataFormats

set_option autoImplicit false

namespace PolkadotApi.StorageTypesV0
open StreamReader MachineModel ScaleCodec MetadataFormats

section Blob

structure EntryV0 where
  name : Str
  modifier : UInt8
  hasSecondType : UInt8
  type1 : Str
  type2 : Str
  fallback : Str
  documentation : Slots Str

def storageEntryV0 : Reader EntryV0 := do
  let name ← readText
  let modifier ← nextByte
  let hasSecondType ← nextByte
  let type1 ← extractText
  let type2 ← secondType hasSecondType
  let fallback ← fallbackText
  let documentation ← documents
  return ⟨name, modifier, hasSecondType, type1, type2, fallback, documentation⟩

def moduleEntriesV0 : Reader (List EntryV0) := do
  let _ ← readText
  let _ ← readText
  let _ ← readText
  let callFuntionsCount ← decodeCompactInteger
  let _ ← forCount (asInt callFuntionsCount) functionCallV0 Slots.empty
  let storageIsset ← nextByte
  if storageIsset = 0 then return []
  else
    let _ ← readText
    let storageFuncsCount ← decodeCompactInteger
    collect storageEntryV0 (asInt storageFuncsCount).toNat

end Blob

section Stored

/-- The texts that the modifier byte selects. -/
def EntryV0.texts (e : EntryV0) : FuncTypeV0 :=
  if e.modifier = 0 then { value := some (cstr e.type1) }
  else { key := some (cstr e.type1), value := some (cstr e.type2) }

def EntryV0.stored (e : EntryV0) (typeName : Option UInt8) : FunctionV0 :=
  ⟨e.name, { e.texts with typeName }, e.fallback, e.documentation⟩

/-- The functions after the entries have been read: only the first one has a type
name, the modifier of the last entry. -/
def laidOut (entries : List EntryV0) : Slots FunctionV0 := fun i =>
  entries[i]?.map fun e =>
    e.stored (if i = 0 then entries.getLast?.map EntryV0.modifier else none)

theorem typeTexts_eq_ok {e : EntryV0} {texts : FuncTypeV0} {s t : Str}
    (h : typeTexts (m := Reader) e.modifier e.type1 e.type2 s = .ok (texts, t)) :
    texts = e.texts ∧ t = s := by
  unfold typeTexts at h
  unfold EntryV0.texts
  split_ifs at h ⊢ with hmodifier
  · obtain ⟨value, u, hvalue, h⟩ := bind_eq_ok h
    obtain ⟨rfl, rfl⟩ := pure_eq_ok h
    obtain ⟨rfl, rfl⟩ := copy_eq_ok hvalue
    exact ⟨rfl, rfl⟩
  · obtain ⟨value, u, hvalue, h⟩ := bind_eq_ok h
    obtain ⟨key, v, hkey, h⟩ := bind_eq_ok h
    obtain ⟨rfl, rfl⟩ := pure_eq_ok h
    obtain ⟨rfl, rfl⟩ := copy_eq_ok hvalue
    obtain ⟨rfl, rfl⟩ := copy_eq_ok hkey
    exact ⟨rfl, rfl⟩

theorem storageFunctionV0_eq_ok {i : ℕ} {function next : Slots FunctionV0} {s t : Str}
    (h : storageFunctionV0 (m := Reader) i function s = .ok (next, t)) :
    i < COLLECTION_SIZE ∧ ∃ e, storageEntryV0 s = .ok (e, t) ∧
      next = setTypeName e.modifier (Function.update function i (some (e.stored none))) := by
  obtain ⟨name, _, hname, h₁⟩ := bind_eq_ok h
  obtain ⟨_, _, hinside, h₂⟩ := bind_eq_ok h₁
  obtain ⟨hcap, rfl⟩ := inside_eq_ok hinside
  obtain ⟨modifier, _, hmodifier, h⟩ := bind_eq_ok h₂
  obtain ⟨hasSecondType, _, hsecond, h⟩ := bind_eq_ok h
  obtain ⟨type1, _, htype1, h⟩ := bind_eq_ok h
  obtain ⟨type2, _, htype2, h⟩ := bind_eq_ok h
  obtain ⟨texts, _, htexts, h⟩ := bind_eq_ok h
  obtain ⟨fallback, _, hfallback, h⟩ := bind_eq_ok h
  obtain ⟨documentation, _, hdocs, h⟩ := bind_eq_ok h
  obtain ⟨rfl, rfl⟩ := pure_eq_ok h
  let e : EntryV0 := ⟨name, modifier, hasSecondType, type1, type2, fallback, documentation⟩
  obtain ⟨hkept, rfl⟩ := typeTexts_eq_ok (e := e) htexts
  refine ⟨hcap, e, ?_, ?_⟩
  · rw [storageEntryV0, bind_ok hname, bind_ok hmodifier, bind_ok hsecond, bind_ok htype1,
      bind_ok htype2, bind_ok hfallback, bind_ok hdocs]
    rfl
  · subst hkept
    have hplain : { e.texts with typeName := none } = e.texts := by
      unfold EntryV0.texts
      split_ifs <;> rfl
    rw [EntryV0.stored, hplain]

theorem laidOut_concat (entries : List EntryV0) (e : EntryV0) :
    setTypeName e.modifier
        (Function.update (laidOut entries) entries.length (some (e.stored none))) =
      laidOut (entries ++ [e]) := by
  funext i
  unfold setTypeName
  rcases Nat.eq_zero_or_pos i with rfl | hi
  · rw [Function.update_self]
    cases entries with
    | nil => simp [laidOut, EntryV0.stored]
    | cons a entries =>
      simp [laidOut, EntryV0.stored, List.getLast?_cons]
  · rw [Function.update_of_ne (by omega)]
    by_cases hlast : i = entries.length
    · subst hlast
      rw [Function.update_self, laidOut, List.getElem?_concat_length, if_neg (by omega)]
      rfl
    · rw [Function.update_of_ne hlast]
      have hget : (entries ++ [e])[i]? = entries[i]? := by
        rcases Nat.lt_or_ge i entries.length with hlt | hge
        · exact List.getElem?_append_left hlt
        · rw [List.getElem?_eq_none (by simp; omega), List.getElem?_eq_none (by omega)]
      rw [laidOut, laidOut, hget, if_neg (by omega), if_neg (by omega)]

theorem loopFrom_laidOut {n : ℕ} {before : List EntryV0} {out : Slots FunctionV0} {s t : Str}
    (h : loopFrom (m := Reader) storageFunctionV0 n before.length (laidOut before) s =
      .ok (out, t)) :
    ∃ entries, ReadsAll storageEntryV0 entries s t ∧ entries.length = n ∧
      out = laidOut (before ++ entries) := by
  induction n generalizing before s with
  | zero =>
    obtain ⟨rfl, rfl⟩ := pure_eq_ok h
    exact ⟨[], .nil _, rfl, by simp⟩
  | succ n ih =>
    rw [loopFrom_succ] at h
    obtain ⟨next, s₁, hbody, h⟩ := bind_eq_ok h
    obtain ⟨-, e, he, rfl⟩ := storageFunctionV0_eq_ok hbody
    have hlength : before.length + 1 = (before ++ [e]).length := by simp
    rw [laidOut_concat, hlength] at h
    obtain ⟨entries, hreads, hcount, rfl⟩ := ih h
    exact ⟨e :: entries, .cons he hreads, by simp [hcount], by simp⟩

theorem laidOut_nil : laidOut [] = Slots.empty := by
  funext i
  simp [laidOut, Slots.empty]

theorem getModuleV0_laidOut {m : ModuleV0} {s t : Str}
    (h : getModuleV0 (m := Reader) s = .ok (m, t)) :
    ∃ entries, moduleEntriesV0 s = .ok (entries, t) ∧ m.storage.function = laidOut entries := by
  obtain ⟨_, _, hprefix, h⟩ := bind_eq_ok h
  obtain ⟨_, _, hname, h⟩ := bind_eq_ok h
  obtain ⟨_, _, hcall, h⟩ := bind_eq_ok h
  obtain ⟨_, _, hcount, h⟩ := bind_eq_ok h
  obtain ⟨_, _, hcalls, h⟩ := bind_eq_ok h
  obtain ⟨storage, _, hstorage, h⟩ := bind_eq_ok h
  obtain ⟨rfl, rfl⟩ := pure_eq_ok h
  rw [moduleEntriesV0, bind_ok hprefix, bind_ok hname, bind_ok hcall, bind_ok hcount,
    bind_ok hcalls]
  obtain ⟨isset, _, hisset, hstorage⟩ := bind_eq_ok hstorage
  rw [bind_ok hisset]
  by_cases hzero : isset = 0
  · rw [if_pos hzero] at hstorage ⊢
    obtain ⟨rfl, rfl⟩ := pure_eq_ok hstorage
    exact ⟨[], rfl, laidOut_nil.symm⟩
  · rw [if_neg hzero] at hstorage ⊢
    obtain ⟨_, _, hstoragePrefix, hstorage⟩ := bind_eq_ok hstorage
    obtain ⟨count, _, hfuncs, hstorage⟩ := bind_eq_ok hstorage
    obtain ⟨function, _, hloop, hstorage⟩ := bind_eq_ok hstorage
    obtain ⟨rfl, rfl⟩ := pure_eq_ok hstorage
    rw [forCount, ← laidOut_nil] at hloop
    change loopFrom (m := Reader) storageFunctionV0 _ ([] : List EntryV0).length _ _ = _ at hloop
    obtain ⟨entries, hreads, hlength, rfl⟩ := loopFrom_laidOut hloop
    refine ⟨entries, ?_, rfl⟩
    rw [bind_ok hstoragePrefix, bind_ok hfuncs, ← hlength]
    exact hreads.collect

end Stored

/-- The function has a type name, which is 0 exactly if the entry has no second
type; its value is then the single type, and otherwise its key and value are the
first and the second type. -/
def OwnType (e : EntryV0) (f : FunctionV0) : Prop :=
  (∃ typeName, f.type.typeName = some typeName ∧ (typeName = 0 ↔ e.hasSecondType = 0)) ∧
    (e.hasSecondType = 0 → f.type.value = some (cstr e.type1)) ∧
    (e.hasSecondType ≠ 0 →
      f.type.key = some (cstr e.type1) ∧ f.type.value = some (cstr e.type2))

theorem ownType_stored_iff (e : EntryV0) :
    OwnType e (e.stored (some e.modifier)) ↔ (e.modifier = 0 ↔ e.hasSecondType = 0) := by
  constructor
  · rintro ⟨⟨typeName, hname, hzero⟩, -⟩
    cases hname
    exact hzero
  · intro hzero
    refine ⟨⟨e.modifier, rfl, hzero⟩, ?_, ?_⟩
    · intro hsecond
      simp [EntryV0.stored, EntryV0.texts, hzero.2 hsecond]
    · intro hsecond
      have hmodifier : e.modifier ≠ 0 := fun h => hsecond (hzero.1 h)
      simp [EntryV0.stored, EntryV0.texts, hmodifier]

/-- Every function of an accepted module has its own type exactly when the module
has no storage function, or only one, whose modifier is 0 exactly if it has no
second type. -/
theorem own_types_iff (s t : Str) (m : ModuleV0) (h : getModuleV0 (m := Reader) s = .ok (m, t)) :
    ∃ entries, moduleEntriesV0 s = .ok (entries, t) ∧
      ((∀ i e, entries[i]? = some e → ∃ f, m.storage.function i = some f ∧ OwnType e f) ↔
        entries = [] ∨ ∃ e, entries = [e] ∧ (e.modifier = 0 ↔ e.hasSecondType = 0)) := by
  obtain ⟨entries, hentries, hlaid⟩ := getModuleV0_laidOut h
  refine ⟨entries, hentries, ?_⟩
  rw [hlaid]
  match entries with
  | [] => exact iff_of_true (fun i e he => by simp at he) (Or.inl rfl)
  | [e] =>
    have hfirst : laidOut [e] 0 = some (e.stored (some e.modifier)) := rfl
    constructor
    · intro hown
      obtain ⟨f, hf, htype⟩ := hown 0 e rfl
      rw [hfirst] at hf
      cases hf
      exact Or.inr ⟨e, rfl, (ownType_stored_iff e).1 htype⟩
    · rintro (hnil | ⟨_, hsame, hzero⟩)
      · cases hnil
      · cases hsame
        intro i e' he'
        cases i with
        | zero =>
          cases he'
          exact ⟨_, hfirst, (ownType_stored_iff e).2 hzero⟩
        | succ i => simp at he'
  | e :: e' :: rest =>
    apply iff_of_false
    · intro hown
      obtain ⟨f, hf, ⟨typeName, hname, -⟩, -⟩ := hown 1 e' rfl
      cases hf
      cases hname
    · rintro (hnil | ⟨_, hsame, -⟩)
      · cases hnil
      · cases hsame

section Samples

def storageModule (count : String) (functions : List String) : Str :=
  (["0441", "0441", "0441", "00", "01", "0441", count] ++
    functions.flatMap fun f => ["0478", f, "00", "00"]).flatMap lit

def optionalMap : Str := storageModule "04" ["010104610462"]

def plainAndMap : Str := storageModule "08" ["00000461", "010104610462"]

end Samples

theorem own_types_iff_optionalMap : ∃ m entries,
    getModuleV0 (m := Reader) optionalMap = .ok (m, []) ∧ moduleEntriesV0 optionalMap = .ok (entries, []) ∧
      entries.map (fun e => (e.modifier, e.hasSecondType)) = [(1, 1)] ∧
      ∀ i e, entries[i]? = some e → ∃ f, m.storage.function i = some f ∧ OwnType e f := by
  have hread : (getModuleV0 (m := Reader) optionalMap).map Prod.snd = .ok [] := by decide +kernel
  have hbytes : (moduleEntriesV0 optionalMap).map
      (fun r => r.1.map fun e => (e.modifier, e.hasSecondType)) = .ok [(1, 1)] := by decide +kernel
  obtain ⟨⟨m, t⟩, hm, rfl⟩ := except_map_eq_ok hread
  obtain ⟨entries, hentries, hiff⟩ := own_types_iff _ _ m hm
  rw [hentries] at hbytes
  have hpairs : entries.map (fun e => (e.modifier, e.hasSecondType)) = [(1, 1)] :=
    Except.ok.inj hbytes
  obtain ⟨e, rest, rfl, he, hrest⟩ := List.map_eq_cons_iff.1 hpairs
  obtain rfl := List.map_eq_nil_iff.1 hrest
  refine ⟨m, [e], hm, hentries, hpairs, hiff.2 (Or.inr ⟨e, rfl, ?_⟩)⟩
  rw [(Prod.mk.inj he).1, (Prod.mk.inj he).2]

/-- The map's modifier becomes the type name of the plain value, and the map gets
none. -/
theorem own_types_fails :
    ¬ ∀ s t m entries, getModuleV0 (m := Reader) s = .ok (m, t) → moduleEntriesV0 s = .ok (entries, t) →
      ∀ i e, entries[i]? = some e → ∃ f, m.storage.function i = some f ∧ OwnType e f := by
  intro hall
  have hname : (getModuleV0 (m := Reader) plainAndMap).map
      (fun r => (r.1.storage.function 0).map fun f => f.type.typeName) = .ok (some (some 1)) := by
    decide +kernel
  have hbytes : (moduleEntriesV0 plainAndMap).map
      (fun r => r.1.map fun e => e.hasSecondType) = .ok [0, 1] := by decide +kernel
  obtain ⟨⟨m, t⟩, hm, hname⟩ := except_map_eq_ok hname
  obtain ⟨entries, hentries, -⟩ := getModuleV0_laidOut hm
  rw [hentries] at hbytes
  obtain ⟨e, rest, rfl, he, -⟩ := List.map_eq_cons_iff.1 (Except.ok.inj hbytes)
  obtain ⟨f, hf, ⟨typeName, hf', hzero⟩, -⟩ := hall _ _ m _ hm hentries 0 e rfl
  dsimp only at hname
  rw [hf, Option.map_some, hf'] at hname
  cases hname
  exact absurd (hzero.2 he) (by decide)

end PolkadotApi.StorageTypesV0
