import PolkadotApi.ExtrinsicFaults
import PolkadotApi.MethodSearch

set_option autoImplicit false

namespace PolkadotApi.MissingNames
open StreamReader MachineModel ScaleCodec ScaleRoundTrip AddressCodec Converters MetadataFormats
open MetadataFactory MetadataLookup ExtrinsicSubmission ExtrinsicAgreement ExtrinsicFaults
open MethodSearch

section Tables

def present (md : Metadata) (i : ℕ) : Bool :=
  (firstVersion md i (fun _ _ => ()) (fun _ _ => ()) (fun _ _ => ()) (fun _ _ => ())
    (fun _ _ => ())).isSome

def modulesOf (md : Metadata) : ℕ := ((List.range COLLECTION_SIZE).filter (present md)).length

def callNameV0 (m : ModuleV0) : Slots Str := fun i =>
  (m.module.call.fn1 i).map FunctionCallV0.name

def callsOf (md : Metadata) (k : ℕ) : List Str :=
  (firstVersion md k (fun _ m => namesIn (callNameV0 m)) (fun _ m => namesIn (callName .v4 m))
    (fun _ m => namesIn (callName .v5 m)) (fun _ m => namesIn (callName .v6 m))
    (fun _ m => namesIn (callName .v7 m))).getD []

/-- Module `i` has the name; a module without a name is never looked at. -/
def Named (md : Metadata) (nameLower : Str) (i : ℕ) : Prop :=
  nameAt md i ≠ [] ∧ lower (nameAt md i) = nameLower

def IsFirst (md : Metadata) (nameLower : Str) (k : ℕ) : Prop :=
  Named md nameLower k ∧ ∀ j < k, ¬ Named md nameLower j

/-- There is no module with the name, or the first one has no such call. -/
def Missing (md : Metadata) (module method : Str) : Prop :=
  ∀ k < COLLECTION_SIZE, IsFirst md (lower module) k →
    ∀ text ∈ callsOf md k, lower text ≠ lower method

instance (md : Metadata) (nameLower : Str) (i : ℕ) : Decidable (Named md nameLower i) :=
  inferInstanceAs (Decidable (_ ∧ _))

instance (md : Metadata) (nameLower : Str) (k : ℕ) : Decidable (IsFirst md nameLower k) :=
  inferInstanceAs (Decidable (_ ∧ ∀ j < k, ¬ Named md nameLower j))

instance (md : Metadata) (module method : Str) : Decidable (Missing md module method) :=
  inferInstanceAs (Decidable (∀ k < COLLECTION_SIZE, IsFirst md (lower module) k →
    ∀ text ∈ callsOf md k, lower text ≠ lower method))

/-- The search for the module can ask each module it looks at whether it has
methods; only version 0 metadata can fail to answer. -/
def Scans (md : Metadata) (nameLower : Str) : Prop :=
  ∀ j < COLLECTION_SIZE, (∀ l < j, ¬ Named md nameLower l) → nameAt md j ≠ [] →
    ∃ methods, hasMethods md j = .ok methods

/-- Neither search reads an item that is not there, although the call is missing:
there are no modules at all, or the module has a call for each module. -/
def LookupsEnd (md : Metadata) (module : Str) : Prop :=
  Scans md (lower module) ∧ (modulesOf md = 0 ∨
    ∃ k < COLLECTION_SIZE, IsFirst md (lower module) k ∧ modulesOf md ≤ (callsOf md k).length)

end Tables

section Modules

variable {md : Metadata} {nameLower : Str} {skip : Bool}

theorem round_unnamed (rounds count : ℕ) {i : ℕ} (h : nameAt md i = []) :
    moduleIndexFrom md nameLower skip (rounds + 1) i count =
      moduleIndexFrom md nameLower skip rounds (i + 1) count := by
  rw [moduleIndexFrom, h]
  exact if_neg (by simp)

theorem round_named (rounds count : ℕ) {i : ℕ} (h : Named md nameLower i) :
    moduleIndexFrom md nameLower skip (rounds + 1) i count =
      (hasMethods md i >>= fun methods =>
        .ok (if skip then (i : ℤ) - (if methods then count else count + 1 : ℕ) else i)) := by
  rw [moduleIndexFrom, if_pos (by simpa using h.1)]
  simp only [h.2.symm, if_true]
  rfl

theorem round_passed (rounds count : ℕ) {i : ℕ} (hname : nameAt md i ≠ [])
    (h : ¬ Named md nameLower i) :
    moduleIndexFrom md nameLower skip (rounds + 1) i count =
      (hasMethods md i >>= fun methods =>
        moduleIndexFrom md nameLower skip rounds (i + 1) (if methods then count else count + 1)) := by
  have hother : nameLower ≠ lower (nameAt md i) := fun heq => h ⟨hname, heq.symm⟩
  rw [moduleIndexFrom, if_pos (by simpa using hname)]
  simp only [hother, if_false]

def ScansFrom (md : Metadata) (nameLower : Str) (i n : ℕ) : Prop :=
  ∀ j, i ≤ j → j < i + n → (∀ l, i ≤ l → l < j → ¬ Named md nameLower l) → nameAt md j ≠ [] →
    ∃ methods, hasMethods md j = .ok methods

theorem scansFrom_succ {i n : ℕ} :
    ScansFrom md nameLower i (n + 1) ↔
      (nameAt md i ≠ [] → ∃ methods, hasMethods md i = .ok methods) ∧
        (¬ Named md nameLower i → ScansFrom md nameLower (i + 1) n) := by
  constructor
  · intro h
    refine ⟨h i le_rfl (by omega) fun l hl hlt => by omega, ?_⟩
    intro hother j hj hlt hbefore
    refine h j (by omega) (by omega) fun l hl hlj => ?_
    rcases Nat.eq_or_lt_of_le hl with rfl | hgt
    · exact hother
    · exact hbefore l hgt hlj
  · rintro ⟨hhere, hlater⟩ j hj hlt hbefore
    rcases Nat.eq_or_lt_of_le hj with rfl | hgt
    · exact hhere
    · exact hlater (hbefore i le_rfl hgt) j hgt (by omega) fun l hl => hbefore l (by omega)

/-- The search for a module ends exactly if each module that it looks at can be asked
for its methods. -/
theorem moduleIndexFrom_ok_iff (rounds i count : ℕ) :
    (∃ index, moduleIndexFrom md nameLower skip rounds i count = .ok index) ↔
      ScansFrom md nameLower i rounds := by
  induction rounds generalizing i count with
  | zero => exact iff_of_true ⟨-1, rfl⟩ fun j hj hlt => by omega
  | succ rounds ih =>
    rw [scansFrom_succ]
    by_cases hname : nameAt md i = []
    · have hother : ¬ Named md nameLower i := fun h => h.1 hname
      rw [round_unnamed _ _ hname, ih]
      exact ⟨fun h => ⟨absurd hname, fun _ => h⟩, fun h => h.2 hother⟩
    cases hmethods : hasMethods md i with
    | error e =>
      have herror : moduleIndexFrom md nameLower skip (rounds + 1) i count = .error e := by
        by_cases hmatch : Named md nameLower i
        · rw [round_named _ _ hmatch, hmethods]
          rfl
        · rw [round_passed _ _ hname hmatch, hmethods]
          rfl
      rw [herror]
      simp [hname]
    | ok methods =>
      by_cases hmatch : Named md nameLower i
      · rw [round_named _ _ hmatch, hmethods]
        exact iff_of_true ⟨_, rfl⟩ ⟨fun _ => ⟨methods, rfl⟩, absurd hmatch⟩
      · rw [round_passed _ _ hname hmatch, hmethods, except_ok_bind, ih]
        exact ⟨fun h => ⟨fun _ => ⟨methods, rfl⟩, fun _ => h⟩, fun h => h.2 hmatch⟩

theorem moduleIndexFrom_value {rounds i count : ℕ} {index : ℤ}
    (h : moduleIndexFrom md nameLower false rounds i count = .ok index) :
    (∃ k : ℕ, index = (k : ℤ) ∧ i ≤ k ∧ k < i + rounds ∧ Named md nameLower k ∧
      ∀ j, i ≤ j → j < k → ¬ Named md nameLower j) ∨
    index = -1 ∧ ∀ j, i ≤ j → j < i + rounds → ¬ Named md nameLower j := by
  induction rounds generalizing i count with
  | zero =>
    cases h
    exact Or.inr ⟨rfl, fun j hj hlt => by omega⟩
  | succ rounds ih =>
    have hlater : ∀ count, ¬ Named md nameLower i →
        moduleIndexFrom md nameLower false rounds (i + 1) count = .ok index →
          (∃ k : ℕ, index = (k : ℤ) ∧ i ≤ k ∧ k < i + (rounds + 1) ∧ Named md nameLower k ∧
            ∀ j, i ≤ j → j < k → ¬ Named md nameLower j) ∨
          index = -1 ∧ ∀ j, i ≤ j → j < i + (rounds + 1) → ¬ Named md nameLower j := by
      intro count hno hnext
      have hcons : ∀ j, i ≤ j → (i + 1 ≤ j → ¬ Named md nameLower j) → ¬ Named md nameLower j := by
        intro j hj hafter
        rcases Nat.eq_or_lt_of_le hj with rfl | hgt
        · exact hno
        · exact hafter hgt
      rcases ih hnext with ⟨k, rfl, hk, hlt, hnamed, hbefore⟩ | ⟨rfl, hnone⟩
      · exact Or.inl ⟨k, rfl, by omega, by omega, hnamed,
          fun j hj hjk => hcons j hj fun hj' => hbefore j hj' hjk⟩
      · exact Or.inr ⟨rfl, fun j hj hlt => hcons j hj fun hj' => hnone j hj' (by omega)⟩
    by_cases hname : nameAt md i = []
    · rw [round_unnamed _ _ hname] at h
      exact hlater _ (fun hnamed => hnamed.1 hname) h
    by_cases hmatch : Named md nameLower i
    · rw [round_named _ _ hmatch] at h
      obtain ⟨methods, -, h⟩ := except_bind_eq_ok h
      cases h
      exact Or.inl ⟨i, rfl, le_rfl, by omega, hmatch, fun j hj hlt => by omega⟩
    · rw [round_passed _ _ hname hmatch] at h
      obtain ⟨methods, -, h⟩ := except_bind_eq_ok h
      exact hlater _ hmatch h

theorem getModuleIndex_ok_iff (module : Str) (skip : Bool) :
    (∃ index, getModuleIndex md module skip = .ok index) ↔ Scans md (lower module) := by
  rw [getModuleIndex, moduleIndexFrom_ok_iff]
  simp only [ScansFrom, Nat.zero_le, Nat.zero_add, true_implies]
  rfl

theorem getModuleIndex_value {module : Str} {index : ℤ}
    (h : getModuleIndex md module false = .ok index) :
    (∃ k < COLLECTION_SIZE, index = (k : ℤ) ∧ IsFirst md (lower module) k) ∨
      index = -1 ∧ ∀ k < COLLECTION_SIZE, ¬ Named md (lower module) k := by
  rcases moduleIndexFrom_value h with ⟨k, hk, -, hlt, hnamed, hbefore⟩ | ⟨hindex, hnone⟩
  · exact Or.inl ⟨k, by omega, hk, hnamed, fun j hj => hbefore j (Nat.zero_le j) hj⟩
  · exact Or.inr ⟨hindex, fun k hk => hnone k (Nat.zero_le k) (by omega)⟩

end Modules

section Calls

variable {md : Metadata}

structure Searchable (md : Metadata) : Prop where
  room : modulesOf md ≤ COLLECTION_SIZE
  first : 0 < modulesOf md → present md 0
  none : modulesOf md = 0 → ∀ i, present md i = false
  reads : ∀ k, nameAt md k ≠ [] → Reads (callNameAt md k) (modulesOf md) (callsOf md k)

theorem firstVersion_const {α : Type} (md : Metadata) (i : ℕ) (c : α) :
    firstVersion md i (fun _ _ => c) (fun _ _ => c) (fun _ _ => c) (fun _ _ => c) (fun _ _ => c) =
      if present md i then some c else none := by
  have hmap : firstVersion md i (fun _ _ => c) (fun _ _ => c) (fun _ _ => c) (fun _ _ => c)
      (fun _ _ => c) = (firstVersion md i (fun _ _ => ()) (fun _ _ => ()) (fun _ _ => ())
        (fun _ _ => ()) (fun _ _ => ())).map fun _ => c := by
    simp [firstVersion, Option.map_or, Option.map_bind, Function.comp_def]
  rw [hmap, present]
  cases firstVersion md i (fun _ _ => ()) (fun _ _ => ()) (fun _ _ => ()) (fun _ _ => ())
    (fun _ _ => ()) <;> rfl

/-- With the index of a missing module the first round that has a module reads
outside the array. -/
theorem callNameAt_missing (md : Metadata) (i : ℕ) :
    callNameAt md (-1) i = if present md i then .error .undefined else .ok [] := by
  change (firstVersion md i (fun _ _ => Except.error Fault.undefined)
    (fun _ _ => Except.error Fault.undefined) (fun _ _ => Except.error Fault.undefined)
    (fun _ _ => Except.error Fault.undefined) (fun _ _ => Except.error Fault.undefined)).getD _ = _
  rw [firstVersion_const]
  split_ifs <;> rfl

theorem length_filter_lt (n m : ℕ) :
    ((List.range m).filter fun i => decide (i < n)).length = min m n := by
  induction m with
  | zero => simp
  | succ m ih =>
    rw [List.range_succ, List.filter_append, List.length_append, ih]
    by_cases h : m < n
    · simp [h]
      omega
    · simp [h]
      omega

theorem modulesOf_eq {n : ℕ} (hn : n ≤ COLLECTION_SIZE) (h : ∀ i, present md i ↔ i < n) :
    modulesOf md = n := by
  have hpresent : present md = fun i => decide (i < n) := by
    funext i
    rw [Bool.eq_iff_iff, h i, decide_eq_true_iff]
  rw [modulesOf, hpresent, length_filter_lt, Nat.min_eq_right hn]

theorem searchable_of {n : ℕ} (hn : n ≤ COLLECTION_SIZE) (hpresent : ∀ i, present md i ↔ i < n)
    (hreads : ∀ k, nameAt md k ≠ [] → Reads (callNameAt md k) n (callsOf md k)) :
    Searchable md := by
  have hcount := modulesOf_eq hn hpresent
  refine ⟨hcount ▸ hn, ?_, ?_, hcount ▸ hreads⟩
  · intro hpos
    exact (hpresent 0).2 (by omega)
  · intro hzero i
    have hno : ¬ present md i := fun h => by
      have := (hpresent i).1 h
      omega
    simpa using hno

theorem present_only (layout : Layout) (m : MD layout.Carrier) (i : ℕ) :
    present (only layout m) i = (m.module i).isSome := by
  cases layout <;> simp [present, firstVersion, only]

theorem callsOf_only (layout : Layout) (md : MD layout.Carrier) {k : ℕ} {m : layout.Carrier}
    (hm : md.module k = some m) : callsOf (only layout md) k = namesIn (callName layout m) := by
  cases layout <;> simp [callsOf, firstVersion, only, hm]

theorem searchable_only {layout : Layout} {blob : Str} {md : MD layout.Carrier}
    (h : fillMetadata layout.body blob = .ok md) : Searchable (only layout md) := by
  obtain ⟨hcap, hpresent, hlisted⟩ := fill_modules h
  apply searchable_of hcap
  · intro i
    rw [present_only]
    exact hpresent i
  · intro k hname
    rw [nameAt_only] at hname
    cases hm : md.module k with
    | none => simp [hm] at hname
    | some m =>
      rw [callsOf_only layout md hm]
      exact reads_of_listed (hlisted k m hm).2 hpresent (callNameAt_only layout md hm)

theorem scans_only (layout : Layout) (m : MD layout.Carrier) (nameLower : Str) :
    Scans (only layout m) nameLower := by
  intro j _ _ _
  exact ⟨_, hasMethods_only layout m j⟩

end Calls

section VersionZero

def callItemV0 : Reader FunctionCallV0 := do
  let id ← nextWord
  let name ← readText
  let argsCount ← decodeCompactInteger
  let args ← forCount (asInt argsCount) functionArgV0 Slots.empty
  let docCount ← decodeCompactInteger
  let documentation ← storeEach COLLECTION_SIZE (asInt docCount) readText
  return ⟨id, name, args, documentation⟩

theorem functionCallV0_storesItem : StoresItem COLLECTION_SIZE callItemV0 functionCallV0 := by
  intro i slots s next t
  constructor
  · intro h
    obtain ⟨id, _, hid, h₁⟩ := bind_eq_ok h
    obtain ⟨_, _, hinside, h₂⟩ := bind_eq_ok h₁
    obtain ⟨hcap, rfl⟩ := inside_eq_ok hinside
    obtain ⟨name, _, hname, h⟩ := bind_eq_ok h₂
    obtain ⟨_, _, hargsCount, h⟩ := bind_eq_ok h
    obtain ⟨args, _, hargs, h⟩ := bind_eq_ok h
    obtain ⟨_, _, hdocCount, h⟩ := bind_eq_ok h
    obtain ⟨documentation, _, hdocs, h⟩ := bind_eq_ok h
    obtain ⟨rfl, rfl⟩ := pure_eq_ok h
    refine ⟨⟨id, name, args, documentation⟩, ?_, hcap, rfl⟩
    rw [callItemV0, bind_ok hid, bind_ok hname, bind_ok hargsCount, bind_ok hargs,
      bind_ok hdocCount, bind_ok hdocs]
    rfl
  · rintro ⟨x, hx, hcap, rfl⟩
    obtain ⟨id, u, hid, hx⟩ := bind_eq_ok hx
    obtain ⟨name, _, hname, hx⟩ := bind_eq_ok hx
    obtain ⟨_, _, hargsCount, hx⟩ := bind_eq_ok hx
    obtain ⟨args, _, hargs, hx⟩ := bind_eq_ok hx
    obtain ⟨_, _, hdocCount, hx⟩ := bind_eq_ok hx
    obtain ⟨documentation, _, hdocs, hx⟩ := bind_eq_ok hx
    obtain ⟨rfl, rfl⟩ := pure_eq_ok hx
    rw [functionCallV0, bind_ok hid, bind_ok (inside_ok hcap u), bind_ok hname,
      bind_ok hargsCount, bind_ok hargs, bind_ok hdocCount, bind_ok hdocs]
    rfl

theorem getModuleV0_listed {m : ModuleV0} {s t : Str}
    (h : getModuleV0 (m := Reader) s = .ok (m, t)) :
    Listed (callNameV0 m) := by
  obtain ⟨_, _, -, h⟩ := bind_eq_ok h
  obtain ⟨_, _, -, h⟩ := bind_eq_ok h
  obtain ⟨_, _, -, h⟩ := bind_eq_ok h
  obtain ⟨_, _, -, h⟩ := bind_eq_ok h
  obtain ⟨fn1, _, hfn1, h⟩ := bind_eq_ok h
  obtain ⟨_, _, -, h⟩ := bind_eq_ok h
  obtain ⟨rfl, -⟩ := pure_eq_ok h
  obtain ⟨xs, -, -, hcap, rfl⟩ := (forCount_stores_iff functionCallV0_storesItem _ _ _ _).1 hfn1
  refine ⟨xs.map FunctionCallV0.name, by simpa using hcap, ?_⟩
  funext i
  simp [callNameV0, Slots.ofList]

theorem fillV0_modules {blob : Str} {m : MDV0} (h : fillV0Metadata blob = .ok m) :
    ∃ ms, ms.length ≤ COLLECTION_SIZE ∧ m.module = Slots.ofList ms ∧
      ∀ x ∈ ms, Listed (callNameV0 x) := by
  obtain ⟨⟨m', t⟩, hread, rfl⟩ := except_map_eq_ok h
  obtain ⟨_, _, -, h⟩ := bind_eq_ok hread
  obtain ⟨_, _, -, h⟩ := bind_eq_ok h
  obtain ⟨_, _, -, h⟩ := bind_eq_ok h
  obtain ⟨_, _, -, h⟩ := bind_eq_ok h
  obtain ⟨module, _, hmodule, h⟩ := bind_eq_ok h
  obtain ⟨_, _, -, h⟩ := bind_eq_ok h
  obtain ⟨_, _, -, h⟩ := bind_eq_ok h
  obtain ⟨_, _, -, h⟩ := bind_eq_ok h
  obtain ⟨rfl, -⟩ := pure_eq_ok h
  obtain ⟨ms, hreads, -, hcap, rfl⟩ := (storeEach_eq_ok_iff _ _ _ _ _ _).1 hmodule
  exact ⟨ms, hcap, rfl, hreads.forall_of_item fun _ _ _ hx => getModuleV0_listed hx⟩

theorem callNameAt_V0 (m : MDV0) {k : ℕ} {x : ModuleV0} (hx : m.module k = some x) (i : ℕ) :
    callNameAt { metadataV0 := some m } k i =
      if (m.module i).isSome then deref (callNameV0 x i) else .ok [] := by
  have hat := moduleAt_of_some hx
  have hname : FunctionCallV0.name <$> deref (x.module.call.fn1 i) = deref (callNameV0 x i) := by
    rw [callNameV0]
    cases x.module.call.fn1 i <;> rfl
  cases h : m.module i <;> simp [callNameAt, firstVersion, h, hat, except_ok_bind, hname]

theorem searchable_V0 {blob : Str} {m : MDV0} (h : fillV0Metadata blob = .ok m) :
    Searchable { metadataV0 := some m } := by
  obtain ⟨ms, hcap, hmodule, hlisted⟩ := fillV0_modules h
  have hpresent : ∀ i, (m.module i).isSome ↔ i < ms.length := by
    intro i
    rw [hmodule]
    simp [Slots.ofList]
  apply searchable_of hcap
  · intro i
    have hsame : present { metadataV0 := some m } i = (m.module i).isSome := by
      simp [present, firstVersion]
    rw [hsame]
    exact hpresent i
  · intro k hname
    cases hx : m.module k with
    | none => simp [nameAt, firstVersion, hx] at hname
    | some x =>
      have hmem : x ∈ ms := by
        rw [hmodule] at hx
        exact List.mem_of_getElem? hx
      have hcalls : callsOf { metadataV0 := some m } k = namesIn (callNameV0 x) := by
        simp [callsOf, firstVersion, hx]
      rw [hcalls]
      exact reads_of_listed (hlisted x hmem) hpresent (callNameAt_V0 m hx)

end VersionZero

inductive Parsed : Metadata → Prop where
  | v0 {blob : Str} {m : MDV0} (h : fillV0Metadata blob = .ok m) : Parsed { metadataV0 := some m }
  | later {layout : Layout} {blob : Str} {md : MD layout.Carrier}
      (h : fillMetadata layout.body blob = .ok md) : Parsed (only layout md)

theorem number_mem_detected (md : Metadata) (layout : Layout) :
    layout.number ∈ detected md ↔ MetadataFactory.present md layout := by
  have hzero : layout.number ≠ 0 := by cases layout <;> decide
  have hlayout : layout ∈ [Layout.v4, .v5, .v6, .v7] := by cases layout <;> decide
  have hfirst : layout.number ∉ (if md.metadataV0.isSome then [0] else [] : List UInt8) := by
    split_ifs <;> simp [hzero]
  rw [detected, List.mem_append, or_iff_right hfirst, List.mem_map_of_injective number_injective,
    List.mem_filter, and_iff_right hlayout]

theorem only_of_present {md : Metadata} {layout : Layout} (hzero : md.metadataV0 = none)
    (h : ∀ l : Layout, MetadataFactory.present md l ↔ l = layout) : ∃ m, md = only layout m := by
  obtain ⟨v0, v4, v5, v6, v7⟩ := md
  have hv4 : v4.isSome ↔ Layout.v4 = layout := h .v4
  have hv5 : v5.isSome ↔ Layout.v5 = layout := h .v5
  have hv6 : v6.isSome ↔ Layout.v6 = layout := h .v6
  have hv7 : v7.isSome ↔ Layout.v7 = layout := h .v7
  obtain rfl : v0 = none := hzero
  cases layout <;>
    simp only [reduceCtorEq, iff_false, iff_true, Option.not_isSome_iff_eq_none] at hv4 hv5 hv6 hv7
  · obtain ⟨m, rfl⟩ := Option.isSome_iff_exists.1 hv4
    exact ⟨m, by rw [hv5, hv6, hv7]; rfl⟩
  · obtain ⟨m, rfl⟩ := Option.isSome_iff_exists.1 hv5
    exact ⟨m, by rw [hv4, hv6, hv7]; rfl⟩
  · obtain ⟨m, rfl⟩ := Option.isSome_iff_exists.1 hv6
    exact ⟨m, by rw [hv4, hv5, hv7]; rfl⟩
  · obtain ⟨m, rfl⟩ := Option.isSome_iff_exists.1 hv7
    exact ⟨m, by rw [hv4, hv5, hv6]; rfl⟩

theorem parsed_of_detected {text : Str} {md : Metadata} {layout : Layout}
    (h : createMetadata text = .ok md) (hdetected : detected md = [layout.number]) : Parsed md := by
  have hpresent : ∀ l : Layout, MetadataFactory.present md l ↔ l = layout := by
    intro l
    rw [← number_mem_detected, hdetected, List.mem_singleton, number_injective.eq_iff]
  have hzero : md.metadataV0 = none := by
    cases hv0 : md.metadataV0 with
    | none => rfl
    | some m =>
      have hmem : (0 : UInt8) ∈ detected md := by simp [detected, hv0]
      rw [hdetected, List.mem_singleton] at hmem
      cases layout <;> exact absurd hmem (by decide)
  obtain ⟨m, rfl⟩ := only_of_present hzero hpresent
  obtain ⟨-, h4, h5, h6, h7⟩ := createMetadata_eq_ok h
  cases layout with
  | v4 => exact .later ((h4 m).1 rfl)
  | v5 => exact .later ((h5 m).1 rfl)
  | v6 => exact .later ((h6 m).1 rfl)
  | v7 => exact .later ((h7 m).1 rfl)

theorem Parsed.searchable {md : Metadata} (h : Parsed md) : Searchable md := by
  cases h with
  | v0 h => exact searchable_V0 h
  | later h => exact searchable_only h

section Header

variable {md : Metadata} {module method : Str}

theorem IsFirst.unique {nameLower : Str} {k k' : ℕ} (h : IsFirst md nameLower k)
    (h' : IsFirst md nameLower k') : k = k' := by
  rcases Nat.lt_trichotomy k k' with hlt | heq | hgt
  · exact absurd h.1 (h'.2 k hlt)
  · exact heq
  · exact absurd h'.1 (h.2 k' hgt)

theorem search_call_ok_iff (hsearch : Searchable md) (hmissing : Missing md module method) {k : ℕ}
    (hk : k < COLLECTION_SIZE) (hfirst : IsFirst md (lower module) k) :
    (∃ index, getCallMethodIndex md k method = .ok index) ↔ modulesOf md ≤ (callsOf md k).length := by
  have hreads := hsearch.reads k hfirst.1.1
  have hposition := position_eq_none_iff.2 (hmissing k hk hfirst)
  constructor
  · rintro ⟨index, hindex⟩
    by_contra hless
    rw [getCallMethodIndex, search_null hreads (by omega) hsearch.room hposition] at hindex
    cases hindex
  · intro hlong
    rw [getCallMethodIndex, search_past hreads hlong hsearch.room fun i _ text htext =>
      position_eq_none_iff.1 hposition text (List.mem_of_getElem? htext)]
    exact ⟨_, rfl⟩

theorem search_nothing_ok_iff (hsearch : Searchable md) :
    (∃ index, getCallMethodIndex md (-1) method = .ok index) ↔ modulesOf md = 0 := by
  constructor
  · rintro ⟨index, hindex⟩
    by_contra hpos
    have hnull : callNameAt md (-1) 0 = .error .undefined := by
      rw [callNameAt_missing, if_pos (hsearch.first (by omega))]
    rw [getCallMethodIndex, COLLECTION_SIZE, methodIndexFrom_null hnull] at hindex
    cases hindex
  · intro hzero
    have hreads : Reads (callNameAt md (-1)) 0 [] := by
      intro i
      rw [callNameAt_missing, hsearch.none hzero i]
      simp
    rw [getCallMethodIndex, search_past hreads (Nat.zero_le _) (Nat.zero_le _) fun i hi => by omega]
    exact ⟨_, rfl⟩

theorem methodHeader_ok_iff_lookups :
    (∃ mm, methodHeader md module method = .ok mm) ↔
      ∃ absoluteIndex, getModuleIndex md module false = .ok absoluteIndex ∧
        (∃ moduleIndex, getModuleIndex md module true = .ok moduleIndex) ∧
        ∃ methodIndex, getCallMethodIndex md absoluteIndex method = .ok methodIndex := by
  constructor
  · rintro ⟨mm, h⟩
    obtain ⟨absoluteIndex, habsolute, h⟩ := except_bind_eq_ok h
    obtain ⟨moduleIndex, hindex, h⟩ := except_bind_eq_ok h
    obtain ⟨methodIndex, hmethod, -⟩ := except_bind_eq_ok h
    exact ⟨absoluteIndex, habsolute, ⟨moduleIndex, hindex⟩, methodIndex, hmethod⟩
  · rintro ⟨absoluteIndex, habsolute, ⟨moduleIndex, hindex⟩, methodIndex, hmethod⟩
    rw [methodHeader, habsolute, except_ok_bind, hindex, except_ok_bind, hmethod]
    exact ⟨_, rfl⟩

/-- The header of a missing call is made exactly if the lookups come to an end. -/
theorem methodHeader_ok_iff (hsearch : Searchable md) (hmissing : Missing md module method) :
    (∃ mm, methodHeader md module method = .ok mm) ↔ LookupsEnd md module := by
  rw [methodHeader_ok_iff_lookups]
  constructor
  · rintro ⟨absoluteIndex, habsolute, -, hmethod⟩
    refine ⟨(getModuleIndex_ok_iff module false).1 ⟨_, habsolute⟩, ?_⟩
    rcases getModuleIndex_value habsolute with ⟨k, hk, rfl, hfirst⟩ | ⟨rfl, -⟩
    · exact Or.inr ⟨k, hk, hfirst, (search_call_ok_iff hsearch hmissing hk hfirst).1 hmethod⟩
    · exact Or.inl ((search_nothing_ok_iff hsearch).1 hmethod)
  · rintro ⟨hscans, hend⟩
    obtain ⟨absoluteIndex, habsolute⟩ := (getModuleIndex_ok_iff module false).2 hscans
    refine ⟨absoluteIndex, habsolute, (getModuleIndex_ok_iff module true).2 hscans, ?_⟩
    rcases getModuleIndex_value habsolute with ⟨k, hk, rfl, hfirst⟩ | ⟨rfl, hnone⟩
    · apply (search_call_ok_iff hsearch hmissing hk hfirst).2
      rcases hend with hzero | ⟨k', -, hfirst', hlong⟩
      · omega
      · rwa [hfirst.unique hfirst']
    · rcases hend with hzero | ⟨k, hk, hfirst, -⟩
      · exact (search_nothing_ok_iff hsearch).2 hzero
      · exact absurd hfirst.1 (hnone k hk)

end Header

end PolkadotApi.MissingNames
