import PolkadotApi.StorageKeys

set_option autoImplicit false

/-!
Both searches run over 64 slots. Whether round `i` looks at a name at all depends
on whether there is a module `i`; the name is then that of item `i`. So the number
of modules bounds how many items are compared, and an item is read in every round
below it, whether there is one or not.
-/
namespace PolkadotApi.MethodSearch
open StreamReader MachineModel MetadataFormats MetadataFactory MetadataLookup StorageKeys

section Search

variable {name : ℕ → Result Str} {modules : ℕ} {names : List Str} {funcNameLower : Str}

/-- Round `i` reads name `i` while there is a module `i`, and the empty name then. -/
def Reads (name : ℕ → Result Str) (modules : ℕ) (names : List Str) : Prop :=
  ∀ i, name i = if i < modules then deref names[i]? else .ok []

theorem Reads.item (h : Reads name modules names) {i : ℕ} {text : Str} (hi : i < modules)
    (htext : names[i]? = some text) : name i = .ok text := by
  rw [h i, if_pos hi, htext]
  rfl

def position (names : List Str) (funcNameLower : Str) : Option ℕ :=
  names.findIdx? fun text => lower text = funcNameLower

theorem position_eq_some_iff {j : ℕ} :
    position names funcNameLower = some j ↔
      (∃ text, names[j]? = some text ∧ lower text = funcNameLower) ∧
        ∀ i < j, ∀ text, names[i]? = some text → lower text ≠ funcNameLower := by
  rw [position, List.findIdx?_eq_some_iff_getElem]
  constructor
  · rintro ⟨hj, hmatch, hbefore⟩
    refine ⟨⟨names[j], List.getElem?_eq_getElem hj, by simpa using hmatch⟩, ?_⟩
    intro i hi text htext
    obtain ⟨hlt, rfl⟩ := List.getElem?_eq_some_iff.1 htext
    simpa using hbefore i hi
  · rintro ⟨⟨text, htext, hmatch⟩, hbefore⟩
    obtain ⟨hj, rfl⟩ := List.getElem?_eq_some_iff.1 htext
    refine ⟨hj, by simpa using hmatch, ?_⟩
    intro i hi
    simpa using hbefore i hi _ (List.getElem?_eq_getElem (by omega))

theorem position_eq_none_iff :
    position names funcNameLower = none ↔ ∀ text ∈ names, lower text ≠ funcNameLower := by
  simp [position, List.findIdx?_eq_none_iff]

theorem methodIndexFrom_skip {k i rounds : ℕ}
    (h : ∀ j, i ≤ j → j < i + k → ∃ text, name j = .ok text ∧ lower text ≠ funcNameLower) :
    methodIndexFrom name funcNameLower (k + rounds) i =
      methodIndexFrom name funcNameLower rounds (i + k) := by
  induction k generalizing i with
  | zero => rw [Nat.zero_add, Nat.add_zero]
  | succ k ih =>
    obtain ⟨text, htext, hne⟩ := h i le_rfl (by omega)
    have hrest := ih (i := i + 1) fun j hj hlt => h j (by omega) (by omega)
    rw [show k + 1 + rounds = k + rounds + 1 by omega, methodIndexFrom, htext, except_ok_bind,
      if_neg (Ne.symm hne), hrest]
    congr 1
    omega

theorem methodIndexFrom_hit {i rounds : ℕ} {text : Str} (htext : name i = .ok text)
    (hmatch : lower text = funcNameLower) :
    methodIndexFrom name funcNameLower (rounds + 1) i = .ok (i : ℤ) := by
  rw [methodIndexFrom, htext, except_ok_bind, if_pos hmatch.symm]
  rfl

theorem methodIndexFrom_null {i rounds : ℕ} (hnull : name i = .error .undefined) :
    methodIndexFrom name funcNameLower (rounds + 1) i = .error .undefined := by
  rw [methodIndexFrom, hnull]
  rfl

theorem Reads.differs (h : Reads name modules names) {k : ℕ} (hmodules : k ≤ modules)
    (hnames : k ≤ names.length)
    (hne : ∀ i < k, ∀ text, names[i]? = some text → lower text ≠ funcNameLower) :
    ∀ i, 0 ≤ i → i < 0 + k → ∃ text, name i = .ok text ∧ lower text ≠ funcNameLower := by
  intro i _ hi
  have hget := List.getElem?_eq_getElem (show i < names.length by omega)
  exact ⟨_, h.item (by omega) hget, hne i (by omega) _ hget⟩

theorem search_found (h : Reads name modules names) {j : ℕ} (hj : j < modules)
    (hmodules : modules ≤ COLLECTION_SIZE) (hposition : position names funcNameLower = some j) :
    methodIndexFrom name funcNameLower COLLECTION_SIZE 0 = .ok (j : ℤ) := by
  obtain ⟨⟨text, htext, hmatch⟩, hbefore⟩ := position_eq_some_iff.1 hposition
  have hlt := (List.getElem?_eq_some_iff.1 htext).1
  obtain ⟨rounds, hrounds⟩ : ∃ r, COLLECTION_SIZE = j + (r + 1) :=
    ⟨COLLECTION_SIZE - j - 1, by omega⟩
  rw [hrounds, methodIndexFrom_skip (h.differs hj.le hlt.le hbefore), Nat.zero_add]
  exact methodIndexFrom_hit (h.item hj htext) hmatch

theorem search_null (h : Reads name modules names) (hnames : names.length < modules)
    (hmodules : modules ≤ COLLECTION_SIZE) (hposition : position names funcNameLower = none) :
    methodIndexFrom name funcNameLower COLLECTION_SIZE 0 = .error .undefined := by
  have hne := position_eq_none_iff.1 hposition
  obtain ⟨rounds, hrounds⟩ : ∃ r, COLLECTION_SIZE = names.length + (r + 1) :=
    ⟨COLLECTION_SIZE - names.length - 1, by omega⟩
  have hskip := h.differs hnames.le le_rfl fun i _ text htext => hne text (List.mem_of_getElem? htext)
  rw [hrounds, methodIndexFrom_skip hskip, Nat.zero_add]
  apply methodIndexFrom_null
  rw [h, if_pos hnames, List.getElem?_eq_none le_rfl]
  rfl

/-- Behind the last module every round compares the empty name. -/
theorem search_past (h : Reads name modules names) (hnames : modules ≤ names.length)
    (hmodules : modules ≤ COLLECTION_SIZE)
    (hne : ∀ i < modules, ∀ text, names[i]? = some text → lower text ≠ funcNameLower) :
    methodIndexFrom name funcNameLower COLLECTION_SIZE 0 =
      .ok (if funcNameLower = [] ∧ modules < COLLECTION_SIZE then (modules : ℤ) else -1) := by
  obtain ⟨rounds, hrounds⟩ : ∃ r, COLLECTION_SIZE = modules + r :=
    ⟨COLLECTION_SIZE - modules, by omega⟩
  have hempty : ∀ i, modules ≤ i → name i = .ok [] := by
    intro i hi
    rw [h, if_neg (by omega)]
  rw [hrounds, methodIndexFrom_skip (h.differs le_rfl hnames hne), Nat.zero_add]
  split_ifs with hcase
  · obtain ⟨r, rfl⟩ : ∃ r, rounds = r + 1 := ⟨rounds - 1, by omega⟩
    exact methodIndexFrom_hit (hempty modules le_rfl) hcase.1.symm
  · rcases Nat.eq_zero_or_pos rounds with rfl | hpos
    · rfl
    · have hnotEmpty : ([] : Str) ≠ funcNameLower := by
        intro hnil
        exact hcase ⟨hnil.symm, by omega⟩
      have hskip : methodIndexFrom name funcNameLower (rounds + 0) modules =
          methodIndexFrom name funcNameLower 0 (modules + rounds) :=
        methodIndexFrom_skip fun i hi _ => ⟨[], hempty i hi, hnotEmpty⟩
      rw [Nat.add_zero] at hskip
      rw [hskip]
      rfl

end Search

section Outcome

variable {name : ℕ → Result Str} {modules : ℕ} {names : List Str} {funcNameLower : Str}

def firstIndex (names : List Str) (funcNameLower : Str) : ℤ :=
  match position names funcNameLower with
  | some j => j
  | none => -1

/-- The first equal name stands in front of the index `modules`, or at this index if
it is empty; or there is none, there are at least as many names as modules, and the
name looked for is not empty unless all slots for modules are taken. -/
def Covered (modules : ℕ) (names : List Str) (funcNameLower : Str) : Prop :=
  match position names funcNameLower with
  | some j => j < modules ∨ j = modules ∧ funcNameLower = []
  | none => modules ≤ names.length ∧ (funcNameLower ≠ [] ∨ modules = COLLECTION_SIZE)

theorem search_found_past (h : Reads name modules names) {j : ℕ} (hj : modules ≤ j)
    (hnames : names.length ≤ COLLECTION_SIZE) (hposition : position names funcNameLower = some j) :
    methodIndexFrom name funcNameLower COLLECTION_SIZE 0 =
      .ok (if funcNameLower = [] then (modules : ℤ) else -1) := by
  obtain ⟨⟨text, htext, -⟩, hbefore⟩ := position_eq_some_iff.1 hposition
  have hlt := (List.getElem?_eq_some_iff.1 htext).1
  have hroom : modules < COLLECTION_SIZE := by omega
  rw [search_past h (by omega) hroom.le fun i hi => hbefore i (by omega)]
  simp only [hroom, and_true]

theorem search_eq_firstIndex_iff (h : Reads name modules names)
    (hmodules : modules ≤ COLLECTION_SIZE) (hnames : names.length ≤ COLLECTION_SIZE) :
    methodIndexFrom name funcNameLower COLLECTION_SIZE 0 = .ok (firstIndex names funcNameLower) ↔
      Covered modules names funcNameLower := by
  unfold Covered firstIndex
  cases hposition : position names funcNameLower with
  | some j =>
    dsimp only
    rcases Nat.lt_or_ge j modules with hj | hj
    · exact iff_of_true (search_found h hj hmodules hposition) (Or.inl hj)
    · rw [search_found_past h hj hnames hposition, Except.ok.injEq]
      split_ifs with hempty
      · simp only [hempty, and_true]
        omega
      · apply iff_of_false
        · intro hindex
          omega
        · rintro (hlt | ⟨-, hnil⟩)
          · omega
          · exact hempty hnil
  | none =>
    dsimp only
    rcases Nat.lt_or_ge names.length modules with hlt | hge
    · rw [search_null h hlt hmodules hposition]
      exact iff_of_false (by simp) fun hc => by omega
    · have hne := position_eq_none_iff.1 hposition
      rw [search_past h hge hmodules fun i _ text htext => hne text (List.mem_of_getElem? htext),
        Except.ok.injEq]
      split_ifs with hcase
      · apply iff_of_false
        · intro hindex
          omega
        · rintro ⟨-, hno | hfull⟩
          · exact hno hcase.1
          · omega
      · refine iff_of_true rfl ⟨hge, ?_⟩
        by_contra hcontra
        push Not at hcontra
        exact hcase ⟨hcontra.1, by omega⟩

end Outcome

section Names

variable {α : Type} {name : α → Option Str}

def namesIn (names : Slots Str) : List Str := (List.range COLLECTION_SIZE).filterMap names

def Listed (names : Slots Str) : Prop :=
  ∃ xs : List Str, xs.length ≤ COLLECTION_SIZE ∧ names = Slots.ofList xs

theorem Listed.length_le {names : Slots Str} (h : Listed names) :
    (namesIn names).length ≤ COLLECTION_SIZE := by
  obtain ⟨xs, hxs, rfl⟩ := h
  rw [namesIn, filterMap_ofList, List.take_of_length_le hxs]
  exact hxs

theorem Listed.getElem? {names : Slots Str} (h : Listed names) (i : ℕ) :
    (namesIn names)[i]? = names i := by
  obtain ⟨xs, hxs, rfl⟩ := h
  rw [namesIn, filterMap_ofList, List.take_of_length_le hxs]
  rfl

theorem listed_empty : Listed Slots.empty := ⟨[], by simp, Slots.ofList_nil.symm⟩

theorem exists_names {xs : List α} (h : ∀ x ∈ xs, (name x).isSome) :
    ∃ ns : List Str, xs.map name = ns.map some := by
  induction xs with
  | nil => exact ⟨[], rfl⟩
  | cons x xs ih =>
    obtain ⟨ns, hns⟩ := ih fun y hy => h y (List.mem_cons_of_mem x hy)
    obtain ⟨n, hn⟩ := Option.isSome_iff_exists.1 (h x List.mem_cons_self)
    exact ⟨n :: ns, by rw [List.map_cons, List.map_cons, hns, hn]⟩

theorem storeEach_listed {item : Reader α} {count : ℤ} {slots : Slots α} {s t : Str}
    (hnamed : Yields item fun x => (name x).isSome)
    (h : storeEach COLLECTION_SIZE count item s = .ok (slots, t)) :
    Listed fun i => (slots i).bind name := by
  obtain ⟨xs, hreads, -, hcap, rfl⟩ := (storeEach_eq_ok_iff _ _ _ _ _ _).1 h
  obtain ⟨ns, hns⟩ := exists_names (hreads.forall_of_item hnamed)
  have hlength : xs.length = ns.length := by simpa using congrArg List.length hns
  refine ⟨ns, hlength ▸ hcap, ?_⟩
  funext i
  have hget := congrArg (fun l => l[i]?) hns
  simp only [List.getElem?_map] at hget
  cases hx : xs[i]? with
  | none =>
    rw [hx] at hget
    cases hn : ns[i]? with
    | none => simp [Slots.ofList, hx, hn]
    | some n => simp [hn] at hget
  | some x =>
    rw [hx] at hget
    cases hn : ns[i]? with
    | none => simp [hn] at hget
    | some n =>
      rw [hn] at hget
      simpa [Slots.ofList, hx, hn] using hget

theorem getSection_listed {item : Reader α} {fresh : α} {sec : Section α} {s t : Str}
    (hnamed : Yields item fun x => (name x).isSome) (hfresh : name fresh = none)
    (h : getSection fresh item s = .ok (sec, t)) : Listed fun i => (sec.items i).bind name := by
  obtain ⟨isset, _, -, h⟩ := bind_eq_ok h
  split_ifs at h
  · obtain ⟨count, _, -, h⟩ := bind_eq_ok h
    split_ifs at h
    · obtain ⟨_, _, -, h⟩ := bind_eq_ok h
      obtain ⟨rfl, -⟩ := pure_eq_ok h
      have hnone : (fun i => (Slots.ofList [fresh] i).bind name) = Slots.empty := by
        funext i
        cases i with
        | zero => exact hfresh
        | succ i => rfl
      rw [hnone]
      exact listed_empty
    · obtain ⟨items, _, hitems, h⟩ := bind_eq_ok h
      obtain ⟨rfl, -⟩ := pure_eq_ok h
      exact storeEach_listed hnamed hitems
  · obtain ⟨rfl, -⟩ := pure_eq_ok h
    exact listed_empty

theorem getSectionV7_listed {item : Reader α} {sec : Section α} {s t : Str}
    (hnamed : Yields item fun x => (name x).isSome)
    (h : getSectionV7 item s = .ok (sec, t)) : Listed fun i => (sec.items i).bind name := by
  obtain ⟨isset, _, -, h⟩ := bind_eq_ok h
  split_ifs at h
  · obtain ⟨count, _, -, h⟩ := bind_eq_ok h
    obtain ⟨items, _, hitems, h⟩ := bind_eq_ok h
    obtain ⟨rfl, -⟩ := pure_eq_ok h
    exact storeEach_listed hnamed hitems
  · obtain ⟨rfl, -⟩ := pure_eq_ok h
    exact listed_empty

theorem getCall_named : Yields getCall fun c => c.name.isSome := by
  refine yields_bind fun _ => yields_bind fun _ => ?_
  exact yields_bind fun _ => yields_bind fun _ => yields_pure rfl

theorem getStorage_named : Yields getStorage fun item => item.name.isSome := by
  refine yields_bind fun _ => yields_bind fun _ => yields_bind fun _ => ?_
  refine yields_bind fun _ => yields_bind fun _ => yields_bind fun _ => ?_
  exact yields_bind fun _ => yields_bind fun _ => yields_bind fun _ => yields_pure rfl

theorem getStorageV4_named : Yields getStorageV4 fun item => item.name.isSome := by
  refine yields_bind fun _ => yields_bind fun _ => yields_bind fun _ => yields_bind fun _ => ?_
  exact yields_bind fun _ => yields_bind fun _ => yields_bind fun _ => yields_pure rfl

end Names

section Modules

/-- The names of the calls of a module; a freshly allocated call has none. -/
def callName (layout : Layout) (m : layout.Carrier) : Slots Str := fun i =>
  (layout.moduleCalls m i).bind Call.name

def storageName : (layout : Layout) → layout.Carrier → Slots Str
  | .v4, m, i => (m.storage i).bind StorageV4.name
  | .v5, m, i => (m.storage i).bind Storage.name
  | .v6, m, i => (m.storage i).bind Storage.name
  | .v7, m, i => (m.storage.bind fun c => c.items i).bind Storage.name

def moduleCount {M : Type} (md : MD M) : ℕ :=
  ((List.range COLLECTION_SIZE).filterMap md.module).length

theorem getModule_listed {S : Type} {fresh : S} {storageItem : Reader S} {name : S → Option Str}
    {m : Traced (Module S)} {s t : Str}
    (hnamed : Yields storageItem fun x => (name x).isSome) (hfresh : name fresh = none)
    (h : getModule (m := Reader) fresh storageItem getCall getEvent s = .ok (m, t)) :
    (Listed fun i => (m.module.storage i).bind name) ∧
      Listed fun i => (m.module.call i).bind Call.name := by
  obtain ⟨_, _, -, h⟩ := bind_eq_ok h
  obtain ⟨_, _, -, h⟩ := bind_eq_ok h
  obtain ⟨storage, _, hstorage, h⟩ := bind_eq_ok h
  obtain ⟨calls, _, hcalls, h⟩ := bind_eq_ok h
  obtain ⟨_, _, -, h⟩ := bind_eq_ok h
  obtain ⟨rfl, -⟩ := pure_eq_ok h
  exact ⟨getSection_listed hnamed hfresh hstorage, getSection_listed getCall_named rfl hcalls⟩

theorem storageV7_listed {storage : Option StorageCollectionV7} {s t : Str}
    (h : storageV7 (m := Reader) s = .ok (storage, t)) :
    Listed fun i => (storage.bind fun c => c.items i).bind Storage.name := by
  obtain ⟨isset, _, -, h⟩ := bind_eq_ok h
  split_ifs at h
  · obtain ⟨_, _, -, h⟩ := bind_eq_ok h
    obtain ⟨_, _, -, h⟩ := bind_eq_ok h
    obtain ⟨items, _, hitems, h⟩ := bind_eq_ok h
    obtain ⟨rfl, -⟩ := pure_eq_ok h
    exact storeEach_listed getStorage_named hitems
  · obtain ⟨rfl, -⟩ := pure_eq_ok h
    exact listed_empty

theorem body_listed (layout : Layout) {m : Traced layout.Carrier} {s t : Str}
    (h : layout.body s = .ok (m, t)) :
    Listed (storageName layout m.module) ∧ Listed (callName layout m.module) := by
  cases layout with
  | v4 => exact getModule_listed getStorageV4_named rfl h
  | v5 => exact getModule_listed getStorage_named rfl h
  | v6 =>
    obtain ⟨base, _, hbase, h⟩ := bind_eq_ok h
    obtain ⟨_, _, -, h⟩ := bind_eq_ok h
    obtain ⟨rfl, -⟩ := pure_eq_ok h
    exact getModule_listed getStorage_named rfl hbase
  | v7 =>
    obtain ⟨_, _, -, h⟩ := bind_eq_ok h
    obtain ⟨storage, _, hstorage, h⟩ := bind_eq_ok h
    obtain ⟨calls, _, hcalls, h⟩ := bind_eq_ok h
    obtain ⟨_, _, -, h⟩ := bind_eq_ok h
    obtain ⟨_, _, -, h⟩ := bind_eq_ok h
    obtain ⟨rfl, -⟩ := pure_eq_ok h
    exact ⟨storageV7_listed hstorage, getSectionV7_listed getCall_named hcalls⟩

theorem callNameAt_only (layout : Layout) (md : MD layout.Carrier) {k : ℕ} {m : layout.Carrier}
    (hm : md.module k = some m) (i : ℕ) :
    callNameAt (only layout md) k i =
      if (md.module i).isSome then deref (callName layout m i) else .ok [] := by
  have hcall : ∀ call : Slots Call, callAt call i = deref ((call i).bind Call.name) :=
    fun call => deref_bind (call i) Call.name
  have hat := moduleAt_of_some hm
  cases layout <;> cases h : md.module i <;>
    simp [callNameAt, firstVersion, only, h, hat, except_ok_bind, hcall, callName,
      Layout.moduleCalls]

theorem storageNameAt_only (layout : Layout) (md : MD layout.Carrier) {k : ℕ} {m : layout.Carrier}
    (hm : md.module k = some m) (i : ℕ) :
    storageNameAt (only layout md) k i =
      if (md.module i).isSome then deref (storageName layout m i) else .ok [] := by
  have hitem : ∀ items : Slots Storage, itemName items i = deref ((items i).bind Storage.name) :=
    fun items => deref_bind (items i) Storage.name
  have hitemV4 : ∀ items : Slots StorageV4,
      itemNameV4 items i = deref ((items i).bind StorageV4.name) :=
    fun items => deref_bind (items i) StorageV4.name
  have hat := moduleAt_of_some hm
  cases layout with
  | v4 =>
    cases h : md.module i <;>
      simp [storageNameAt, firstVersion, only, h, hat, except_ok_bind, hitemV4, storageName]
  | v5 =>
    cases h : md.module i <;>
      simp [storageNameAt, firstVersion, only, h, hat, except_ok_bind, hitem, storageName]
  | v6 =>
    cases h : md.module i <;>
      simp [storageNameAt, firstVersion, only, h, hat, except_ok_bind, hitem, storageName]
  | v7 =>
    have hstorage : (deref m.storage >>= fun storage => itemName storage.items i) =
        deref ((m.storage.bind fun c => c.items i).bind Storage.name) := by
      simp only [hitem, deref_bind, Option.bind_assoc]
    cases h : md.module i <;>
      simp [storageNameAt, firstVersion, only, h, hat, except_ok_bind, hstorage, storageName]

theorem fill_modules {layout : Layout} {blob : Str} {md : MD layout.Carrier}
    (h : fillMetadata layout.body blob = .ok md) :
    moduleCount md ≤ COLLECTION_SIZE ∧ (∀ i, (md.module i).isSome ↔ i < moduleCount md) ∧
      ∀ i m, md.module i = some m → Listed (storageName layout m) ∧ Listed (callName layout m) := by
  rw [fillMetadata_eq] at h
  obtain ⟨modules, htrace, rfl⟩ := except_map_eq_ok h
  obtain ⟨ts, _, _, hreads, hcap, rfl⟩ := traceModules_eq_ok htrace
  have hforget : (forget (Slots.ofList ts)).module = Slots.ofList (ts.map Traced.module) := by
    funext i
    simp [forget, Slots.ofList]
  have hcount : moduleCount (forget (Slots.ofList ts)) = ts.length := by
    rw [moduleCount, hforget, filterMap_ofList, List.take_of_length_le (by simpa using hcap),
      List.length_map]
  have hlisted := hreads.forall_of_item fun _ _ _ hbody => body_listed layout hbody
  rw [hcount]
  refine ⟨hcap, ?_, ?_⟩
  · intro i
    rw [hforget]
    simp [Slots.ofList]
  · intro i m hm
    rw [hforget, Slots.ofList, List.getElem?_map] at hm
    obtain ⟨t, ht, rfl⟩ := Option.map_eq_some_iff.1 hm
    exact hlisted t (List.mem_of_getElem? ht)

theorem reads_of_listed {name : ℕ → Result Str} {names : Slots Str} {present : ℕ → Bool}
    {modules : ℕ} (hlisted : Listed names) (hpresent : ∀ i, present i ↔ i < modules)
    (hname : ∀ i, name i = if present i then deref (names i) else .ok []) :
    Reads name modules (namesIn names) := by
  intro i
  rw [hname i, hlisted.getElem? i]
  exact if_congr (hpresent i) rfl rfl

end Modules

/-- Both searches return the index of the first item with the name, or -1, exactly
for the names that the number of modules lets them find or miss. -/
theorem method_indexes_iff (layout : Layout) (blob : Str) (md : MD layout.Carrier)
    (h : fillMetadata layout.body blob = .ok md) (k : ℕ) (m : layout.Carrier)
    (hm : md.module k = some m) (funcName : Str) :
    (getStorageMethodIndex (only layout md) k funcName =
        .ok (firstIndex (namesIn (storageName layout m)) (lower funcName)) ↔
      Covered (moduleCount md) (namesIn (storageName layout m)) (lower funcName)) ∧
    (getCallMethodIndex (only layout md) k funcName =
        .ok (firstIndex (namesIn (callName layout m)) (lower funcName)) ↔
      Covered (moduleCount md) (namesIn (callName layout m)) (lower funcName)) := by
  obtain ⟨hcap, hpresent, hlisted⟩ := fill_modules h
  obtain ⟨hstorage, hcalls⟩ := hlisted k m hm
  have hstorageReads := reads_of_listed hstorage hpresent (storageNameAt_only layout md hm)
  have hcallReads := reads_of_listed hcalls hpresent (callNameAt_only layout md hm)
  exact ⟨search_eq_firstIndex_iff hstorageReads hcap hstorage.length_le,
    search_eq_firstIndex_iff hcallReads hcap hcalls.length_le⟩

def twoCalls : Str :=
  ["6d65746107", "04", "0441", "00", "01", "08", "0463", "00", "00", "0464", "00", "00", "00",
    "00"].flatMap lit

theorem fill_twoCalls : ∃ md m, fillMetadata Layout.v7.body twoCalls = .ok md ∧
    md.module 0 = some m ∧ moduleCount md = 1 ∧
    namesIn (callName .v7 m) = [lit "c", lit "d"] := by
  have hread : (fillMetadata Layout.v7.body twoCalls).map
      (fun md => (moduleCount md, (md.module 0).map fun m => namesIn (callName .v7 m))) =
        .ok (1, some [lit "c", lit "d"]) := by decide +kernel
  obtain ⟨md, hmd, hvalues⟩ := except_map_eq_ok hread
  obtain ⟨hcount, hnames⟩ := Prod.mk.inj hvalues
  obtain ⟨m, hm, hnames⟩ := Option.map_eq_some_iff.1 hnames
  exact ⟨md, m, hmd, hm, hcount, hnames⟩

theorem method_indexes_iff_twoCalls : ∃ md m, fillMetadata Layout.v7.body twoCalls = .ok md ∧
    md.module 0 = some m ∧ getCallMethodIndex (only .v7 md) 0 (lit "C") =
      .ok (firstIndex (namesIn (callName .v7 m)) (lower (lit "C"))) := by
  obtain ⟨md, m, hmd, hm, hcount, hnames⟩ := fill_twoCalls
  refine ⟨md, m, hmd, hm, (method_indexes_iff .v7 twoCalls md hmd 0 m hm (lit "C")).2.2 ?_⟩
  rw [hcount, hnames]
  exact Or.inl (by decide)

/-- The second call is not found, since there is only one module. -/
theorem method_indexes_fails :
    ¬ ∀ (layout : Layout) (blob : Str) (md : MD layout.Carrier),
      fillMetadata layout.body blob = .ok md → ∀ k m, md.module k = some m → ∀ funcName,
        getStorageMethodIndex (only layout md) k funcName =
            .ok (firstIndex (namesIn (storageName layout m)) (lower funcName)) ∧
          getCallMethodIndex (only layout md) k funcName =
            .ok (firstIndex (namesIn (callName layout m)) (lower funcName)) := by
  intro hall
  obtain ⟨md, m, hmd, hm, -, hnames⟩ := fill_twoCalls
  have hfound := (hall .v7 twoCalls md hmd 0 m hm (lit "d")).2
  have hmissed : (fillMetadata Layout.v7.body twoCalls).map
      (fun md => getCallMethodIndex (only .v7 md) 0 (lit "d")) = .ok (.ok (-1)) := by
    decide +kernel
  rw [hmd] at hmissed
  have hlost := hfound.symm.trans (Except.ok.inj hmissed)
  rw [hnames] at hlost
  revert hlost
  decide

end PolkadotApi.MethodSearch
