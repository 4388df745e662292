import PolkadotApi.MetadataFactory

set_option autoImplicit false

namespace PolkadotApi.MetadataLookup
open StreamReader MachineModel ScaleCodec MetadataFormats MetadataFactory

def easytolower (c : UInt8) : UInt8 := if 65 ≤ c ∧ c ≤ 90 then c + 32 else c

def lower (s : Str) : Str := s.map easytolower

/-- Reading through a null pointer, or an indeterminate member. -/
def deref {α : Type} : Option α → Result α
  | some a => .ok a
  | none => .error .undefined

/-- The `else if` chain that all lookups share: the first version that is
present and whose module `i` is not null. -/
def firstVersion {α : Type} (md : Metadata) (i : ℕ) (v0 : MDV0 → ModuleV0 → α)
    (v4 : MDV4 → ModuleV4 → α) (v5 : MDV5 → ModuleV5 → α) (v6 : MDV6 → ModuleV6 → α)
    (v7 : MDV7 → ModuleV7 → α) : Option α :=
  (md.metadataV0.bind fun m => (m.module i).map (v0 m)) <|>
  (md.metadataV4.bind fun m => (m.module i).map (v4 m)) <|>
  (md.metadataV5.bind fun m => (m.module i).map (v5 m)) <|>
  (md.metadataV6.bind fun m => (m.module i).map (v6 m)) <|>
  (md.metadataV7.bind fun m => (m.module i).map (v7 m))

def nameAt (md : Metadata) (i : ℕ) : Str :=
  (firstVersion md i (fun _ m => m.modulePrefix) (fun _ m => m.name) (fun _ m => m.name)
    (fun _ m => m.name) (fun _ m => m.name)).getD []

/-- Version 0 looks at its storage functions, the others at their calls. -/
def hasMethods (md : Metadata) (moduleIndex : ℕ) : Result Bool :=
  (firstVersion md moduleIndex
    (fun _ m => (deref (m.storage.function 0)).map fun f => decide (0 < f.name.length))
    (fun _ m => .ok (m.call 0).isSome) (fun _ m => .ok (m.call 0).isSome)
    (fun _ m => .ok (m.call 0).isSome) (fun _ m => .ok (m.call 0).isSome)).getD (.ok false)

def moduleIndexFrom (md : Metadata) (moduleNameLower : Str) (skipZeroCalls : Bool) :
    ℕ → ℕ → ℕ → Result ℤ
  | 0, _, _ => .ok (-1)
  | rounds + 1, i, zeroMethodModuleCount =>
    if (nameAt md i).length ≠ 0 then do
      let methods ← hasMethods md i
      let zeroMethodModuleCount :=
        if methods then zeroMethodModuleCount else zeroMethodModuleCount + 1
      if moduleNameLower = lower (nameAt md i) then
        return if skipZeroCalls then (i : ℤ) - zeroMethodModuleCount else i
      else moduleIndexFrom md moduleNameLower skipZeroCalls rounds (i + 1) zeroMethodModuleCount
    else moduleIndexFrom md moduleNameLower skipZeroCalls rounds (i + 1) zeroMethodModuleCount

def getModuleIndex (md : Metadata) (moduleName : Str) (skipZeroCalls : Bool) : Result ℤ :=
  moduleIndexFrom md (lower moduleName) skipZeroCalls COLLECTION_SIZE 0 0

def moduleAt {M : Type} (module : Slots M) (moduleIndex : ℤ) : Result M :=
  if 0 ≤ moduleIndex then deref (module moduleIndex.toNat) else .error .undefined

theorem deref_eq_ok {α : Type} {a : Option α} {x : α} (h : deref a = .ok x) : a = some x := by
  cases a with
  | none => cases h
  | some y =>
    cases h
    rfl

theorem deref_bind {α β : Type} (a : Option α) (f : α → Option β) :
    (deref a >>= fun x => deref (f x)) = deref (a.bind f) := by
  cases a <;> rfl

theorem moduleAt_of_some {M : Type} {module : Slots M} {k : ℕ} {m : M} (hm : module k = some m) :
    moduleAt module (k : ℤ) = .ok m := by
  rw [moduleAt, if_pos (by omega), Int.toNat_natCast, hm]
  rfl

def callAt (call : Slots Call) (i : ℕ) : Result Str := do
  let c ← deref (call i)
  deref c.name

/-- The name compared in round `i` of `getCallMethodIndex`: the version is chosen
by module `i`, the call is taken from `moduleIndex`. -/
def callNameAt (md : Metadata) (moduleIndex : ℤ) (i : ℕ) : Result Str :=
  (firstVersion md i
    (fun m _ => do
      let module ← moduleAt m.module moduleIndex
      let function ← deref (module.module.call.fn1 i)
      return function.name)
    (fun m _ => moduleAt m.module moduleIndex >>= fun module => callAt module.call i)
    (fun m _ => moduleAt m.module moduleIndex >>= fun module => callAt module.call i)
    (fun m _ => moduleAt m.module moduleIndex >>= fun module => callAt module.call i)
    (fun m _ => moduleAt m.module moduleIndex >>= fun module => callAt module.call i)).getD (.ok [])

def methodIndexFrom (name : ℕ → Result Str) (funcNameLower : Str) : ℕ → ℕ → Result ℤ
  | 0, _ => .ok (-1)
  | rounds + 1, i => do
    let text ← name i
    if funcNameLower = lower text then return (i : ℤ)
    else methodIndexFrom name funcNameLower rounds (i + 1)

def getCallMethodIndex (md : Metadata) (moduleIndex : ℤ) (funcName : Str) : Result ℤ :=
  methodIndexFrom (callNameAt md moduleIndex) (lower funcName) COLLECTION_SIZE 0

section Search

def ShowsFrom (md : Metadata) (i : ℕ) (entries : List (Str × Bool)) : Prop :=
  ∀ j, nameAt md (i + j) = ((entries[j]?).map Prod.fst).getD [] ∧
    hasMethods md (i + j) = .ok (((entries[j]?).map Prod.snd).getD false)

theorem ShowsFrom.tail {md : Metadata} {i : ℕ} {e : Str × Bool} {entries : List (Str × Bool)}
    (h : ShowsFrom md i (e :: entries)) : ShowsFrom md (i + 1) entries := by
  intro j
  have hj := h (j + 1)
  rw [List.getElem?_cons_succ, show i + (j + 1) = i + 1 + j by omega] at hj
  exact hj

theorem moduleIndexFrom_found {md : Metadata} {name : Str} {e : Str × Bool}
    {before after : List (Str × Bool)} {i rounds : ℕ} (count : ℕ)
    (shows : ShowsFrom md i (before ++ e :: after)) (hrounds : before.length < rounds)
    (hbefore : ∀ b ∈ before, b.1 ≠ [] ∧ lower b.1 ≠ name) (hname : e.1 ≠ [])
    (hfound : lower e.1 = name) :
    moduleIndexFrom md name true rounds i count =
      .ok ((i + before.length : ℕ) - (count + (before ++ [e]).countP (fun b => !b.2) : ℕ)) := by
  induction before generalizing i rounds count with
  | nil =>
    obtain ⟨rounds, rfl⟩ : ∃ r, rounds = r + 1 := ⟨rounds - 1, by simp at hrounds; omega⟩
    obtain ⟨hn, hm⟩ := shows 0
    simp only [Nat.add_zero, List.nil_append, List.getElem?_cons_zero, Option.map_some,
      Option.getD_some] at hn hm
    rw [moduleIndexFrom, hn, hm, if_pos (by simpa using hname)]
    change (if name = lower e.1 then _ else _) = _
    rw [if_pos hfound.symm]
    cases he : e.2 <;> simp [he, pure, Except.pure]
  | cons b before ih =>
    obtain ⟨rounds, rfl⟩ : ∃ r, rounds = r + 1 := ⟨rounds - 1, by simp at hrounds; omega⟩
    obtain ⟨hn, hm⟩ := shows 0
    simp only [Nat.add_zero, List.cons_append, List.getElem?_cons_zero, Option.map_some,
      Option.getD_some] at hn hm
    obtain ⟨hb, hne⟩ := hbefore b (by simp)
    rw [moduleIndexFrom, hn, hm, if_pos (by simpa using hb)]
    change (if name = lower b.1 then _ else _) = _
    rw [if_neg (Ne.symm hne), ih _ shows.tail (by simpa using hrounds)
      (fun c hc => hbefore c (by simp [hc]))]
    simp only [List.length_cons, List.cons_append, List.countP_cons]
    cases b.2
    · simp
      omega
    · simp
      omega

end Search

section DispatchIndex

def only : (layout : Layout) → MD layout.Carrier → Metadata
  | .v4, m => { metadataV4 := some m }
  | .v5, m => { metadataV5 := some m }
  | .v6, m => { metadataV6 := some m }
  | .v7, m => { metadataV7 := some m }

/-- The counts after which a present call list has a call in its first slot. -/
def FillsFirst : Layout → ℤ → Prop
  | .v7, count => 0 < count
  | _, count => 0 ≤ count

def hasCalls (layout : Layout) (t : Traced layout.Carrier) : Bool :=
  (layout.moduleCalls t.module 0).isSome

theorem storeEach_first {α : Type} {item : Reader α} {count : ℤ} {slots : Slots α} {s t : Str}
    (h : storeEach COLLECTION_SIZE count item s = .ok (slots, t)) :
    (slots 0).isSome ↔ 0 < count := by
  obtain ⟨xs, -, hl, -, rfl⟩ := (storeEach_eq_ok_iff _ _ _ _ _ _).1 h
  cases xs with
  | nil =>
    simp only [Slots.ofList, List.length_nil] at hl ⊢
    simp
    omega
  | cons x xs =>
    simp only [Slots.ofList, List.length_cons] at hl ⊢
    simp
    omega

theorem getSection_first {α : Type} {fresh : α} {item : Reader α} {sec : Section α} {s t : Str}
    (h : getSection fresh item s = .ok (sec, t)) :
    (sec.items 0).isSome ↔ sec.isset ≠ 0 ∧ 0 ≤ sec.count := by
  obtain ⟨isset, s₁, -, h₁⟩ := bind_eq_ok h
  by_cases hset : isset ≠ 0
  · rw [if_pos hset] at h₁
    obtain ⟨count, s₂, -, h₂⟩ := bind_eq_ok h₁
    by_cases hzero : asInt count = 0
    · rw [if_pos hzero] at h₂
      obtain ⟨_, s₃, -, h₃⟩ := bind_eq_ok h₂
      obtain ⟨rfl, -⟩ := pure_eq_ok h₃
      exact iff_of_true rfl ⟨hset, hzero.ge⟩
    · rw [if_neg hzero] at h₂
      obtain ⟨items, s₃, hitems, h₃⟩ := bind_eq_ok h₂
      obtain ⟨rfl, -⟩ := pure_eq_ok h₃
      have hfirst := storeEach_first hitems
      simp only [hset, ne_eq, not_false_eq_true, true_and, hfirst]
      omega
  · rw [if_neg hset] at h₁
    obtain ⟨rfl, -⟩ := pure_eq_ok h₁
    exact iff_of_false (by simp [Slots.empty]) (fun hc => hset hc.1)

theorem getSectionV7_first {α : Type} {item : Reader α} {sec : Section α} {s t : Str}
    (h : getSectionV7 item s = .ok (sec, t)) :
    (sec.items 0).isSome ↔ sec.isset ≠ 0 ∧ 0 < sec.count := by
  obtain ⟨isset, s₁, -, h₁⟩ := bind_eq_ok h
  by_cases hset : isset ≠ 0
  · rw [if_pos hset] at h₁
    obtain ⟨count, s₂, -, h₂⟩ := bind_eq_ok h₁
    obtain ⟨items, s₃, hitems, h₃⟩ := bind_eq_ok h₂
    obtain ⟨rfl, -⟩ := pure_eq_ok h₃
    have hfirst := storeEach_first hitems
    simp only [hset, ne_eq, not_false_eq_true, true_and, hfirst]
  · rw [if_neg hset] at h₁
    obtain ⟨rfl, -⟩ := pure_eq_ok h₁
    exact iff_of_false (by simp [Slots.empty]) (fun hc => hset hc.1)

theorem getModule_first {S : Type} {fresh : S} {storageItem : Reader S} {callItem : Reader Call}
    {eventItem : Reader EventArg} {m : Traced (Module S)} {s t : Str}
    (h : getModule fresh storageItem callItem eventItem s = .ok (m, t)) :
    (m.module.call 0).isSome ↔ m.callsIsset ≠ 0 ∧ 0 ≤ m.callsCount := by
  obtain ⟨_, s₁, -, h₁⟩ := bind_eq_ok h
  obtain ⟨_, s₂, -, h₂⟩ := bind_eq_ok h₁
  obtain ⟨_, s₃, -, h₃⟩ := bind_eq_ok h₂
  obtain ⟨calls, s₄, hcalls, h₄⟩ := bind_eq_ok h₃
  obtain ⟨_, s₅, -, h₅⟩ := bind_eq_ok h₄
  obtain ⟨rfl, -⟩ := pure_eq_ok h₅
  exact getSection_first hcalls

theorem body_first (layout : Layout) {m : Traced layout.Carrier} {s t : Str}
    (h : layout.body s = .ok (m, t)) :
    hasCalls layout m ↔ m.callsIsset ≠ 0 ∧ FillsFirst layout m.callsCount := by
  cases layout with
  | v4 => exact getModule_first h
  | v5 => exact getModule_first h
  | v6 =>
    obtain ⟨base, s₁, hbase, h₁⟩ := bind_eq_ok h
    obtain ⟨_, s₂, -, h₂⟩ := bind_eq_ok h₁
    obtain ⟨rfl, -⟩ := pure_eq_ok h₂
    exact getModule_first hbase
  | v7 =>
    obtain ⟨_, s₁, -, h₁⟩ := bind_eq_ok h
    obtain ⟨_, s₂, -, h₂⟩ := bind_eq_ok h₁
    obtain ⟨calls, s₃, hcalls, h₃⟩ := bind_eq_ok h₂
    obtain ⟨_, s₄, -, h₄⟩ := bind_eq_ok h₃
    obtain ⟨_, s₅, -, h₅⟩ := bind_eq_ok h₄
    obtain ⟨rfl, -⟩ := pure_eq_ok h₅
    exact getSectionV7_first hcalls

theorem traceModules_eq_ok {M : Type} {body : Reader (Traced M)} {blob : Str}
    {modules : Slots (Traced M)} (h : traceModules body blob = .ok modules) :
    ∃ ts s t, ReadsAll body ts s t ∧ ts.length ≤ COLLECTION_SIZE ∧ modules = Slots.ofList ts := by
  obtain ⟨⟨slots, t⟩, hlist, rfl⟩ := except_map_eq_ok h
  obtain ⟨_, s, -, h₂⟩ := bind_eq_ok hlist
  obtain ⟨_, s', -, h₃⟩ := bind_eq_ok h₂
  obtain ⟨ts, hr, -, hcap, rfl⟩ := (claimEach_eq_ok_iff _ _ _ _ _ _).1 h₃
  exact ⟨ts, s', t, hr, hcap, rfl⟩

theorem nameAt_only (layout : Layout) (m : MD layout.Carrier) (i : ℕ) :
    nameAt (only layout m) i = ((m.module i).map layout.moduleName).getD [] := by
  cases layout <;> simp [nameAt, firstVersion, only, Layout.moduleName]

theorem hasMethods_only (layout : Layout) (m : MD layout.Carrier) (i : ℕ) :
    hasMethods (only layout m) i =
      .ok (((m.module i).map fun x => (layout.moduleCalls x 0).isSome).getD false) := by
  cases layout <;> cases h : m.module i <;>
    simp [hasMethods, firstVersion, only, Layout.moduleCalls, h]

theorem showsFrom_only (layout : Layout) (ts : List (Traced layout.Carrier)) :
    ShowsFrom (only layout (forget (Slots.ofList ts))) 0
      (ts.map fun t => (layout.moduleName t.module, hasCalls layout t)) := by
  intro j
  rw [nameAt_only, hasMethods_only]
  cases hj : ts[j]? <;> simp [forget, Slots.ofList, hj, hasCalls]

theorem filterMap_ofList {α : Type} (xs : List α) (k : ℕ) :
    (List.range k).filterMap (Slots.ofList xs) = xs.take k := by
  induction k with
  | zero => rfl
  | succ k ih =>
    rw [List.range_succ, List.filterMap_append, ih, List.take_add_one]
    congr 1

theorem countP_eq_iff {α : Type} {p q : α → Bool} {l : List α} (h : ∀ x ∈ l, p x → q x) :
    l.countP p = l.countP q ↔ ∀ x ∈ l, q x → p x := by
  induction l with
  | nil => simp
  | cons x l ih =>
    have hle : l.countP p ≤ l.countP q := List.countP_mono_left (fun y hy => h y (by simp [hy]))
    have hx := h x (by simp)
    have ih := ih (fun y hy => h y (by simp [hy]))
    simp only [List.countP_cons, List.forall_mem_cons, ← ih]
    cases hp : p x <;> cases hq : q x <;> simp_all
    omega

def callsPresent {M : Type} (t : Traced M) : Bool := t.callsIsset ≠ 0

def presentBefore {M : Type} (modules : Slots (Traced M)) (k : ℕ) : ℕ :=
  ((List.range k).filterMap modules).countP callsPresent

theorem getModuleIndex_only {layout : Layout} {before after : List (Traced layout.Carrier)}
    {target : Traced layout.Carrier}
    (hcap : (before ++ target :: after).length ≤ COLLECTION_SIZE)
    (hnames : ∀ t ∈ before ++ target :: after, layout.moduleName t.module ≠ [])
    (hfirst : ∀ t ∈ before,
      lower (layout.moduleName t.module) ≠ lower (layout.moduleName target.module)) :
    getModuleIndex (only layout (forget (Slots.ofList (before ++ target :: after))))
        (layout.moduleName target.module) true =
      .ok ((before.length : ℤ) - (before ++ [target]).countP (fun t => !hasCalls layout t)) := by
  have shows := showsFrom_only layout (before ++ target :: after)
  rw [List.map_append, List.map_cons] at shows
  have hrounds : (before.map fun t => (layout.moduleName t.module, hasCalls layout t)).length <
      COLLECTION_SIZE := by
    simp only [List.length_append, List.length_cons, List.length_map] at hcap ⊢
    omega
  have hfound := moduleIndexFrom_found 0 shows hrounds
    (fun b hb => by
      obtain ⟨t, ht, rfl⟩ := List.mem_map.1 hb
      exact ⟨hnames t (by simp [ht]), hfirst t ht⟩)
    (hnames target (by simp)) rfl
  rw [getModuleIndex, hfound]
  simp [List.countP_append, List.countP_map, Function.comp_def, List.countP_singleton]

theorem forall_mem_take {α : Type} {P : α → Prop} (xs : List α) (k : ℕ) :
    (∀ x ∈ xs.take k, P x) ↔ ∀ j < k, ∀ x, xs[j]? = some x → P x := by
  constructor
  · intro h j hj x hx
    apply h
    apply List.mem_of_getElem? (i := j)
    rw [List.getElem?_take_of_lt hj]
    exact hx
  · intro h x hx
    obtain ⟨j, hj⟩ := List.mem_iff_getElem?.1 hx
    rw [List.getElem?_take] at hj
    split_ifs at hj with hlt
    exact h j hlt x hj

/-- Modules without a method are subtracted, the target among them; what is left
is the number of present call lists only if no present list lacks its method. -/
theorem skipped_eq_present_iff {layout : Layout} {before : List (Traced layout.Carrier)}
    {target : Traced layout.Carrier}
    (hlaw : ∀ t ∈ before ++ [target], hasCalls layout t ↔
      t.callsIsset ≠ 0 ∧ FillsFirst layout t.callsCount) (hflag : target.callsIsset ≠ 0) :
    (before.length : ℤ) - (before ++ [target]).countP (fun t => !hasCalls layout t) =
        before.countP callsPresent ↔
      ∀ t ∈ before ++ [target], t.callsIsset ≠ 0 → FillsFirst layout t.callsCount := by
  have hsub : ∀ t ∈ before, hasCalls layout t → callsPresent t := by
    intro t ht hcalls
    have h := ((hlaw t (by simp [ht])).1 hcalls).1
    simpa [callsPresent] using h
  have hall : (∀ t ∈ before, callsPresent t → hasCalls layout t) ↔
      ∀ t ∈ before, t.callsIsset ≠ 0 → FillsFirst layout t.callsCount := by
    apply forall₂_congr
    intro t ht
    rw [hlaw t (by simp [ht])]
    simp only [callsPresent, decide_eq_true_eq]
    tauto
  have htarget : hasCalls layout target ↔ FillsFirst layout target.callsCount := by
    rw [hlaw target (by simp)]
    exact and_iff_right hflag
  have hle := List.countP_mono_left hsub
  have hlength : before.length = before.countP (hasCalls layout) +
      before.countP (fun t => !hasCalls layout t) := by
    rw [List.length_eq_countP_add_countP (hasCalls layout)]
    simp
  have hlast : ∀ P : Traced layout.Carrier → Prop,
      (∀ t ∈ before ++ [target], P t) ↔ (∀ t ∈ before, P t) ∧ P target := by
    intro P
    rw [List.forall_mem_append, List.forall_mem_singleton]
  rw [hlast, ← hall, ← countP_eq_iff hsub, List.countP_append, List.countP_singleton]
  cases hcalls : hasCalls layout target
  · have hno : ¬ FillsFirst layout target.callsCount := by
      rw [← htarget, hcalls]
      simp
    apply iff_of_false
    · simp only [Bool.not_false, if_true]
      omega
    · exact fun h => hno (h.2 hflag)
  · have hyes : FillsFirst layout target.callsCount := htarget.1 hcalls
    simp only [Bool.not_true, hyes, ne_eq, hflag, not_false_eq_true, forall_const, and_true]
    simp only [Bool.false_eq_true, if_false]
    omega

/-- The index that skips modules without methods counts the modules whose call
list is present exactly when each such list up to the module itself leaves a
call in its first slot. -/
theorem dispatchIndex_iff (layout : Layout) (blob : Str) (modules : Slots (Traced layout.Carrier))
    (hparse : traceModules layout.body blob = .ok modules)
    (hnames : ∀ j t, modules j = some t → layout.moduleName t.module ≠ [])
    (k : ℕ) (target : Traced layout.Carrier) (hk : modules k = some target)
    (hfirst : ∀ j < k, ∀ t, modules j = some t →
      lower (layout.moduleName t.module) ≠ lower (layout.moduleName target.module))
    (hflag : target.callsIsset ≠ 0) :
    getModuleIndex (only layout (forget modules)) (layout.moduleName target.module) true =
        .ok (presentBefore modules k) ↔
      ∀ j ≤ k, ∀ t, modules j = some t → t.callsIsset ≠ 0 → FillsFirst layout t.callsCount := by
  obtain ⟨ts, s, rest, hreads, hcap, rfl⟩ := traceModules_eq_ok hparse
  have hlaw := hreads.forall_of_item (fun _ _ _ h => body_first layout h)
  have hget : ts[k]? = some target := hk
  have htake : ts.take (k + 1) = ts.take k ++ [target] := by
    rw [List.take_add_one, hget]
    rfl
  have hsplit : ts = ts.take k ++ target :: ts.drop (k + 1) := by
    conv_lhs => rw [← List.take_append_drop (k + 1) ts, htake]
    simp
  have hlength : (ts.take k).length = k := by
    have hlt := (List.getElem?_eq_some_iff.1 hget).1
    simp [hlt.le]
  have hmem : ∀ t ∈ ts.take k ++ [target], t ∈ ts := by
    intro t ht
    rw [← htake] at ht
    exact List.mem_of_mem_take ht
  have hname : ∀ t ∈ ts, layout.moduleName t.module ≠ [] := by
    intro t ht
    obtain ⟨j, hj⟩ := List.mem_iff_getElem?.1 ht
    exact hnames j t hj
  have hindex := getModuleIndex_only (hsplit ▸ hcap) (hsplit ▸ hname)
    ((forall_mem_take ts k).2 hfirst)
  rw [← hsplit, hlength] at hindex
  have hcount := skipped_eq_present_iff (fun t ht => hlaw t (hmem t ht)) hflag
  rw [hlength, ← htake, forall_mem_take] at hcount
  rw [hindex, presentBefore, filterMap_ofList, Except.ok.injEq, htake.symm, hcount]
  simp only [Nat.lt_succ_iff]
  rfl

def row (layout : Layout) (t : Traced layout.Carrier) : Str × UInt8 × ℤ :=
  (layout.moduleName t.module, t.callsIsset, t.callsCount)

theorem exists_rows (layout : Layout) (blob : Str) (rows : List (Str × UInt8 × ℤ))
    (h : (traceModules layout.body blob).map
      (fun m => ((List.range COLLECTION_SIZE).filterMap m).map (row layout)) = .ok rows) :
    ∃ ts, traceModules layout.body blob = .ok (Slots.ofList ts) ∧ ts.map (row layout) = rows := by
  obtain ⟨modules, hparse, hrows⟩ := except_map_eq_ok h
  obtain ⟨ts, _, _, -, hcap, rfl⟩ := traceModules_eq_ok hparse
  rw [filterMap_ofList, List.take_of_length_le hcap] at hrows
  exact ⟨ts, hparse, hrows⟩

def twoModules : Str := lit "6d65746104080441000000000442000001040463000000"

theorem dispatchIndex_iff_twoModules : ∃ modules target,
    traceModules Layout.v4.body twoModules = .ok modules ∧ modules 1 = some target ∧
      (getModuleIndex (only .v4 (forget modules)) (Layout.v4.moduleName target.module) true =
          .ok (presentBefore modules 1) ↔
        ∀ j ≤ 1, ∀ t, modules j = some t → t.callsIsset ≠ 0 →
          FillsFirst .v4 t.callsCount) := by
  obtain ⟨ts, hparse, hrows⟩ := exists_rows .v4 twoModules [([65], 0, 0), ([66], 1, 1)]
    (by decide +kernel)
  obtain ⟨a, l, rfl, ha, hl⟩ := List.map_eq_cons_iff.1 hrows
  obtain ⟨b, l', rfl, hb, hl'⟩ := List.map_eq_cons_iff.1 hl
  obtain rfl := List.map_eq_nil_iff.1 hl'
  simp only [row, Prod.mk.injEq] at ha hb
  refine ⟨_, b, hparse, rfl, dispatchIndex_iff .v4 twoModules _ hparse ?_ 1 b rfl ?_ ?_⟩
  · intro j t hj
    rcases List.mem_pair.1 (List.mem_of_getElem? hj) with rfl | rfl
    · simp [ha.1]
    · simp [hb.1]
  · intro j hj t ht
    obtain rfl : j = 0 := by omega
    obtain rfl : a = t := Option.some.inj ht
    rw [ha.1, hb.1]
    decide
  · simp [hb.2.1]

def emptyCalls : Str := lit "6d657461070404410001000000"

theorem dispatchIndex_fails : ¬ ∀ (layout : Layout) (blob : Str)
    (modules : Slots (Traced layout.Carrier)) (k : ℕ) (target : Traced layout.Carrier),
    traceModules layout.body blob = .ok modules →
    (∀ j t, modules j = some t → layout.moduleName t.module ≠ []) → modules k = some target →
    (∀ j < k, ∀ t, modules j = some t →
      lower (layout.moduleName t.module) ≠ lower (layout.moduleName target.module)) →
    target.callsIsset ≠ 0 →
    getModuleIndex (only layout (forget modules)) (layout.moduleName target.module) true =
      .ok (presentBefore modules k) := by
  intro hall
  obtain ⟨ts, hparse, hrows⟩ := exists_rows .v7 emptyCalls [([65], 1, 0)] (by decide +kernel)
  obtain ⟨a, l, rfl, ha, hl⟩ := List.map_eq_cons_iff.1 hrows
  obtain rfl := List.map_eq_nil_iff.1 hl
  simp only [row, Prod.mk.injEq] at ha
  have hname : ∀ j t, Slots.ofList [a] j = some t → Layout.v7.moduleName t.module ≠ [] := by
    intro j t hj
    rw [List.mem_singleton.1 (List.mem_of_getElem? hj), ha.1]
    simp
  have hindex := hall .v7 emptyCalls _ 0 a hparse hname rfl (by omega) (by simp [ha.2.1])
  have hvalue : (traceModules Layout.v7.body emptyCalls).map
      (fun m => getModuleIndex (only .v7 (forget m)) [65] true) = .ok (.ok (-1)) := by
    decide +kernel
  rw [hparse] at hvalue
  rw [ha.1] at hindex
  have hcontra := hindex.symm.trans (Except.ok.inj hvalue)
  revert hcontra
  simp [presentBefore]

end DispatchIndex

end PolkadotApi.MetadataLookup
