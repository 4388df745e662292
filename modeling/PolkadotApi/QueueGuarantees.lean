import PolkadotApi.QueueLaws

set_option autoImplicit false

namespace PolkadotApi.QueueGuarantees
open StepRuns StreamReader BoundedBuffer ConcurrentMapQueue QueueLaws

variable {T K I : Type} [DecidableEq K] {max_size : ℤ}

def NoErase (es : List (Event T K I)) : Prop := ∀ who key, .begin who (.eraseKey key) ∉ es

def hasReturned : Op T K → Bool
  | .put _ _ .returned => true
  | .get _ (.returned _) => true
  | .eraseKey _ .returned => true
  | _ => false

def stored (k : K) : Op T K → List T
  | .put key value .written => if key = k then [value] else []
  | .put key value .returned => if key = k then [value] else []
  | _ => []

/-- The call is past the test for the key in `addKey`. -/
def entered : Op T K → Bool
  | .put _ _ (.addKey .enter) => false
  | .get _ (.addKey .enter) => false
  | _ => true

section Steps

variable {op next : Op T K} {q r : Store T K}

theorem stored_of_step (h : OpStep max_size op q next r) (k : K) :
    ∃ l, r.pushed k = q.pushed k ++ l ∧ stored k next = stored k op ++ l := by
  cases h with
  | @put key value _ _ _ _ h =>
    cases h with
    | push =>
      by_cases hk : key = k
      · subst key
        exact ⟨[value], by simp [Store.write, stored]⟩
      · exact ⟨[], by simp [Store.write, stored, hk, Function.update_of_ne (Ne.symm hk)]⟩
    | signal => exact ⟨[], (List.append_nil _).symm, (List.append_nil _).symm⟩
    | _ => exact ⟨[], (List.append_nil _).symm, rfl⟩
  | get h => cases h <;> exact ⟨[], (List.append_nil _).symm, rfl⟩
  | eraseKey h => cases h <;> exact ⟨[], (List.append_nil _).symm, rfl⟩

theorem present_of_step (h : OpStep max_size op q next r) (he : op.erases = false)
    (hop : entered op = true → (q.semR op.key).isSome) : (r.semR op.key).isSome := by
  cases h with
  | put h =>
    cases h with
    | found _ hsome => exact hsome
    | newR => simp [Store.newR, Op.key]
    | _ => exact hop rfl
  | get h =>
    cases h with
    | found _ hsome => exact hsome
    | newR => simp [Store.newR, Op.key]
    | _ => exact hop rfl
  | eraseKey h => cases he

theorem ne_false_of_step {k : K} (h : OpStep max_size op q next r)
    (hitems : op = .get k .granted → q.collection k ≠ []) (hop : op ≠ .get k (.returned none)) :
    next ≠ .get k (.returned none) := by
  rintro rfl
  cases h with
  | get h =>
    cases h with
    | miss hnil => exact hitems rfl hnil

end Steps

section Runs

variable {sys next : System T K I} {k : K}

structure Served (k : K) (sys : System T K I) : Prop where
  spared : ∀ x ∈ sys.ops, x.2.erases = false
  present : ∀ x ∈ sys.ops, x.2.key = k → entered x.2 = true → (sys.store.semR k).isSome
  answered : ∀ x ∈ sys.ops, x.2 ≠ .get k (.returned none)
  taken : (sys.store.popped k).Perm (sys.ops.flatMap fun x => carried k x.2)
  given : (sys.store.pushed k).Perm (sys.ops.flatMap fun x => stored k x.2)

theorem served_empty : Served k (System.empty : System T K I) := by
  constructor <;> simp [System.empty, Store.empty]

theorem Served.begin (h : Served k sys) (who : I) {call : Call T K}
    (hcall : call.start.erases = false) : Served k (sys.begin who call) := by
  have hquiet : carried k call.start = [] ∧ stored k call.start = [] := by
    cases call <;> exact ⟨rfl, rfl⟩
  constructor
  · intro x hx
    rcases List.mem_append.1 hx with hx | hx
    · exact h.spared x hx
    · rw [List.mem_singleton.1 hx]
      exact hcall
  · intro x hx
    rcases List.mem_append.1 hx with hx | hx
    · exact h.present x hx
    · rw [List.mem_singleton.1 hx]
      intro _ hentered
      cases call with
      | eraseKey key => cases hcall
      | _ => cases hentered
  · intro x hx
    rcases List.mem_append.1 hx with hx | hx
    · exact h.answered x hx
    · rw [List.mem_singleton.1 hx]
      cases call <;> simp [Call.start]
  · change (sys.store.popped k).Perm ((sys.ops ++ [(who, call.start)]).flatMap _)
    rw [List.flatMap_append, List.flatMap_singleton, hquiet.1, List.append_nil]
    exact h.taken
  · change (sys.store.pushed k).Perm ((sys.ops ++ [(who, call.start)]).flatMap _)
    rw [List.flatMap_append, List.flatMap_singleton, hquiet.2, List.append_nil]
    exact h.given

theorem Served.advance (h : Served k sys) (hl : KeyLaws max_size k sys) {i : ℕ}
    (hadvance : sys.advance max_size i = .ok next) : Served k next := by
  obtain ⟨who, op, op', hop, hs, hops⟩ := System.advance_eq_ok hadvance
  have hmem := List.mem_of_getElem? hop
  have hkind := hs.kind
  have herases : op.erases = false := h.spared _ hmem
  obtain ⟨l, hpopped, hcarried⟩ := popped_of_step hs k
  obtain ⟨l', hpushed, hstored⟩ := stored_of_step hs k
  have hadd : phase k op = .adding → sys.store.semW k = none :=
    semW_of_adding hl.lawful.pair hmem
  have hstays : (sys.store.semR k).isSome → (next.store.semR k).isSome := by
    intro hsome
    obtain ⟨p, hp⟩ := Option.isSome_iff_exists.1 hsome
    have hstay : next.store.sem .read k = some p := sem_of_step hs (fun _ => herases) hadd hp
    exact Option.isSome_of_eq_some hstay
  constructor
  · intro x hx
    rw [hops] at hx
    rcases List.mem_or_eq_of_mem_set hx with hx | rfl
    · exact h.spared x hx
    · exact hkind.2.2.trans herases
  · intro x hx hk hentered
    rw [hops] at hx
    rcases List.mem_or_eq_of_mem_set hx with hx | rfl
    · exact hstays (h.present x hx hk hentered)
    · have hkey : op.key = k := hkind.1.symm.trans hk
      have hsome := present_of_step hs herases fun he => by
        rw [hkey]
        exact h.present _ hmem hkey he
      rwa [hkey] at hsome
  · intro x hx
    rw [hops] at hx
    rcases List.mem_or_eq_of_mem_set hx with hx | rfl
    · exact h.answered x hx
    · apply ne_false_of_step hs ?_ (h.answered _ hmem)
      intro hgranted
      have hpos := census_pos (fun x : I × Op T K => phase k x.2) hmem
      have hphase : phase k op = .claimed := by
        rw [hgranted]
        exact if_pos rfl
      rw [hphase] at hpos
      exact hl.lawful.items_of_claimed hpos
  · rw [hpopped, hops]
    exact (h.taken.append_right l).trans (flatMap_set_perm hop hcarried).symm
  · rw [hpushed, hops]
    exact (h.given.append_right l').trans (flatMap_set_perm hop hstored).symm

theorem served_of_run (hmax : 1 ≤ max_size) {es : List (Event T K I)} (hes : NoErase es)
    (hrun : run (System.step max_size) System.empty es = some sys) (k : K) :
    Served k sys ∧ KeyLaws max_size k sys := by
  have hlaws : ∀ s : System T K I, Reachable (System.step max_size) System.empty s → Served k s →
      KeyLaws max_size k s := fun s hreach hserved =>
    keyLaws_of_reachable hmax hreach fun x hx _ => hserved.spared x hx
  have hinv : Reachable (System.step max_size) System.empty sys ∧ Served k sys := by
    apply run_invariant (P := fun _ e => e ∈ es) (I := fun s =>
      Reachable (System.step max_size) System.empty s ∧ Served k s) ?_ ⟨⟨[], rfl⟩, served_empty⟩
      (along_of_forall fun _ he => he) hrun
    intro s e t hs he hst
    refine ⟨hs.1.next hst, ?_⟩
    cases e with
    | begin who call =>
      cases hst
      apply hs.2.begin
      cases call with
      | eraseKey key => exact absurd he (hes who key)
      | _ => rfl
    | advance i => exact hs.2.advance (hlaws s hs.1 hs.2) (except_toOption_eq_some hst)
  exact ⟨hinv.2, hlaws sys hinv.1 hinv.2⟩

theorem phase_of_returned {op : Op T K} (h : hasReturned op = true) (k : K) :
    phase k op = .elsewhere := by
  unfold hasReturned at h
  split at h
  · exact ite_self _
  · exact ite_self _
  · rfl
  · cases h

theorem census_of_returned {ops : List (I × Op T K)} {k : K}
    (hall : ∀ x ∈ ops, x.2.key = k → hasReturned x.2 = true) {a : Phase} (ha : a ≠ .elsewhere) :
    census (fun x : I × Op T K => phase k x.2) ops a = 0 := by
  apply census_eq_zero
  intro x hx hphase
  by_cases hk : x.2.key = k
  · exact ha (hphase.symm.trans (phase_of_returned (hall x hx hk) k))
  · exact ha (hphase.symm.trans (phase_ne hk))

end Runs

/-- In every run without `eraseKey`, at every key: the values taken by `get` are,
in the order of the pops, the first of the values stored by `put`; no `get` returns
false; the queue holds at most `max_size - 1` values; and when all calls on the key
have returned, the counts of its semaphores are the numbers of values and of free
places. -/
theorem queue_guarantees (hmax : 2 ≤ max_size) {es : List (Event T K I)} (hes : NoErase es)
    {sys : System T K I} (hrun : run (System.step max_size) System.empty es = some sys) (k : K) :
    sys.store.popped k <+: sys.store.pushed k ∧
      (sys.store.popped k).Perm (sys.ops.flatMap fun x => carried k x.2) ∧
      (sys.store.pushed k).Perm (sys.ops.flatMap fun x => stored k x.2) ∧
      (∀ x ∈ sys.ops, x.2 ≠ .get k (.returned none)) ∧
      (sys.store.collection k).length ≤ max_size - 1 ∧
      ((∃ x ∈ sys.ops, x.2.key = k) → (∀ x ∈ sys.ops, x.2.key = k → hasReturned x.2 = true) →
        ∃ semR semW, sys.store.semR k = some semR ∧ sys.store.semW k = some semW ∧
          sys.store.count semR = (sys.store.collection k).length ∧
          sys.store.count semR + sys.store.count semW = max_size - 1) := by
  obtain ⟨hserved, hlaws⟩ := served_of_run (by omega) hes hrun k
  have hlawful := hlaws.lawful
  have horder : sys.store.pushed k = sys.store.popped k ++ sys.store.collection k := hlawful.order
  refine ⟨⟨_, horder.symm⟩, hserved.taken, hserved.given, hserved.answered,
    hlawful.roomy.length_le, ?_⟩
  · rintro ⟨x, hx, hkey⟩ hall
    have hzero : ∀ a, a ≠ .elsewhere → census (fun x : I × Op T K => phase k x.2) sys.ops a = 0 :=
      fun a ha => census_of_returned hall ha
    have hentered : entered x.2 = true := by
      have hreturned := hall x hx hkey
      unfold hasReturned at hreturned
      unfold entered
      split <;> first | rfl | simp_all
    have hread := hserved.present x hx hkey hentered
    obtain ⟨semR, hsemR⟩ := Option.isSome_iff_exists.1 hread
    have hpair := hlawful.pair
    rw [hzero .adding (by decide)] at hpair
    have hwrite : (sys.store.semW k).isSome = true := by
      have htrue : (view max_size k sys.store).hasRead = true := hread
      rw [htrue] at hpair
      cases hw : (view max_size k sys.store).hasWrite with
      | false =>
        rw [hw] at hpair
        cases hpair
      | true => exact hw
    obtain ⟨semW, hsemW⟩ := Option.isSome_iff_exists.1 hwrite
    have hreaders := hlawful.readers
    have hwriters := hlawful.writers
    have hlevelR : (view max_size k sys.store).readable = sys.store.count semR :=
      level_of_sem .read 0 hsemR
    have hlevelW : (view max_size k sys.store).writable = sys.store.count semW :=
      level_of_sem .write (max_size - 1) hsemW
    rw [hlevelR, hzero .claimed (by decide), hzero .written (by decide)] at hreaders
    rw [hlevelW, hzero .reserved (by decide), hzero .freeing (by decide)] at hwriters
    change ((sys.store.collection k).length : ℤ) = _ at hreaders
    change _ + _ + ((sys.store.collection k).length : ℤ) + _ = _ at hwriters
    exact ⟨semR, semW, hsemR, hsemW, by omega, by omega⟩

def twoPutsOneGet : List (Event ℕ ℕ ℕ) :=
  List.flatten
    [[.begin 1 (.put 5 10), .begin 2 (.put 5 11), .begin 3 (.get 5)], List.replicate 5 (.advance 0),
      List.replicate 4 (.advance 1), [.advance 0], List.replicate 5 (.advance 2), [.advance 1]]

theorem queue_guarantees_twoPutsOneGet : ∃ sys,
    run (System.step 3) System.empty twoPutsOneGet = some sys ∧
      sys.ops.map Prod.snd = [.put 5 10 .returned, .put 5 11 .returned, .get 5 (.returned (some 10))] ∧
      sys.store.popped 5 <+: sys.store.pushed 5 ∧ (sys.store.collection 5).length ≤ (3 - 1 : ℤ) ∧
      ∃ semR semW, sys.store.semR 5 = some semR ∧ sys.store.semW 5 = some semW ∧
        sys.store.count semR = (sys.store.collection 5).length ∧
        sys.store.count semR + sys.store.count semW = 3 - 1 := by
  have hops : (run (System.step 3) System.empty twoPutsOneGet).map (fun sys => sys.ops.map Prod.snd) =
      some [.put 5 10 .returned, .put 5 11 .returned, .get 5 (.returned (some 10))] := by
    decide +kernel
  obtain ⟨sys, hrun, hops⟩ := Option.map_eq_some_iff.1 hops
  have hes : NoErase twoPutsOneGet := by
    intro who key
    simp [twoPutsOneGet]
  obtain ⟨hfifo, -, -, -, hcapacity, hquiet⟩ := queue_guarantees (by decide) hes hrun 5
  have hmem : ∀ x ∈ sys.ops, x.2 ∈
      [Op.put 5 10 .returned, .put 5 11 .returned, .get 5 (.returned (some 10))] := by
    intro x hx
    rw [← hops]
    exact List.mem_map_of_mem hx
  refine ⟨sys, hrun, hops, hfifo, hcapacity, hquiet ?_ ?_⟩
  · have hfirst : Op.put 5 10 .returned ∈ sys.ops.map Prod.snd := by
      rw [hops]
      exact List.mem_cons_self
    obtain ⟨x, hx, hop⟩ := List.mem_map.1 hfirst
    exact ⟨x, hx, by rw [hop]; rfl⟩
  · intro x hx _
    have hthree := hmem x hx
    simp only [List.mem_cons, List.not_mem_nil, or_false] at hthree
    rcases hthree with hop | hop | hop <;> rw [hop] <;> rfl

end PolkadotApi.QueueGuarantees
