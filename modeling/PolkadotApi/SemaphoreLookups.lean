import PolkadotApi.KeyErasure

set_option autoImplicit false

namespace PolkadotApi.SemaphoreLookups
open StepRuns StreamReader BoundedBuffer ConcurrentMapQueue QueueLaws QueueGuarantees KeyErasure

variable {T K I : Type} [DecidableEq K] {max_size : ℤ}

/-- The semaphores that the next step of a call looks up or uses are in the maps. -/
def Present (q : Store T K) : Op T K → Prop
  | .put k _ pc =>
    match pc with
    | .added => (q.semW k).isSome
    | .waiting semW => q.semW k = some semW
    | .written => (q.semR k).isSome
    | _ => True
  | .get k pc =>
    match pc with
    | .added => (q.semR k).isSome
    | .waiting semR => q.semR k = some semR
    | .popped _ => (q.semW k).isSome
    | _ => True
  | .eraseKey k pc =>
    match pc with
    | .enter => (q.semR k).isSome ∧ (q.semW k).isSome
    | .looked semR _ => q.semR k = some semR
    | _ => True

/-- `eraseKey` is called on a key that is there, when all other calls on it have
returned, and no other call on the key is made before it returns. -/
def Exclusive (sys : System T K I) : Event T K I → Prop
  | .begin _ (.eraseKey k) => (sys.store.semR k).isSome ∧ (sys.store.semW k).isSome ∧
      ∀ x ∈ sys.ops, x.2.key = k → hasReturned x.2 = true
  | .begin _ (.put k _) => ∀ x ∈ sys.ops, x.2.key = k → x.2.erases = true → hasReturned x.2 = true
  | .begin _ (.get k) => ∀ x ∈ sys.ops, x.2.key = k → x.2.erases = true → hasReturned x.2 = true
  | .advance _ => True

instance (sys : System T K I) : ∀ e : Event T K I, Decidable (Exclusive sys e)
  | .begin _ (.eraseKey k) => inferInstanceAs (Decidable ((sys.store.semR k).isSome ∧
      (sys.store.semW k).isSome ∧ ∀ x ∈ sys.ops, x.2.key = k → hasReturned x.2 = true))
  | .begin _ (.put k _) => inferInstanceAs (Decidable (∀ x ∈ sys.ops, x.2.key = k →
      x.2.erases = true → hasReturned x.2 = true))
  | .begin _ (.get k) => inferInstanceAs (Decidable (∀ x ∈ sys.ops, x.2.key = k →
      x.2.erases = true → hasReturned x.2 = true))
  | .advance _ => inferInstanceAs (Decidable True)

section Mutex

def adds : Op T K → Bool
  | .put _ _ (.addKey .adding) => true
  | .get _ (.addKey .adding) => true
  | _ => false

theorem adds_of_phase {k : K} {op : Op T K} (h : phase k op = .adding) : adds op = true := by
  rcases op_of_phase h (by decide) with ⟨v, pc, rfl, hpc⟩ | ⟨pc, rfl, hpc⟩
  · rcases pc_of_putPhase hpc (by decide) with ⟨rfl, _⟩ | ⟨_, ha⟩ | ⟨_, ha⟩
    · rfl
    · cases ha
    · cases ha
  · rcases pc_of_getPhase hpc (by decide) with ⟨rfl, _⟩ | ⟨_, ha⟩ | ⟨_, _, ha⟩
    · rfl
    · cases ha
    · cases ha

structure Mutex (sys : System T K I) : Prop where
  held : ∀ x ∈ sys.ops, adds x.2 = true → sys.store.keyMtx = true
  single : ∀ (i j : ℕ) (x y : I × Op T K), sys.ops[i]? = some x → sys.ops[j]? = some y → adds x.2 = true →
    adds y.2 = true → i = j

theorem mutex_of_step {op next : Op T K} {q r : Store T K} (h : OpStep max_size op q next r) :
    (q.keyMtx = false ∧ adds next = true ∧ r.keyMtx = true) ∨
      (adds op = true ∧ adds next = false) ∨
      (adds op = false ∧ adds next = false ∧ r.keyMtx = q.keyMtx) := by
  cases h with
  | put h =>
    cases h with
    | newR free => exact Or.inl ⟨free, rfl, rfl⟩
    | newW => exact Or.inr (Or.inl ⟨rfl, rfl⟩)
    | _ => exact Or.inr (Or.inr ⟨rfl, rfl, rfl⟩)
  | get h =>
    cases h with
    | newR free => exact Or.inl ⟨free, rfl, rfl⟩
    | newW => exact Or.inr (Or.inl ⟨rfl, rfl⟩)
    | _ => exact Or.inr (Or.inr ⟨rfl, rfl, rfl⟩)
  | eraseKey h => cases h <;> exact Or.inr (Or.inr ⟨rfl, rfl, rfl⟩)

omit [DecidableEq K] in
theorem Mutex.begin {sys : System T K I} (h : Mutex sys) (who : I) (call : Call T K) :
    Mutex (sys.begin who call) := by
  have hnew : adds call.start = false := by cases call <;> rfl
  constructor
  · intro x hx hadds
    rcases List.mem_append.1 hx with hx | hx
    · exact h.held x hx hadds
    · rw [List.mem_singleton.1 hx, hnew] at hadds
      cases hadds
  · intro i j x y hi hj hx hy
    rcases getElem?_concat_cases hi with hi | ⟨-, rfl⟩
    · rcases getElem?_concat_cases hj with hj | ⟨-, rfl⟩
      · exact h.single i j x y hi hj hx hy
      · rw [hnew] at hy
        cases hy
    · rw [hnew] at hx
      cases hx

theorem Mutex.step {sys next : System T K I} {e : Event T K I} (h : Mutex sys)
    (hst : sys.step max_size e = some next) : Mutex next := by
  cases e with
  | begin who call =>
    cases hst
    exact h.begin who call
  | advance m =>
    obtain ⟨who, op, op', hop, hs, hops⟩ := System.advance_eq_ok (except_toOption_eq_some hst)
    rcases mutex_of_step hs with ⟨hfree, hnext, hheld⟩ | ⟨hadds, hnext⟩ | ⟨-, hnext, hsame⟩
    · have hnone : ∀ x ∈ sys.ops, adds x.2 = false := by
        intro x hx
        by_contra hadds
        have := h.held x hx (by simpa using hadds)
        rw [hfree] at this
        cases this
      constructor
      · intro x _ _
        exact hheld
      · have honly : ∀ (i : ℕ) (x : I × Op T K), next.ops[i]? = some x → adds x.2 = true → i = m := by
          intro i x hi hx
          rw [hops] at hi
          rcases getElem?_set_cases hi with ⟨rfl, rfl⟩ | ⟨-, hi⟩
          · rfl
          · rw [hnone x (List.mem_of_getElem? hi)] at hx
            cases hx
        intro i j x y hi hj hx hy
        rw [honly i x hi hx, honly j y hj hy]
    · have hnone : ∀ (i : ℕ) (x : I × Op T K), next.ops[i]? = some x → adds x.2 = false := by
        intro i x hi
        rw [hops] at hi
        rcases getElem?_set_cases hi with ⟨rfl, rfl⟩ | ⟨hne, hi⟩
        · exact hnext
        · by_contra hx
          exact hne (h.single i m x _ hi hop (by simpa using hx) hadds)
      constructor
      · intro x hx hadds
        obtain ⟨i, hi⟩ := List.mem_iff_getElem?.1 hx
        rw [hnone i x hi] at hadds
        cases hadds
      · intro i j x y hi _ hx _
        rw [hnone i x hi] at hx
        cases hx
    · have hold : ∀ (i : ℕ) (x : I × Op T K), next.ops[i]? = some x → adds x.2 = true →
          sys.ops[i]? = some x := by
        intro i x hi hx
        rw [hops] at hi
        rcases getElem?_set_cases hi with ⟨rfl, rfl⟩ | ⟨-, hi⟩
        · rw [hnext] at hx
          cases hx
        · exact hi
      constructor
      · intro x hx hadds
        obtain ⟨i, hi⟩ := List.mem_iff_getElem?.1 hx
        rw [hsame]
        exact h.held x (List.mem_of_getElem? (hold i x hi hadds)) hadds
      · intro i j x y hi hj hx hy
        exact h.single i j x y (hold i x hi hx) (hold j y hj hy) hx hy

end Mutex

section Modes

def inside : Op T K → Bool
  | .put _ _ (.addKey _) => false
  | .get _ (.addKey _) => false
  | op => !hasReturned op

structure Settled (max_size : ℤ) (k : K) (sys : System T K I) : Prop where
  done : ∀ x ∈ sys.ops, x.2.key = k → x.2.erases = true → hasReturned x.2 = true
  linked : ∀ x ∈ sys.ops, x.2.key = k → ∀ p, x.2.holds = some p → sys.store.sem x.2.side k = some p
  within : ∀ x ∈ sys.ops, x.2.key = k → inside x.2 = true →
    (sys.store.semR k).isSome ∧ (sys.store.semW k).isSome
  paired : Paired (view max_size k sys.store) (census (fun x : I × Op T K => phase k x.2) sys.ops)

/-- The `j`th call is an `eraseKey` of `k`, and all other calls on `k` have returned. -/
structure Erasing (k : K) (j : ℕ) (pc : ErasePc K) (sys : System T K I) : Prop where
  here : ∃ who, sys.ops[j]? = some (who, .eraseKey k pc)
  busy : pc ≠ .returned
  others : ∀ i x, i ≠ j → sys.ops[i]? = some x → x.2.key = k → hasReturned x.2 = true
  present : Present sys.store (.eraseKey k pc : Op T K)
  erasedR : ∀ r w, pc = .erasedR r w ∨ pc = .erasedW r w → sys.store.semR k = none
  erasedW : ∀ r w, pc = .erasedW r w → sys.store.semW k = none

def Safe (max_size : ℤ) (k : K) (sys : System T K I) : Prop :=
  Settled max_size k sys ∨ ∃ j pc, Erasing k j pc sys

variable {sys next : System T K I} {k : K} {j i : ℕ} {pc : ErasePc K} {who : I} {op op' : Op T K}

omit [DecidableEq K] in
theorem present_of_returned {q : Store T K} (h : hasReturned op = true) : Present q op := by
  unfold hasReturned at h
  split at h <;> trivial

omit [DecidableEq K] in
theorem holds_of_returned (h : hasReturned op = true) : op.holds = none := by
  unfold hasReturned at h
  split at h <;> first | rfl | cases h

theorem Settled.present (h : Settled max_size k sys) {x : I × Op T K} (hx : x ∈ sys.ops)
    (hk : x.2.key = k) : Present sys.store x.2 := by
  have hdone := h.done x hx hk
  have hlinked := h.linked x hx hk
  have hwithin := h.within x hx hk
  subst hk
  obtain ⟨who, op⟩ := x
  cases op with
  | put key value pc =>
    cases pc with
    | added => exact (hwithin rfl).2
    | waiting p => exact hlinked p rfl
    | written => exact (hwithin rfl).1
    | _ => trivial
  | get key pc =>
    cases pc with
    | added => exact (hwithin rfl).1
    | waiting p => exact hlinked p rfl
    | popped v => exact (hwithin rfl).2
    | _ => trivial
  | eraseKey key pc => exact present_of_returned (hdone rfl)

theorem Safe.present (h : Safe max_size k sys) {x : I × Op T K} (hx : x ∈ sys.ops)
    (hk : x.2.key = k) : Present sys.store x.2 := by
  rcases h with h | ⟨j, pc, h⟩
  · exact h.present hx hk
  · obtain ⟨i, hi⟩ := List.mem_iff_getElem?.1 hx
    obtain ⟨who, hj⟩ := h.here
    by_cases hij : i = j
    · subst hij
      cases hi.symm.trans hj
      exact h.present
    · exact present_of_returned (h.others i x hij hi hk)

theorem Settled.begin (h : Settled max_size k sys) (who : I) {call : Call T K}
    (hcall : call.start.key = k → call.start.erases = false) :
    Settled max_size k (sys.begin who call) := by
  constructor
  · intro x hx hk herases
    rcases List.mem_append.1 hx with hx | hx
    · exact h.done x hx hk herases
    · rw [List.mem_singleton.1 hx] at hk herases
      rw [hcall hk] at herases
      cases herases
  · intro x hx hk p hp
    rcases List.mem_append.1 hx with hx | hx
    · exact h.linked x hx hk p hp
    · rw [List.mem_singleton.1 hx, call.start_holds] at hp
      cases hp
  · intro x hx hk hinside
    rcases List.mem_append.1 hx with hx | hx
    · exact h.within x hx hk hinside
    · rw [List.mem_singleton.1 hx] at hk hinside
      cases call with
      | eraseKey key => cases hcall hk
      | _ => cases hinside
  · have hadding := census_append (fun x : I × Op T K => phase k x.2) sys.ops (x := (who, call.start))
      (phase_start k call) (a := .adding) (by decide)
    change _ = _ + census _ (sys.ops ++ [(who, call.start)]) .adding
    rw [hadding]
    exact h.paired

theorem Safe.begin (h : Safe max_size k sys) (who : I) {call : Call T K}
    (he : Exclusive sys (.begin who call)) : Safe max_size k (sys.begin who call) := by
  rcases h with h | ⟨j, pc, h⟩
  · by_cases hcall : call.start.key = k → call.start.erases = false
    · exact Or.inl (h.begin who hcall)
    · cases call with
      | put key value => exact absurd (fun _ => rfl) hcall
      | get key => exact absurd (fun _ => rfl) hcall
      | eraseKey key =>
        have hkey : key = k := by
          by_contra hne
          exact hcall fun hk => absurd hk hne
        subst hkey
        obtain ⟨hsemR, hsemW, hall⟩ := he
        refine Or.inr ⟨sys.ops.length, .enter, ⟨who, List.getElem?_concat_length⟩, by simp, ?_,
          ⟨hsemR, hsemW⟩, ?_, ?_⟩
        · intro i x hi hx hk
          rcases getElem?_concat_cases hx with hx | ⟨rfl, -⟩
          · exact hall x (List.mem_of_getElem? hx) hk
          · exact absurd rfl hi
        · rintro r w (hpc | hpc) <;> cases hpc
        · intro r w hpc
          cases hpc
  · obtain ⟨owner, hj⟩ := h.here
    have hmem := List.mem_of_getElem? hj
    have hbusy : hasReturned (.eraseKey k pc : Op T K) = false := by
      have hpc := h.busy
      cases pc <;> first | rfl | exact absurd rfl hpc
    have hother : call.start.key ≠ k := by
      intro hk
      have hreturned : hasReturned (.eraseKey k pc : Op T K) = true := by
        cases call with
        | put key value => exact he _ hmem hk.symm rfl
        | get key => exact he _ hmem hk.symm rfl
        | eraseKey key => exact he.2.2 _ hmem hk.symm
      rw [hbusy] at hreturned
      cases hreturned
    refine Or.inr ⟨j, pc, ⟨owner, ?_⟩, h.busy, ?_, h.present, h.erasedR, h.erasedW⟩
    · exact List.getElem?_append_left (List.getElem?_eq_some_iff.1 hj).1 ▸ hj
    · intro i x hi hx hk
      rcases getElem?_concat_cases hx with hx | ⟨-, rfl⟩
      · exact h.others i x hi hx hk
      · exact absurd hk hother

omit [DecidableEq K] in
theorem present_of_sem {q r : Store T K} (hsem : ∀ side, r.sem side k = q.sem side k)
    (h : Present q (.eraseKey k pc : Op T K)) : Present r (.eraseKey k pc : Op T K) := by
  have hsemR : r.semR k = q.semR k := hsem .read
  have hsemW : r.semW k = q.semW k := hsem .write
  cases pc with
  | enter =>
    change (r.semR k).isSome ∧ (r.semW k).isSome
    rw [hsemR, hsemW]
    exact h
  | looked p w =>
    change r.semR k = some p
    rw [hsemR]
    exact h
  | _ => trivial

theorem Safe.other (h : Safe max_size k sys) (hnamed : sys.Named)
    (hop : sys.ops[i]? = some (who, op)) (hs : OpStep max_size op sys.store op' next.store)
    (hops : next.ops = sys.ops.set i (who, op')) (hk : op.key ≠ k) : Safe max_size k next := by
  have hmem := List.mem_of_getElem? hop
  have hk' : op'.key ≠ k := by rwa [hs.kind.1]
  have hold : ∀ x ∈ next.ops, x.2.key = k → x ∈ sys.ops := by
    intro x hx hkey
    rw [hops] at hx
    rcases List.mem_or_eq_of_mem_set hx with hx | rfl
    · exact hx
    · exact absurd hkey hk'
  have hsem := sem_of_ne hs hk
  have hsemR : next.store.semR k = sys.store.semR k := hsem .read
  have hsemW : next.store.semW k = sys.store.semW k := hsem .write
  rcases h with h | ⟨j, pc, h⟩
  · refine Or.inl ⟨?_, ?_, ?_, ?_⟩
    · exact fun x hx hkey => h.done x (hold x hx hkey) hkey
    · intro x hx hkey p hp
      rw [hsem]
      exact h.linked x (hold x hx hkey) hkey p hp
    · intro x hx hkey hinside
      rw [hsemR, hsemW]
      exact h.within x (hold x hx hkey) hkey hinside
    · rw [view_of_ne hs hnamed.store (hnamed.ops _ hmem) hk, hops, census_of_ne hop hk hs.kind.1]
      exact h.paired
  · obtain ⟨owner, hj⟩ := h.here
    have hne : i ≠ j := by
      rintro rfl
      cases hop.symm.trans hj
      exact hk rfl
    refine Or.inr ⟨j, pc, ⟨owner, ?_⟩, h.busy, ?_, present_of_sem hsem h.present, ?_, ?_⟩
    · rw [hops, List.getElem?_set_ne hne, hj]
    · intro m x hm hx hkey
      rw [hops] at hx
      rcases getElem?_set_cases hx with ⟨rfl, rfl⟩ | ⟨-, hx⟩
      · exact absurd hkey hk'
      · exact h.others m x hm hx hkey
    · exact fun r w hpc => hsemR.trans (h.erasedR r w hpc)
    · exact fun r w hpc => hsemW.trans (h.erasedW r w hpc)

/-- Once `addKey` is over, both semaphores of the key are there. -/
theorem Settled.within_of_step (h : Settled max_size k sys) (hmutex : Mutex sys)
    (hmem : (who, op) ∈ sys.ops) (hs : OpStep max_size op sys.store op' next.store)
    (hk : op.key = k) (he : op.erases = false) (hinside : inside op' = true)
    (hstay : ∀ side p, sys.store.sem side k = some p → next.store.sem side k = some p) :
    (next.store.semR k).isSome ∧ (next.store.semW k).isSome := by
  have hsome : ∀ side, (sys.store.sem side k).isSome → (next.store.sem side k).isSome := by
    intro side hside
    obtain ⟨p, hp⟩ := Option.isSome_iff_exists.1 hside
    exact Option.isSome_of_eq_some (hstay side p hp)
  have hboth : (sys.store.semR k).isSome ∧ (sys.store.semW k).isSome →
      (next.store.semR k).isSome ∧ (next.store.semW k).isSome :=
    fun hsys => ⟨hsome .read hsys.1, hsome .write hsys.2⟩
  have hfound : sys.store.keyMtx = false → (sys.store.semR k).isSome →
      (sys.store.semR k).isSome ∧ (sys.store.semW k).isSome := by
    intro hfree hread
    refine ⟨hread, ?_⟩
    have hzero : census (fun x : I × Op T K => phase k x.2) sys.ops .adding = 0 := by
      apply census_eq_zero
      intro x hx hphase
      have hheld := hmutex.held x hx (adds_of_phase hphase)
      rw [hfree] at hheld
      cases hheld
    have hpaired := h.paired
    have hread' : (view max_size k sys.store).hasRead = true := hread
    unfold Paired at hpaired
    rw [hzero, hread'] at hpaired
    cases hwrite : (view max_size k sys.store).hasWrite with
    | true => exact hwrite
    | false =>
      rw [hwrite] at hpaired
      cases hpaired
  have hnewW : phase k op = .adding → (sys.store.semR k).isSome := by
    intro hphase
    have hpos := census_pos (fun x : I × Op T K => phase k x.2) hmem
    rw [hphase] at hpos
    exact (h.paired.hasWrite_of_adding hpos).1
  have hwithin := h.within _ hmem hk
  subst hk
  generalize hnext : next.store = r at hs hboth hsome
  cases hs with
  | put hs =>
    cases hs with
    | found hfree hread => exact hfound hfree hread
    | newR => cases hinside
    | newW => exact ⟨hsome .read (hnewW (if_pos rfl)), by simp [Store.newW, Op.key]⟩
    | _ => exact hboth (hwithin rfl)
  | get hs =>
    cases hs with
    | found hfree hread => exact hfound hfree hread
    | newR => cases hinside
    | newW => exact ⟨hsome .read (hnewW (if_pos rfl)), by simp [Store.newW, Op.key]⟩
    | _ => exact hboth (hwithin rfl)
  | eraseKey hs => cases he

theorem Settled.advance (h : Settled max_size k sys) (hnamed : sys.Named) (hmutex : Mutex sys)
    (hop : sys.ops[i]? = some (who, op)) (hs : OpStep max_size op sys.store op' next.store)
    (hops : next.ops = sys.ops.set i (who, op')) (hk : op.key = k) : Settled max_size k next := by
  have hmem := List.mem_of_getElem? hop
  have hkind := hs.kind
  have he : op.erases = false := by
    cases herases : op.erases with
    | false => rfl
    | true =>
      have hreturned := h.done _ hmem hk herases
      rw [not_returned_of_step hs] at hreturned
      cases hreturned
  have hadd : phase k op = .adding → sys.store.semW k = none := semW_of_adding h.paired hmem
  have hstay : ∀ side p, sys.store.sem side k = some p → next.store.sem side k = some p :=
    fun side p hp => sem_of_step hs (fun _ => he) hadd hp
  constructor
  · intro x hx hkey herases
    rw [hops] at hx
    rcases List.mem_or_eq_of_mem_set hx with hx | rfl
    · exact h.done x hx hkey herases
    · rw [hkind.2.2, he] at herases
      cases herases
  · intro x hx hkey p hp
    rw [hops] at hx
    rcases List.mem_or_eq_of_mem_set hx with hx | rfl
    · exact hstay _ p (h.linked x hx hkey p hp)
    · rw [← hkey]
      exact held_of_step hs (hkind.2.2.trans he) hp
  · intro x hx hkey hinside
    rw [hops] at hx
    rcases List.mem_or_eq_of_mem_set hx with hx | rfl
    · obtain ⟨hread, hwrite⟩ := h.within x hx hkey hinside
      obtain ⟨p, hp⟩ := Option.isSome_iff_exists.1 hread
      obtain ⟨o, ho⟩ := Option.isSome_iff_exists.1 hwrite
      exact ⟨Option.isSome_of_eq_some (hstay .read p hp),
        Option.isSome_of_eq_some (hstay .write o ho)⟩
    · exact h.within_of_step hmutex hmem hs hk he hinside hstay
  · subst hk
    have hmoves := census_set (fun x : I × Op T K => phase op.key x.2) (y := (who, op')) hop
    rw [hops]
    exact h.paired.step (step_of_key hs hnamed.store he (h.linked _ hmem rfl)) hmoves

theorem settled_of_returned (hall : ∀ x ∈ sys.ops, x.2.key = k → hasReturned x.2 = true)
    (hsemR : sys.store.semR k = none) (hsemW : sys.store.semW k = none) :
    Settled max_size k sys := by
  refine ⟨fun x hx hkey _ => hall x hx hkey, ?_, ?_, ?_⟩
  · intro x hx hkey p hp
    rw [holds_of_returned (hall x hx hkey)] at hp
    cases hp
  · intro x hx hkey hinside
    have hreturned := hall x hx hkey
    unfold inside at hinside
    split at hinside
    · cases hinside
    · cases hinside
    · rw [hreturned] at hinside
      cases hinside
  · unfold Paired
    rw [census_of_returned hall (by decide)]
    simp [view, hsemR, hsemW]

theorem Erasing.advance (h : Erasing k j pc sys)
    (hop : sys.ops[i]? = some (who, op)) (hs : OpStep max_size op sys.store op' next.store)
    (hops : next.ops = sys.ops.set i (who, op')) (hk : op.key = k) : Safe max_size k next := by
  obtain ⟨owner, hj⟩ := h.here
  have hij : i = j := by
    by_contra hne
    have hreturned := h.others i _ hne hop hk
    rw [not_returned_of_step hs] at hreturned
    cases hreturned
  subst hij
  cases hop.symm.trans hj
  have hlt := (List.getElem?_eq_some_iff.1 hop).1
  have hself : next.ops[i]? = some (who, op') := by rw [hops, List.getElem?_set_self hlt]
  have hothers : ∀ m x, m ≠ i → next.ops[m]? = some x → x.2.key = k → hasReturned x.2 = true := by
    intro m x hm hx hkey
    rw [hops, List.getElem?_set_ne (Ne.symm hm)] at hx
    exact h.others m x hm hx hkey
  generalize hnext : next.store = q at hs
  cases hs with
  | eraseKey hs =>
    cases hs with
    | @look _ p hp =>
      refine Or.inr ⟨i, _, ⟨who, hself⟩, by simp, hothers, ?_, ?_, ?_⟩
      · rw [hnext]
        exact hp
      · rintro r w (hpc | hpc) <;> cases hpc
      · intro r w hpc
        cases hpc
    | unblock =>
      refine Or.inr ⟨i, _, ⟨who, hself⟩, by simp, hothers, trivial, ?_, ?_⟩
      · rintro r w (hpc | hpc) <;> cases hpc
      · intro r w hpc
        cases hpc
    | eraseR =>
      refine Or.inr ⟨i, _, ⟨who, hself⟩, by simp, hothers, trivial, ?_, ?_⟩
      · intro r w _
        rw [hnext]
        exact Function.update_self ..
      · intro r w hpc
        cases hpc
    | eraseW =>
      refine Or.inr ⟨i, _, ⟨who, hself⟩, by simp, hothers, trivial, ?_, ?_⟩
      · intro r w _
        rw [hnext]
        exact h.erasedR _ _ (Or.inl rfl)
      · intro r w _
        rw [hnext]
        exact Function.update_self ..
    | delete =>
      have hall : ∀ x ∈ next.ops, x.2.key = k → hasReturned x.2 = true := by
        intro x hx hkey
        obtain ⟨m, hm⟩ := List.mem_iff_getElem?.1 hx
        by_cases hmi : m = i
        · subst hmi
          cases hm.symm.trans hself
          rfl
        · exact hothers m x hmi hm hkey
      have hsemR : next.store.semR k = none := by
        rw [hnext]
        exact h.erasedR _ _ (Or.inr rfl)
      have hsemW : next.store.semW k = none := by
        rw [hnext]
        exact h.erasedW _ _ rfl
      exact Or.inl (settled_of_returned hall hsemR hsemW)

end Modes

section Runs

variable {sys : System T K I}

structure Sound (max_size : ℤ) (sys : System T K I) : Prop where
  named : sys.Named
  mutex : Mutex sys
  safe : ∀ k, Safe max_size k sys

theorem sound_empty : Sound max_size (System.empty : System T K I) := by
  refine ⟨named_empty, ⟨?_, ?_⟩, fun k => Or.inl ⟨?_, ?_, ?_, rfl⟩⟩
  · intro x hx
    cases hx
  · intro i j x y hi
    cases hi
  · intro x hx
    cases hx
  · intro x hx
    cases hx
  · intro x hx
    cases hx

theorem Sound.step {next : System T K I} {e : Event T K I} (h : Sound max_size sys)
    (he : Exclusive sys e) (hst : sys.step max_size e = some next) : Sound max_size next := by
  refine ⟨h.named.step hst, h.mutex.step hst, ?_⟩
  intro k
  cases e with
  | begin who call =>
    cases hst
    exact (h.safe k).begin who he
  | advance i =>
    obtain ⟨who, op, op', hop, hs, hops⟩ := System.advance_eq_ok (except_toOption_eq_some hst)
    by_cases hk : op.key = k
    · rcases h.safe k with hsafe | ⟨j, pc, hsafe⟩
      · exact Or.inl (hsafe.advance h.named h.mutex hop hs hops hk)
      · exact hsafe.advance hop hs hops hk
    · exact (h.safe k).other h.named hop hs hops hk

end Runs

/-- As long as every `eraseKey` has its key to itself, the semaphores that the calls
in progress use next are in the maps. -/
theorem semaphores_present {es : List (Event T K I)} {sys : System T K I}
    (hexclusive : Along (System.step max_size) Exclusive System.empty es)
    (hrun : run (System.step max_size) System.empty es = some sys) :
    ∀ x ∈ sys.ops, Present sys.store x.2 := by
  have hsound : Sound max_size sys := by
    apply run_invariant ?_ sound_empty hexclusive hrun
    intro s e t hs he hst
    exact hs.step he hst
  intro x hx
  exact (hsound.safe x.2.key).present hx rfl

/-- A value is still queued at the key 5 when it is erased; then two threads use the
key again. -/
def eraseAlone : List (Event ℕ ℕ ℕ) :=
  List.flatten
    [[.begin 1 (.put 5 10)], List.replicate 6 (.advance 0), [.begin 1 (.eraseKey 5)],
      List.replicate 5 (.advance 1), [.begin 1 (.put 5 11), .begin 2 (.get 5)],
      List.replicate 5 (.advance 2), List.replicate 2 (.advance 3)]

theorem semaphores_present_eraseAlone :
    (finalState (System.step 2) System.empty eraseAlone).ops.map Prod.snd =
        [.put 5 10 .returned, .eraseKey 5 .returned, .put 5 11 .written,
          .get 5 (.waiting ⟨.read, 5, 2⟩)] ∧
      ∀ x ∈ (finalState (System.step 2) System.empty eraseAlone).ops,
        Present (finalState (System.step 2) System.empty eraseAlone).store x.2 := by
  have hrun := run_finalState (System.step 2) System.empty eraseAlone (by decide +kernel)
  exact ⟨by decide +kernel, semaphores_present (by decide +kernel) hrun⟩

/-- `eraseKey` is called on a key that no `put` or `get` has made. -/
theorem semaphores_present_fails :
    ¬ ∀ (es : List (Event ℕ ℕ ℕ)) (sys : System ℕ ℕ ℕ),
      run (System.step 2) System.empty es = some sys → ∀ x ∈ sys.ops, Present sys.store x.2 := by
  intro hall
  have hpresent := hall [.begin 1 (.eraseKey 5)] _ rfl (1, .eraseKey 5 .enter) List.mem_cons_self
  cases hpresent.1

end PolkadotApi.SemaphoreLookups
