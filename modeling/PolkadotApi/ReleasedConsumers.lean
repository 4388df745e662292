import PolkadotApi.KeyErasure

set_option autoImplicit false

namespace PolkadotApi.ReleasedConsumers
open StepRuns StreamReader ConcurrentMapQueue QueueLaws QueueGuarantees KeyErasure

variable {T K I : Type} [DecidableEq K] {max_size : ℤ}

def Waits (k : K) (r : SemaphorePtr K) (sys : System T K I) (i : ℕ) : Prop :=
  ∃ who, sys.ops[i]? = some (who, .get k (.waiting r))

def GaveUp (k : K) (sys : System T K I) (i : ℕ) : Prop :=
  ∃ who, sys.ops[i]? = some (who, .get k (.returned none))

/-- The `consumers` are blocked in `get` on the empty queue of `k`, the `j`th call is
about to erase `k`, and no other call on `k` is in progress. -/
structure Blocked (k : K) (r : SemaphorePtr K) (consumers : List ℕ) (j : ℕ)
    (sys : System T K I) : Prop where
  present : sys.store.semR k = some r
  alive : sys.store.deleted r = false
  count : sys.store.count r = 0
  empty : sys.store.collection k = []
  eraser : ∃ who, sys.ops[j]? = some (who, .eraseKey k .enter)
  distinct : consumers.Nodup
  waiting : ∀ i ∈ consumers, Waits k r sys i
  others : ∀ (i : ℕ) (x : I × Op T K), sys.ops[i]? = some x → x.2.key = k →
    i = j ∨ i ∈ consumers ∨ hasReturned x.2 = true

def NoCallOn (k : K) (es : List (Event T K I)) : Prop :=
  ∀ who call, .begin who call ∈ es → call.start.key ≠ k

/-- The `i`th call takes a step before the last one of the `j`th call. -/
def StepsBefore (i j : ℕ) (es : List (Event T K I)) : Prop :=
  ∃ first rest, es = first ++ rest ∧ .advance i ∈ first ∧ .advance j ∈ rest

section Frame

variable {op next : Op T K} {q r : Store T K} {p : SemaphorePtr K}

def OwnHands : Op T K → Prop
  | .eraseKey key pc => ∀ r w, captured pc = some (r, w) → r.key = key ∧ ∀ o ∈ w, o.key = key
  | _ => True

theorem OwnHands.step (h : OpStep max_size op q next r) (hq : q.Named) (ho : OwnHands op) :
    OwnHands next := by
  cases h with
  | put => trivial
  | get => trivial
  | eraseKey h =>
    cases h with
    | look hp =>
      rintro _ _ ⟨⟩
      exact ⟨(hq .read _ _ hp).2, fun o ho => (hq .write _ o ho).2⟩
    | unblock =>
      rintro _ _ ⟨⟩
      exact ho _ _ rfl
    | eraseR =>
      rintro _ _ ⟨⟩
      exact ho _ _ rfl
    | eraseW =>
      rintro _ _ ⟨⟩
      exact ho _ _ rfl
    | delete =>
      rintro _ _ ⟨⟩

theorem hands_of_step {sys next : System T K I} {e : Event T K I} (hnamed : sys.Named)
    (hhands : ∀ x ∈ sys.ops, OwnHands x.2) (hst : sys.step max_size e = some next) :
    ∀ x ∈ next.ops, OwnHands x.2 := by
  intro x hx
  cases e with
  | begin who call =>
    cases hst
    rcases List.mem_append.1 hx with hx | hx
    · exact hhands x hx
    · rw [List.mem_singleton.1 hx]
      cases call with
      | eraseKey key => rintro _ _ ⟨⟩
      | _ => trivial
  | advance m =>
    obtain ⟨who, op, op', hop, hs, hops⟩ := System.advance_eq_ok (except_toOption_eq_some hst)
    rw [hops] at hx
    rcases List.mem_or_eq_of_mem_set hx with hx | rfl
    · exact hhands x hx
    · exact OwnHands.step hs hnamed.store (hhands _ (List.mem_of_getElem? hop))

theorem count_of_ne (h : OpStep max_size op q next r) (hq : q.Named) (hop : op.Named)
    (hk : op.key ≠ p.key) : r.count p = q.count p := by
  have hset : ∀ {o : SemaphorePtr K} (n : ℤ), o.key = op.key → (q.setCount o n).count p = q.count p := by
    intro o n ho
    apply Function.update_of_ne
    rintro rfl
    exact hk ho.symm
  cases h with
  | put h =>
    cases h with
    | newR => exact hset (o := ⟨.read, _, q.allocated⟩) 0 rfl
    | newW => exact hset (o := ⟨.write, _, q.allocated⟩) (max_size - 1) rfl
    | take => exact hset _ (hop _ rfl).2
    | signal hp => exact hset _ (hq .read _ _ hp).2
    | _ => rfl
  | get h =>
    cases h with
    | newR => exact hset (o := ⟨.read, _, q.allocated⟩) 0 rfl
    | newW => exact hset (o := ⟨.write, _, q.allocated⟩) (max_size - 1) rfl
    | take => exact hset _ (hop _ rfl).2
    | signal hp => exact hset _ (hq .write _ _ hp).2
    | _ => rfl
  | eraseKey h =>
    cases h with
    | unblock => exact hset _ (hop _ rfl).2
    | _ => rfl

theorem deleted_of_ne (h : OpStep max_size op q next r) (ho : OwnHands op)
    (hk : op.key ≠ p.key) : r.deleted p = q.deleted p := by
  cases h with
  | put h => cases h <;> rfl
  | get h => cases h <;> rfl
  | eraseKey h =>
    cases h with
    | @delete _ o w =>
      obtain ⟨hr, hw⟩ := ho o w rfl
      have hne : p ≠ o := by
        rintro rfl
        exact hk hr.symm
      have hnot : some p ≠ w := by
        rintro rfl
        exact hk (hw p rfl).symm
      simp [hne, hnot]
    | _ => rfl

end Frame

section Release

variable {sys next : System T K I} {k : K} {r : SemaphorePtr K} {consumers : List ℕ} {j : ℕ}
variable {pc : ErasePc K} {past : List (Event T K I)}

def early : ErasePc K → Bool
  | .enter => true
  | .looked _ _ => true
  | _ => false

/-- Before `unblockAll` all consumers wait; afterwards the count is one until one of
them has got through. -/
def Permits (k : K) (r : SemaphorePtr K) (consumers : List ℕ) (pc : ErasePc K)
    (sys : System T K I) : Prop :=
  (sys.store.count r = (if early pc then 0 else 1) ∧ ∀ i ∈ consumers, Waits k r sys i) ∨
    early pc = false ∧ sys.store.count r = 0 ∧
      ∃ i₀ ∈ consumers, ¬ Waits k r sys i₀ ∧ ∀ i ∈ consumers, i ≠ i₀ → Waits k r sys i

structure Letting (k : K) (r : SemaphorePtr K) (consumers : List ℕ) (j : ℕ) (pc : ErasePc K)
    (past : List (Event T K I)) (sys : System T K I) : Prop where
  named : sys.Named
  hands : ∀ x ∈ sys.ops, OwnHands x.2
  key : r.key = k
  empty : sys.store.collection k = []
  eraser : ∃ who, sys.ops[j]? = some (who, .eraseKey k pc)
  found : pc = .enter → sys.store.semR k = some r
  mine : ∀ p w, captured pc = some (p, w) → p = r
  dead : sys.store.deleted r = true ↔ pc = .returned
  others : ∀ (i : ℕ) (x : I × Op T K), sys.ops[i]? = some x → x.2.key = k →
    i = j ∨ i ∈ consumers ∨ hasReturned x.2 = true
  consumer : ∀ i ∈ consumers, ∃ who gpc, sys.ops[i]? = some (who, .get k gpc) ∧
    (gpc = .waiting r ∨ gpc = .granted ∨ gpc = .returned none)
  permits : Permits k r consumers pc sys
  took : ∀ i ∈ consumers, .advance i ∈ past ↔ ¬ Waits k r sys i
  intime : pc = .returned → ∀ i ∈ consumers, ¬ Waits k r sys i → StepsBefore i j past

omit [DecidableEq K] in
theorem Waits.congr {i : ℕ} (h : next.ops[i]? = sys.ops[i]?) :
    Waits k r next i ↔ Waits k r sys i := by
  unfold Waits
  rw [h]

omit [DecidableEq K] in
theorem StepsBefore.concat {i : ℕ} (h : StepsBefore i j past) (e : Event T K I) :
    StepsBefore i j (past ++ [e]) := by
  obtain ⟨first, rest, rfl, hi, hj⟩ := h
  exact ⟨first, rest ++ [e], by rw [List.append_assoc], hi, List.mem_append_left _ hj⟩

omit [DecidableEq K] in
theorem Permits.keep {pc' : ErasePc K} (h : Permits k r consumers pc sys)
    (hearly : early pc = early pc') (hcount : next.store.count r = sys.store.count r)
    (hwaits : ∀ i ∈ consumers, (Waits k r next i ↔ Waits k r sys i)) :
    Permits k r consumers pc' next := by
  rcases h with ⟨hc, hall⟩ | ⟨hlate, hc, i₀, hi₀, hleft, hrest⟩
  · exact Or.inl ⟨by rw [hcount, hc, hearly], fun i hi => (hwaits i hi).2 (hall i hi)⟩
  · exact Or.inr ⟨hearly ▸ hlate, hcount.trans hc, i₀, hi₀, fun hw => hleft ((hwaits i₀ hi₀).1 hw),
      fun i hi hne => (hwaits i hi).2 (hrest i hi hne)⟩

omit [DecidableEq K] in
/-- The count was one, so nobody had got through before. -/
theorem Permits.grant {m : ℕ} (h : Permits k r consumers pc sys) (hm : m ∈ consumers)
    (hne : sys.store.count r ≠ 0) (hcount : next.store.count r = sys.store.count r - 1)
    (hleft : ¬ Waits k r next m) (hwaits : ∀ i, i ≠ m → (Waits k r next i ↔ Waits k r sys i)) :
    Permits k r consumers pc next := by
  rcases h with ⟨hc, hall⟩ | ⟨-, hc, -⟩
  · have hlate : early pc = false := by
      cases hearly : early pc with
      | false => rfl
      | true =>
        rw [hearly] at hc
        exact absurd hc hne
    rw [hlate] at hc
    refine Or.inr ⟨hlate, ?_, m, hm, hleft, fun i hi him => (hwaits i him).2 (hall i hi)⟩
    rw [hcount, hc]
    rfl
  · exact absurd hc hne

omit [DecidableEq K] in
theorem Permits.leave {m : ℕ} (h : Permits k r consumers pc sys) (hm : m ∈ consumers)
    (hnot : ¬ Waits k r sys m) (hcount : next.store.count r = sys.store.count r)
    (hleft : ¬ Waits k r next m) (hwaits : ∀ i, i ≠ m → (Waits k r next i ↔ Waits k r sys i)) :
    Permits k r consumers pc next := by
  rcases h with ⟨-, hall⟩ | ⟨hlate, hc, i₀, hi₀, hgone, hall⟩
  · exact absurd (hall m hm) hnot
  · have him : m = i₀ := by
      by_contra hne
      exact hnot (hall m hm hne)
    subst him
    exact Or.inr ⟨hlate, hcount.trans hc, m, hm, hleft,
      fun i hi hne => (hwaits i hne).2 (hall i hi hne)⟩

omit [DecidableEq K] in
theorem Letting.took_concat (h : Letting k r consumers j pc past sys) {e : Event T K I}
    (hwaits : ∀ i ∈ consumers, (Waits k r next i ↔ Waits k r sys i))
    (he : ∀ i ∈ consumers, e ≠ .advance i) :
    ∀ i ∈ consumers, .advance i ∈ past ++ [e] ↔ ¬ Waits k r next i := by
  intro i hi
  rw [hwaits i hi, ← h.took i hi, List.mem_append, List.mem_singleton]
  exact or_iff_left fun heq => he i hi heq.symm

omit [DecidableEq K] in
theorem Letting.frame (h : Letting k r consumers j pc past sys) {e : Event T K I}
    (hnamed : next.Named) (hhands : ∀ x ∈ next.ops, OwnHands x.2)
    (hcollection : next.store.collection k = sys.store.collection k)
    (hsemR : next.store.semR k = sys.store.semR k) (hcount : next.store.count r = sys.store.count r)
    (hdeleted : next.store.deleted r = sys.store.deleted r)
    (hops : ∀ i, (i = j ∨ i ∈ consumers) → next.ops[i]? = sys.ops[i]?)
    (hothers : ∀ (i : ℕ) (x : I × Op T K), next.ops[i]? = some x → x.2.key = k →
      sys.ops[i]? = some x)
    (he : ∀ i ∈ consumers, e ≠ .advance i) : Letting k r consumers j pc (past ++ [e]) next := by
  have hwaits : ∀ i ∈ consumers, (Waits k r next i ↔ Waits k r sys i) :=
    fun i hi => Waits.congr (hops i (Or.inr hi))
  refine ⟨hnamed, hhands, h.key, hcollection.trans h.empty, ?_, fun hpc => hsemR.trans (h.found hpc),
    h.mine, ?_, fun i x hx hkey => h.others i x (hothers i x hx hkey) hkey, ?_,
    h.permits.keep rfl hcount hwaits, h.took_concat hwaits he, ?_⟩
  · rw [hops j (Or.inl rfl)]
    exact h.eraser
  · rw [hdeleted]
    exact h.dead
  · intro i hi
    rw [hops i (Or.inr hi)]
    exact h.consumer i hi
  · intro hpc i hi hleft
    exact (h.intime hpc i hi fun hw => hleft ((hwaits i hi).2 hw)).concat e

omit [DecidableEq K] in
theorem Letting.ne_eraser (h : Letting k r consumers j pc past sys) {i : ℕ} (hi : i ∈ consumers) :
    i ≠ j := by
  rintro rfl
  obtain ⟨who, gpc, hop, -⟩ := h.consumer i hi
  obtain ⟨owner, hj⟩ := h.eraser
  cases hop.symm.trans hj

theorem Letting.erase (h : Letting k r consumers j pc past sys) {who : I} {pc' : ErasePc K}
    (hop : sys.ops[j]? = some (who, .eraseKey k pc)) (hs : EraseStep k pc sys.store pc' next.store)
    (hops : next.ops = sys.ops.set j (who, .eraseKey k pc')) (hnamed : next.Named)
    (hhands : ∀ x ∈ next.ops, OwnHands x.2) :
    Letting k r consumers j pc' (past ++ [.advance j]) next := by
  have heraser : next.ops[j]? = some (who, .eraseKey k pc') := by
    rw [hops, List.getElem?_set_self (List.getElem?_eq_some_iff.1 hop).1]
  have hrest : ∀ i, i ≠ j → next.ops[i]? = sys.ops[i]? := by
    intro i hi
    rw [hops, List.getElem?_set_ne (Ne.symm hi)]
  have hwaits : ∀ i ∈ consumers, (Waits k r next i ↔ Waits k r sys i) :=
    fun i hi => Waits.congr (hrest i (h.ne_eraser hi))
  have hothers : ∀ (i : ℕ) (x : I × Op T K), next.ops[i]? = some x → x.2.key = k →
      i = j ∨ i ∈ consumers ∨ hasReturned x.2 = true := by
    intro i x hx hkey
    by_cases hij : i = j
    · exact Or.inl hij
    · rw [hrest i hij] at hx
      exact h.others i x hx hkey
  have hconsumer : ∀ i ∈ consumers, ∃ who gpc, next.ops[i]? = some (who, .get k gpc) ∧
      (gpc = .waiting r ∨ gpc = .granted ∨ gpc = .returned none) := by
    intro i hi
    rw [hrest i (h.ne_eraser hi)]
    exact h.consumer i hi
  have htook := h.took_concat hwaits (fun i hi heq => h.ne_eraser hi (Event.advance.inj heq).symm)
  have hstill : early pc = early pc' → next.store.count r = sys.store.count r →
      Permits k r consumers pc' next := fun hearly hcount => h.permits.keep hearly hcount hwaits
  have hunfinished : pc ≠ .returned → pc' ≠ .enter → pc' ≠ .returned →
      next.store.collection k = sys.store.collection k →
      next.store.deleted r = sys.store.deleted r → (∀ p w, captured pc' = some (p, w) → p = r) →
      Permits k r consumers pc' next → Letting k r consumers j pc' (past ++ [.advance j]) next := by
    intro hbefore henter hreturned hcollection hdeleted hmine hpermits
    refine ⟨hnamed, hhands, h.key, hcollection.trans h.empty, ⟨who, heraser⟩,
      fun hpc => absurd hpc henter, hmine, ?_, hothers, hconsumer, hpermits, htook,
      fun hpc => absurd hpc hreturned⟩
    rw [hdeleted, h.dead]
    exact iff_of_false hbefore hreturned
  have hempty := h.empty
  have hfound := h.found
  have hmine := h.mine
  have hpermits := h.permits
  generalize hnext : next.store = q at hs
  rw [hnext] at hstill hunfinished
  cases hs with
  | @look _ p hp =>
    have hpr : p = r := Option.some.inj (hp.symm.trans (hfound rfl))
    subst hpr
    exact hunfinished (by rintro ⟨⟩) (by rintro ⟨⟩) (by rintro ⟨⟩) rfl rfl (by rintro _ _ ⟨⟩; rfl)
      (hstill rfl rfl)
  | @unblock _ p w alive =>
    obtain rfl := hmine _ _ rfl
    refine hunfinished (by rintro ⟨⟩) (by rintro ⟨⟩) (by rintro ⟨⟩) rfl rfl
      (by rintro _ _ ⟨⟩; rfl) ?_
    rcases hpermits with ⟨-, hall⟩ | ⟨hlate, -⟩
    · refine Or.inl ⟨?_, fun i hi => (hwaits i hi).2 (hall i hi)⟩
      rw [hnext]
      exact Function.update_self ..
    · cases hlate
  | @eraseR _ p w =>
    obtain rfl := hmine _ _ rfl
    exact hunfinished (by rintro ⟨⟩) (by rintro ⟨⟩) (by rintro ⟨⟩) rfl rfl (by rintro _ _ ⟨⟩; rfl)
      (hstill rfl rfl)
  | @eraseW _ p w =>
    obtain rfl := hmine _ _ rfl
    exact hunfinished (by rintro ⟨⟩) (by rintro ⟨⟩) (by rintro ⟨⟩) rfl rfl (by rintro _ _ ⟨⟩; rfl)
      (hstill rfl rfl)
  | @delete _ p w alive =>
    obtain rfl := hmine _ _ rfl
    refine ⟨hnamed, hhands, h.key, by rw [hnext]; exact hempty, ⟨who, heraser⟩, (by rintro ⟨⟩),
      (by rintro _ _ ⟨⟩), ?_, hothers, hconsumer, hstill rfl rfl, htook, ?_⟩
    · rw [hnext]
      simp
    · intro _ i hi hleft
      refine ⟨past, [.advance j], rfl, ?_, List.mem_singleton_self _⟩
      exact (h.took i hi).2 fun hw => hleft ((hwaits i hi).2 hw)

theorem consumer_step {q q' : Store T K} {gpc gpc' : GetPc T K} (hempty : q.collection k = [])
    (hpcs : gpc = .waiting r ∨ gpc = .granted ∨ gpc = .returned none)
    (hs : GetStep max_size k gpc q gpc' q') :
    q'.collection = q.collection ∧ q'.semR = q.semR ∧ q'.deleted = q.deleted ∧
      (gpc = .waiting r ∧ gpc' = .granted ∧ q.deleted r = false ∧ q.count r ≠ 0 ∧
          q'.count r = q.count r - 1 ∨
        gpc = .granted ∧ gpc' = .returned none ∧ q'.count r = q.count r) := by
  rcases hpcs with rfl | rfl | rfl
  · cases hs with
    | take alive hc => exact ⟨rfl, rfl, rfl, Or.inl ⟨rfl, rfl, alive, hc, Function.update_self ..⟩⟩
  · cases hs with
    | pop hitems =>
      rw [hempty] at hitems
      cases hitems
    | miss => exact ⟨rfl, rfl, rfl, Or.inr ⟨rfl, rfl, rfl⟩⟩
  · cases hs

theorem Letting.consume (h : Letting k r consumers j pc past sys) {who : I} {m : ℕ}
    (hm : m ∈ consumers) {gpc gpc' : GetPc T K} (hop : sys.ops[m]? = some (who, .get k gpc))
    (hs : GetStep max_size k gpc sys.store gpc' next.store)
    (hops : next.ops = sys.ops.set m (who, .get k gpc')) (hnamed : next.Named)
    (hhands : ∀ x ∈ next.ops, OwnHands x.2) :
    Letting k r consumers j pc (past ++ [.advance m]) next := by
  have hself : next.ops[m]? = some (who, .get k gpc') := by
    rw [hops, List.getElem?_set_self (List.getElem?_eq_some_iff.1 hop).1]
  have hrest : ∀ i, i ≠ m → next.ops[i]? = sys.ops[i]? := by
    intro i hi
    rw [hops, List.getElem?_set_ne (Ne.symm hi)]
  have hwaits : ∀ i, i ≠ m → (Waits k r next i ↔ Waits k r sys i) :=
    fun i hi => Waits.congr (hrest i hi)
  obtain ⟨owner, gpc₀, hop₀, hpcs⟩ := h.consumer m hm
  cases hop.symm.trans hop₀
  obtain ⟨hcollection, hsemR, hdeleted, hmoved⟩ := consumer_step h.empty hpcs hs
  have hleft : ¬ Waits k r next m := by
    rintro ⟨who', hw⟩
    cases hself.symm.trans hw
    rcases hmoved with ⟨-, hpc, -⟩ | ⟨-, hpc, -⟩ <;> cases hpc
  refine ⟨hnamed, hhands, h.key, by rw [hcollection]; exact h.empty, ?_,
    fun hpc => by rw [hsemR]; exact h.found hpc, h.mine, by rw [hdeleted]; exact h.dead, ?_, ?_, ?_, ?_,
    ?_⟩
  · rw [hrest j (h.ne_eraser hm).symm]
    exact h.eraser
  · intro i x hx hkey
    by_cases him : i = m
    · exact Or.inr (Or.inl (him ▸ hm))
    · rw [hrest i him] at hx
      exact h.others i x hx hkey
  · intro i hi
    by_cases him : i = m
    · subst him
      refine ⟨who, gpc', hself, ?_⟩
      rcases hmoved with ⟨-, hpc, -⟩ | ⟨-, hpc, -⟩
      · exact Or.inr (Or.inl hpc)
      · exact Or.inr (Or.inr hpc)
    · rw [hrest i him]
      exact h.consumer i hi
  · rcases hmoved with ⟨rfl, -, -, hne, hcount⟩ | ⟨rfl, -, hcount⟩
    · exact h.permits.grant hm hne hcount hleft hwaits
    · refine h.permits.leave hm ?_ hcount hleft hwaits
      rintro ⟨who', hw⟩
      cases hop.symm.trans hw
  · intro i hi
    by_cases him : i = m
    · subst him
      exact iff_of_true (List.mem_append_right _ (List.mem_singleton_self _)) hleft
    · rw [hwaits i him, ← h.took i hi, List.mem_append, List.mem_singleton]
      exact or_iff_left fun heq => him (Event.advance.inj heq)
  · intro hpc i hi hgone
    by_cases him : i = m
    · subst him
      rcases hmoved with ⟨-, -, halive, -⟩ | ⟨rfl, -⟩
      · rw [h.dead.2 hpc] at halive
        cases halive
      · refine (h.intime hpc i hi ?_).concat _
        rintro ⟨who', hw⟩
        cases hop.symm.trans hw
    · exact (h.intime hpc i hi fun hw => hgone ((hwaits i him).2 hw)).concat _

theorem Letting.step (h : Letting k r consumers j pc past sys) {e : Event T K I}
    (he : ∀ who call, e = .begin who call → call.start.key ≠ k)
    (hst : sys.step max_size e = some next) :
    ∃ pc', Letting k r consumers j pc' (past ++ [e]) next := by
  have hnamed := h.named.step hst
  have hhands := hands_of_step h.named h.hands hst
  cases e with
  | begin who call =>
    cases hst
    refine ⟨pc, h.frame hnamed hhands rfl rfl rfl rfl ?_ ?_ (by rintro i hi ⟨⟩)⟩
    · have hold : ∀ (i : ℕ) (x : I × Op T K), sys.ops[i]? = some x →
          (sys.begin who call).ops[i]? = sys.ops[i]? :=
        fun i x hx => List.getElem?_append_left (List.getElem?_eq_some_iff.1 hx).1
      rintro i (rfl | hi)
      · obtain ⟨owner, hj⟩ := h.eraser
        exact hold i _ hj
      · obtain ⟨owner, gpc, hop, -⟩ := h.consumer i hi
        exact hold i _ hop
    · intro i x hx hkey
      rcases getElem?_concat_cases hx with hx | ⟨-, rfl⟩
      · exact hx
      · exact absurd hkey (he who call rfl)
  | advance m =>
    obtain ⟨who, op, op', hop, hs, hops⟩ := System.advance_eq_ok (except_toOption_eq_some hst)
    have hmem := List.mem_of_getElem? hop
    by_cases hk : op.key = k
    · rcases h.others m _ hop hk with rfl | hm | hreturned
      · obtain ⟨owner, hj⟩ := h.eraser
        cases hop.symm.trans hj
        cases hs with
        | eraseKey hs => exact ⟨_, h.erase hop hs hops hnamed hhands⟩
      · obtain ⟨owner, gpc, hop', -⟩ := h.consumer m hm
        cases hop.symm.trans hop'
        cases hs with
        | get hs => exact ⟨pc, h.consume hm hop hs hops hnamed hhands⟩
      · rw [not_returned_of_step hs] at hreturned
        cases hreturned
    · have hne : ∀ i, i = j ∨ i ∈ consumers → m ≠ i := by
        rintro i (rfl | hi) rfl
        · obtain ⟨owner, hj⟩ := h.eraser
          cases hop.symm.trans hj
          exact hk rfl
        · obtain ⟨owner, gpc, hop', -⟩ := h.consumer m hi
          cases hop.symm.trans hop'
          exact hk rfl
      have hview := view_of_ne hs h.named.store (h.named.ops _ hmem) hk
      have hkr : op.key ≠ r.key := by rwa [h.key]
      refine ⟨pc, h.frame hnamed hhands (congrArg BoundedBuffer.Buffer.items hview)
        (sem_of_ne hs hk .read) (count_of_ne hs h.named.store (h.named.ops _ hmem) hkr)
        (deleted_of_ne hs (h.hands _ hmem) hkr) ?_ ?_ ?_⟩
      · intro i hi
        rw [hops, List.getElem?_set_ne (hne i hi)]
      · intro i x hx hkey
        rw [hops] at hx
        rcases getElem?_set_cases hx with ⟨rfl, rfl⟩ | ⟨-, hx⟩
        · exact absurd hkey (by rwa [hs.kind.1])
        · exact hx
      · rintro i hi heq
        exact hne i (Or.inr hi) (Event.advance.inj heq)

omit [DecidableEq K] in
theorem letting_of_blocked (h : Blocked k r consumers j sys) (hnamed : sys.Named)
    (hhands : ∀ x ∈ sys.ops, OwnHands x.2) : Letting k r consumers j .enter [] sys := by
  refine ⟨hnamed, hhands, (hnamed.store .read k r h.present).2, h.empty, h.eraser, fun _ => h.present,
    (by rintro _ _ ⟨⟩), ?_, h.others, ?_, Or.inl ⟨h.count, h.waiting⟩, ?_, (by rintro ⟨⟩)⟩
  · rw [h.alive]
    simp
  · intro i hi
    obtain ⟨who, hop⟩ := h.waiting i hi
    exact ⟨who, _, hop, Or.inl rfl⟩
  · intro i hi
    exact iff_of_false List.not_mem_nil (not_not.2 (h.waiting i hi))

theorem hands_of_reachable (h : Reachable (System.step max_size) System.empty sys) :
    sys.Named ∧ ∀ x ∈ sys.ops, OwnHands x.2 := by
  apply h.invariant (I := fun s => s.Named ∧ ∀ x ∈ s.ops, OwnHands x.2)
  · rintro s e t ⟨hs, hhands⟩ hst
    exact ⟨hs.step hst, hands_of_step hs hhands hst⟩
  · refine ⟨named_empty, ?_⟩
    intro x hx
    cases hx

end Release

/-- When `eraseKey` has returned and none of the consumers that were blocked can go on,
all of them have returned false exactly when there was at most one, and it took its
step between `unblockAll` and the deletion of the semaphore. -/
theorem consumers_released_iff {sys sys' : System T K I} {k : K} {r : SemaphorePtr K}
    {consumers : List ℕ} {j : ℕ} (hreach : Reachable (System.step max_size) System.empty sys)
    (hblocked : Blocked k r consumers j sys) {es : List (Event T K I)} (hes : NoCallOn k es)
    (hrun : run (System.step max_size) sys es = some sys')
    (hreturned : ∃ who, sys'.ops[j]? = some (who, .eraseKey k .returned))
    (hstuck : ∀ i ∈ consumers, sys'.step max_size (.advance i) = none) :
    (∀ i ∈ consumers, GaveUp k sys' i) ↔
      consumers.length ≤ 1 ∧ ∀ i ∈ consumers, StepsBefore i j es := by
  obtain ⟨hnamed, hhands⟩ := hands_of_reachable hreach
  have hletting : ∃ pc, Letting k r consumers j pc ([] ++ es) sys' := by
    apply run_history (P := fun _ e => e ∈ es)
      (I := fun past s => ∃ pc, Letting k r consumers j pc past s) ?_
      ⟨.enter, letting_of_blocked hblocked hnamed hhands⟩ (along_of_forall fun _ he => he) hrun
    intro past s e t hs he hst
    obtain ⟨pc, hs⟩ := hs
    exact hs.step (fun who call heq => hes who call (heq ▸ he)) hst
  obtain ⟨pc, h⟩ := hletting
  rw [List.nil_append] at h
  have hpc : pc = .returned := by
    obtain ⟨who, hj⟩ := hreturned
    obtain ⟨owner, hj'⟩ := h.eraser
    cases hj.symm.trans hj'
    rfl
  constructor
  · intro hall
    have hnot : ∀ i ∈ consumers, ¬ Waits k r sys' i := by
      intro i hi hw
      obtain ⟨who, hgave⟩ := hall i hi
      obtain ⟨who', hw⟩ := hw
      cases hgave.symm.trans hw
    refine ⟨?_, fun i hi => h.intime hpc i hi (hnot i hi)⟩
    rcases h.permits with ⟨-, hwait⟩ | ⟨-, -, i₀, hi₀, -, hwait⟩
    · cases consumers with
      | nil => exact Nat.zero_le _
      | cons i rest => exact absurd (hwait i List.mem_cons_self) (hnot i List.mem_cons_self)
    · have hsame : ∀ i ∈ consumers, i = i₀ := by
        intro i hi
        by_contra hne
        exact hnot i hi (hwait i hi hne)
      have hreplicate : consumers = List.replicate consumers.length i₀ := List.eq_replicate_of_mem hsame
      have hnodup := hblocked.distinct
      rw [hreplicate] at hnodup
      exact List.nodup_replicate.1 hnodup
  · rintro ⟨-, hsteps⟩ i hi
    obtain ⟨first, rest, hsplit, hmem, -⟩ := hsteps i hi
    have hleft := (h.took i hi).1 (by rw [hsplit]; exact List.mem_append_left _ hmem)
    obtain ⟨who, gpc, hop, hpcs⟩ := h.consumer i hi
    rcases hpcs with rfl | rfl | rfl
    · exact absurd ⟨who, hop⟩ hleft
    · have hnone := hstuck i hi
      simp [System.step, System.advance, hop, Op.step, Store.get, Store.read, h.empty, Except.map,
        Except.toOption] at hnone
    · exact ⟨who, hop⟩

def oneWaiting : List (Event ℕ ℕ ℕ) :=
  List.flatten
    [[.begin 1 (.get 5)], List.replicate 3 (.advance 0), [.begin 3 (.eraseKey 5)]]

def releaseOne : List (Event ℕ ℕ ℕ) :=
  [.advance 1, .advance 1, .advance 0, .advance 1, .advance 0, .advance 1, .advance 1]

theorem consumers_released_iff_one :
    GaveUp 5 (finalState (System.step 2)
      (finalState (System.step 2) System.empty oneWaiting) releaseOne) 0 := by
  have hsys := run_finalState (System.step 2) System.empty oneWaiting (by decide +kernel)
  have hrun := run_finalState (System.step 2)
    (finalState (System.step 2) System.empty oneWaiting) releaseOne (by decide +kernel)
  have hblocked : Blocked 5 ⟨.read, 5, 0⟩ [0] 1 (finalState (System.step 2) System.empty oneWaiting) := by
    refine ⟨by decide +kernel, by decide +kernel, by decide +kernel, by decide +kernel,
      ⟨3, by decide +kernel⟩, by decide, ?_, ?_⟩
    · intro i hi
      rw [List.mem_singleton.1 hi]
      exact ⟨1, by decide +kernel⟩
    · intro i x hx _
      have hlength : (finalState (System.step 2) System.empty oneWaiting).ops.length = 2 := by
        decide +kernel
      have hi := (List.getElem?_eq_some_iff.1 hx).1
      rw [hlength] at hi
      rw [List.mem_singleton]
      omega
  have hes : NoCallOn 5 releaseOne := by
    intro who call hmem
    simp [releaseOne] at hmem
  refine (consumers_released_iff ⟨_, hsys⟩ hblocked hes hrun ⟨3, by decide +kernel⟩ ?_).2
    ⟨by decide, ?_⟩ 0 (List.mem_singleton_self 0)
  · intro i hi
    rw [List.mem_singleton.1 hi]
    exact Option.isNone_iff_eq_none.1 (by decide +kernel)
  · intro i hi
    rw [List.mem_singleton.1 hi]
    exact ⟨[.advance 1, .advance 1, .advance 0], _, rfl, by simp, by simp⟩

def twoWaiting : List (Event ℕ ℕ ℕ) :=
  List.flatten
    [[.begin 1 (.get 5)], List.replicate 3 (.advance 0), [.begin 2 (.get 5)],
      List.replicate 2 (.advance 1), [.begin 3 (.eraseKey 5)]]

def releaseTwo : List (Event ℕ ℕ ℕ) :=
  [.advance 2, .advance 2, .advance 0, .advance 0, .advance 2, .advance 2, .advance 2]

/-- One consumer returns false, the other is left at the deleted semaphore. -/
theorem consumers_released_fails :
    ¬ ∀ (sys sys' : System ℕ ℕ ℕ) (k : ℕ) (r : SemaphorePtr ℕ) (consumers : List ℕ) (j : ℕ)
      (es : List (Event ℕ ℕ ℕ)), Reachable (System.step 2) System.empty sys →
      Blocked k r consumers j sys → NoCallOn k es → run (System.step 2) sys es = some sys' →
      (∃ who, sys'.ops[j]? = some (who, .eraseKey k .returned)) →
      (∀ i ∈ consumers, sys'.step 2 (.advance i) = none) → ∀ i ∈ consumers, GaveUp k sys' i := by
  intro hall
  have hsys := run_finalState (System.step 2) System.empty twoWaiting (by decide +kernel)
  have hrun := run_finalState (System.step 2)
    (finalState (System.step 2) System.empty twoWaiting) releaseTwo (by decide +kernel)
  have hblocked : Blocked 5 ⟨.read, 5, 0⟩ [0, 1] 2
      (finalState (System.step 2) System.empty twoWaiting) := by
    refine ⟨by decide +kernel, by decide +kernel, by decide +kernel, by decide +kernel,
      ⟨3, by decide +kernel⟩, by decide, ?_, ?_⟩
    · intro i hi
      simp only [List.mem_cons, List.not_mem_nil, or_false] at hi
      rcases hi with rfl | rfl
      · exact ⟨1, by decide +kernel⟩
      · exact ⟨2, by decide +kernel⟩
    · intro i x hx _
      have hlength : (finalState (System.step 2) System.empty twoWaiting).ops.length = 3 := by
        decide +kernel
      have hi := (List.getElem?_eq_some_iff.1 hx).1
      rw [hlength] at hi
      simp only [List.mem_cons, List.not_mem_nil, or_false]
      omega
  have hes : NoCallOn 5 releaseTwo := by
    intro who call hmem
    simp [releaseTwo] at hmem
  obtain ⟨who, hgave⟩ := hall _ _ 5 _ [0, 1] 2 releaseTwo ⟨_, hsys⟩ hblocked hes hrun
    ⟨3, by decide +kernel⟩
    (by
      intro i hi
      simp only [List.mem_cons, List.not_mem_nil, or_false] at hi
      rcases hi with rfl | rfl
      · exact Option.isNone_iff_eq_none.1 (by decide +kernel)
      · exact Option.isNone_iff_eq_none.1 (by decide +kernel)) 1 (by simp)
  have hwaits : (finalState (System.step 2) (finalState (System.step 2) System.empty twoWaiting)
      releaseTwo).ops[1]? = some (2, .get 5 (.waiting ⟨.read, 5, 0⟩)) := by
    decide +kernel
  cases hgave.symm.trans hwaits

end PolkadotApi.ReleasedConsumers
