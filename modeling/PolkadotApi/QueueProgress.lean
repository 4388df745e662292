import PolkadotApi.SemaphoreLookups

set_option autoImplicit false

namespace PolkadotApi.QueueProgress
open StepRuns StreamReader BoundedBuffer ConcurrentMapQueue QueueLaws QueueGuarantees
open SemaphoreLookups

variable {T K I : Type} [DecidableEq K] {max_size : ℤ}

section Measure

def remainingPut : PutPc K → ℕ
  | .addKey .enter => 6
  | .addKey .adding => 5
  | .added => 4
  | .waiting _ => 3
  | .granted => 2
  | .written => 1
  | .returned => 0

def remainingGet : GetPc T K → ℕ
  | .addKey .enter => 6
  | .addKey .adding => 5
  | .added => 4
  | .waiting _ => 3
  | .granted => 2
  | .popped _ => 1
  | .returned _ => 0

def remainingErase : ErasePc K → ℕ
  | .enter => 5
  | .looked _ _ => 4
  | .unblocked _ _ => 3
  | .erasedR _ _ => 2
  | .erasedW _ _ => 1
  | .returned => 0

def remaining : Op T K → ℕ
  | .put _ _ pc => remainingPut pc
  | .get _ pc => remainingGet pc
  | .eraseKey _ pc => remainingErase pc

def isAdvance : Event T K I → Bool
  | .advance _ => true
  | .begin _ _ => false

theorem remaining_of_step {op next : Op T K} {q r : Store T K}
    (h : OpStep max_size op q next r) : remaining next < remaining op := by
  cases h with
  | put h => cases h <;> simp [remaining, remainingPut]
  | get h => cases h <;> simp [remaining, remainingGet]
  | eraseKey h => cases h <;> simp [remaining, remainingErase]

omit [DecidableEq K] in
theorem remaining_start_le (call : Call T K) : remaining call.start ≤ 6 := by
  cases call <;> simp [Call.start, remaining, remainingPut, remainingGet, remainingErase]

def workload (sys : System T K I) : ℕ := (sys.ops.map fun x => remaining x.2).sum

omit [DecidableEq K] in
theorem sum_set_lt {ops : List (I × Op T K)} {i : ℕ} {x y : I × Op T K} (h : ops[i]? = some x)
    (hlt : remaining y.2 < remaining x.2) :
    ((ops.set i y).map fun x => remaining x.2).sum < (ops.map fun x => remaining x.2).sum := by
  induction ops generalizing i with
  | nil => cases h
  | cons z ops ih =>
    cases i with
    | zero =>
      cases h
      simpa using hlt
    | succ i =>
      have hrest := ih h
      simpa using hrest

/-- A step takes one from the work that is left, and a new call adds at most six. -/
theorem workload_step {sys next : System T K I} {e : Event T K I}
    (h : sys.step max_size e = some next) :
    workload next + (if isAdvance e then 1 else 0) ≤
      workload sys + (if isAdvance e then 0 else 6) := by
  cases e with
  | begin who call =>
    cases h
    have hstart := remaining_start_le call
    simp only [workload, System.begin, isAdvance, List.map_append, List.sum_append, List.map_cons,
      List.map_nil, List.sum_cons, List.sum_nil, Bool.false_eq_true, if_false]
    omega
  | advance i =>
    obtain ⟨who, op, op', hop, hs, hops⟩ := System.advance_eq_ok (except_toOption_eq_some h)
    have hlt := sum_set_lt (y := (who, op')) hop (remaining_of_step hs)
    simp only [workload, hops, isAdvance, if_true]
    omega

omit [DecidableEq K] in
theorem sum_map_ite {E : Type} (p : E → Bool) (n : ℕ) (es : List E) :
    (es.map fun e => if p e then n else 0).sum = n * es.countP p := by
  induction es with
  | nil => rfl
  | cons e es ih =>
    rw [List.map_cons, List.sum_cons, ih, List.countP_cons, Nat.mul_add]
    split_ifs <;> omega

theorem advances_of_run {sys : System T K I} {es : List (Event T K I)}
    (hrun : run (System.step max_size) System.empty es = some sys) :
    es.countP isAdvance ≤ 6 * es.countP fun e => !isAdvance e := by
  have hsum := run_potential (P := workload) (fun _ _ _ => workload_step) hrun
  have hgain : (es.map fun e => if isAdvance e then 0 else 6).sum =
      6 * es.countP fun e => !isAdvance e := by
    rw [← sum_map_ite]
    congr 2
    funext e
    cases isAdvance e <;> rfl
  rw [sum_map_ite, hgain] at hsum
  have hempty : workload (System.empty : System T K I) = 0 := rfl
  omega

end Measure

section Blocking

variable {op next : Op T K} {q r : Store T K}

omit [DecidableEq K] in
theorem map_eq_error {α β : Type} {f : α → β} {x : Outcome α} {stop : Stop}
    (h : x.map f = .error stop) : x = .error stop := by
  cases x with
  | error e =>
    cases h
    rfl
  | ok a => cases h

omit [DecidableEq K] in
theorem bind_ok_eq_error {α β : Type} {f : α → β} {x : Outcome α} {stop : Stop}
    (h : (x >>= fun a => .ok (f a)) = .error stop) : x = .error stop := by
  cases x with
  | error e =>
    cases h
    rfl
  | ok a => cases h

theorem addKey_error {key : K} {a : AddPc} {stop : Stop}
    (h : q.addKey max_size key a = .error stop) : stop = .blocked ∧ q.keyMtx = true := by
  cases a with
  | enter =>
    unfold Store.addKey at h
    split_ifs at h with hm
    cases h
    exact ⟨rfl, hm⟩
  | adding => cases h

theorem wait_error {p : SemaphorePtr K} {stop : Stop} (halive : q.deleted p = false)
    (h : q.wait p = .error stop) : stop = .blocked ∧ q.count p = 0 := by
  unfold Store.wait at h
  rw [halive, if_neg (by decide)] at h
  split_ifs at h with hc
  cases h
  exact ⟨rfl, hc⟩

theorem notify_present {entry : Option (SemaphorePtr K)} {stop : Stop} (hsome : entry.isSome)
    (halive : ∀ p, q.deleted p = false) : q.notify entry ≠ .error stop := by
  obtain ⟨p, rfl⟩ := Option.isSome_iff_exists.1 hsome
  rw [Store.notify, halive p, if_neg (by decide)]
  rintro ⟨⟩

theorem step_error {stop : Stop} (he : op.erases = false) (hpresent : Present q op)
    (halive : ∀ p, q.deleted p = false) (h : op.step max_size q = .error stop) :
    (stop = .ended ∧ hasReturned op = true) ∨ (stop = .blocked ∧ q.keyMtx = true) ∨
      stop = .blocked ∧ ∃ p, op.holds = some p ∧ q.count p = 0 := by
  cases op with
  | put key value pc =>
    have hput : q.put max_size key value pc = .error stop := map_eq_error h
    cases pc with
    | addKey a => exact Or.inr (Or.inl (addKey_error (bind_ok_eq_error hput)))
    | added =>
      obtain ⟨p, hp⟩ := Option.isSome_iff_exists.1 hpresent
      rw [Store.put, hp] at hput
      cases hput
    | waiting p =>
      have hwait := wait_error (halive p) (bind_ok_eq_error hput)
      exact Or.inr (Or.inr ⟨hwait.1, p, rfl, hwait.2⟩)
    | granted => cases hput
    | written => exact absurd (bind_ok_eq_error hput) (notify_present hpresent halive)
    | returned =>
      cases hput
      exact Or.inl ⟨rfl, rfl⟩
  | get key pc =>
    have hget : q.get max_size key pc = .error stop := map_eq_error h
    cases pc with
    | addKey a => exact Or.inr (Or.inl (addKey_error (bind_ok_eq_error hget)))
    | added =>
      obtain ⟨p, hp⟩ := Option.isSome_iff_exists.1 hpresent
      rw [Store.get, hp] at hget
      cases hget
    | waiting p =>
      have hwait := wait_error (halive p) (bind_ok_eq_error hget)
      exact Or.inr (Or.inr ⟨hwait.1, p, rfl, hwait.2⟩)
    | granted =>
      rw [Store.get] at hget
      cases hread : q.read key with
      | none =>
        rw [hread] at hget
        cases hget
      | some r =>
        rw [hread] at hget
        cases hget
    | popped v => exact absurd (bind_ok_eq_error hget) (notify_present hpresent halive)
    | returned v =>
      cases hget
      exact Or.inl ⟨rfl, rfl⟩
  | eraseKey key pc => cases he

theorem keyMtx_of_step (h : OpStep max_size op q next r) (hr : r.keyMtx = true) :
    adds next = true ∨ q.keyMtx = true ∧ adds op = false := by
  cases h with
  | put h =>
    cases h with
    | newR => exact Or.inl rfl
    | newW => cases hr
    | _ => exact Or.inr ⟨hr, rfl⟩
  | get h =>
    cases h with
    | newR => exact Or.inl rfl
    | newW => cases hr
    | _ => exact Or.inr ⟨hr, rfl⟩
  | eraseKey h => cases h <;> exact Or.inr ⟨hr, rfl⟩

theorem alive_of_spared (h : OpStep max_size op q next r) (he : op.erases = false)
    (halive : ∀ p, q.deleted p = false) : ∀ p, r.deleted p = false := by
  cases h with
  | put h => cases h <;> exact halive
  | get h => cases h <;> exact halive
  | eraseKey h => cases he

theorem step_of_adds (h : adds op = true) (stop : Stop) : op.step max_size q ≠ .error stop := by
  unfold adds at h
  split at h
  · intro hstep
    cases hstep
  · intro hstep
    cases hstep
  · cases h

end Blocking

section Runs

variable {sys next : System T K I}

structure Uninterrupted (max_size : ℤ) (sys : System T K I) : Prop where
  sound : Sound max_size sys
  spared : ∀ x ∈ sys.ops, x.2.erases = false
  alive : ∀ p, sys.store.deleted p = false
  held : sys.store.keyMtx = true → ∃ x ∈ sys.ops, adds x.2 = true

theorem uninterrupted_empty : Uninterrupted max_size (System.empty : System T K I) := by
  refine ⟨sound_empty, ?_, fun _ => rfl, ?_⟩
  · intro x hx
    cases hx
  · intro h
    cases h

theorem Uninterrupted.begin (h : Uninterrupted max_size sys) (who : I) {call : Call T K}
    (hcall : call.start.erases = false) : Uninterrupted max_size (sys.begin who call) := by
  have hspared : ∀ x ∈ (sys.begin who call).ops, x.2.erases = false := by
    intro x hx
    rcases List.mem_append.1 hx with hx | hx
    · exact h.spared x hx
    · rw [List.mem_singleton.1 hx]
      exact hcall
  have hexclusive : Exclusive sys (.begin who call) := by
    have hnone : ∀ x ∈ sys.ops, x.2.erases = true → hasReturned x.2 = true := by
      intro x hx herases
      rw [h.spared x hx] at herases
      cases herases
    cases call with
    | put key value => exact fun x hx _ => hnone x hx
    | get key => exact fun x hx _ => hnone x hx
    | eraseKey key => cases hcall
  refine ⟨h.sound.step hexclusive rfl, hspared, h.alive, ?_⟩
  intro hheld
  obtain ⟨x, hx, hadds⟩ := h.held hheld
  exact ⟨x, List.mem_append_left _ hx, hadds⟩

theorem Uninterrupted.advance (h : Uninterrupted max_size sys) {i : ℕ}
    (hst : sys.step max_size (.advance i) = some next) : Uninterrupted max_size next := by
  obtain ⟨who, op, op', hop, hs, hops⟩ := System.advance_eq_ok (except_toOption_eq_some hst)
  have herases : op.erases = false := h.spared _ (List.mem_of_getElem? hop)
  have hlt := (List.getElem?_eq_some_iff.1 hop).1
  have hexclusive : Exclusive sys (.advance i) := trivial
  refine ⟨h.sound.step hexclusive hst, ?_, alive_of_spared hs herases h.alive, ?_⟩
  · intro x hx
    rw [hops] at hx
    rcases List.mem_or_eq_of_mem_set hx with hx | rfl
    · exact h.spared x hx
    · exact hs.kind.2.2.trans herases
  · intro hheld
    rcases keyMtx_of_step hs hheld with hadds | ⟨hbefore, hadds⟩
    · refine ⟨(who, op'), ?_, hadds⟩
      rw [hops]
      exact List.mem_set hlt _
    · obtain ⟨x, hx, hholder⟩ := h.held hbefore
      obtain ⟨j, hj⟩ := List.mem_iff_getElem?.1 hx
      have hne : i ≠ j := by
        rintro rfl
        cases hop.symm.trans hj
        rw [hadds] at hholder
        cases hholder
      refine ⟨x, List.mem_of_getElem? (i := j) ?_, hholder⟩
      rw [hops, List.getElem?_set_ne hne, hj]

theorem uninterrupted_of_run {es : List (Event T K I)} (hes : NoErase es)
    (hrun : run (System.step max_size) System.empty es = some sys) :
    Uninterrupted max_size sys := by
  apply run_invariant (P := fun _ e => e ∈ es) ?_ uninterrupted_empty
    (along_of_forall fun _ he => he) hrun
  intro s e t hs he hst
  cases e with
  | begin who call =>
    cases hst
    apply hs.begin
    cases call with
    | eraseKey key => exact absurd he (hes who key)
    | _ => rfl
  | advance i => exact hs.advance hst

theorem Uninterrupted.present (h : Uninterrupted max_size sys) {x : I × Op T K}
    (hx : x ∈ sys.ops) : Present sys.store x.2 :=
  (h.sound.safe x.2.key).present hx rfl

theorem advance_eq_error {i : ℕ} {x : I × Op T K} {stop : Stop} (hx : sys.ops[i]? = some x)
    (h : sys.advance max_size i = .error stop) : x.2.step max_size sys.store = .error stop := by
  simp only [System.advance, hx] at h
  cases hstep : x.2.step max_size sys.store with
  | error e =>
    rw [hstep] at h
    cases h
    rfl
  | ok r =>
    rw [hstep] at h
    cases h

def Quiet (max_size : ℤ) (sys : System T K I) : Prop :=
  ∀ i, sys.step max_size (.advance i) = none

/-- A call that is left in a quiet state waits on a semaphore without a unit. -/
theorem Uninterrupted.waits (h : Uninterrupted max_size sys) (hquiet : Quiet max_size sys)
    {x : I × Op T K} (hx : x ∈ sys.ops) :
    hasReturned x.2 = true ∨ ∃ p, x.2.holds = some p ∧ sys.store.count p = 0 := by
  have herror : ∀ y ∈ sys.ops, ∃ stop, y.2.step max_size sys.store = .error stop := by
    intro y hy
    obtain ⟨i, hi⟩ := List.mem_iff_getElem?.1 hy
    have hnone := hquiet i
    simp only [System.step] at hnone
    cases hadvance : sys.advance max_size i with
    | error stop => exact ⟨stop, advance_eq_error hi hadvance⟩
    | ok next =>
      rw [hadvance] at hnone
      cases hnone
  have hfree : sys.store.keyMtx ≠ true := by
    intro hheld
    obtain ⟨y, hy, hadds⟩ := h.held hheld
    obtain ⟨stop, hstop⟩ := herror y hy
    exact step_of_adds hadds stop hstop
  obtain ⟨stop, hstop⟩ := herror x hx
  rcases step_error (h.spared x hx) (h.present hx) h.alive hstop with
    ⟨-, hreturned⟩ | ⟨-, hheld⟩ | ⟨-, hwaits⟩
  · exact Or.inl hreturned
  · exact absurd hheld hfree
  · exact Or.inr hwaits

end Runs

section Outcome

variable {sys : System T K I} {k : K}

/-- The `put` calls (`write`) or `get` calls (`read`) that were made at a key. -/
def made (side : Side) (k : K) (sys : System T K I) : ℕ :=
  sys.ops.countP fun x => x.2.side = side ∧ x.2.key = k

def completed (side : Side) (k : K) (sys : System T K I) : ℕ :=
  sys.ops.countP fun x => (x.2.side = side ∧ x.2.key = k) ∧ hasReturned x.2 = true

theorem completed_le (side : Side) (k : K) (sys : System T K I) :
    completed side k sys ≤ made side k sys := by
  apply List.countP_mono_left
  intro x _ hx
  simp only [decide_eq_true_eq] at hx ⊢
  exact hx.1

theorem exists_left {side : Side} (h : completed side k sys < made side k sys) :
    ∃ x ∈ sys.ops, x.2.side = side ∧ x.2.key = k ∧ hasReturned x.2 = false := by
  by_contra hnone
  apply h.ne
  apply List.countP_congr
  intro x hx
  simp only [decide_eq_true_eq, and_iff_left_iff_imp]
  rintro ⟨hside, hkey⟩
  by_contra hleft
  exact hnone ⟨x, hx, hside, hkey, by simpa using hleft⟩

omit [DecidableEq K] in
theorem waiting_of_holds {op : Op T K} {p : SemaphorePtr K} (he : op.erases = false)
    (h : op.holds = some p) :
    (∃ key value, op = .put key value (.waiting p)) ∨ ∃ key, op = .get key (.waiting p) := by
  unfold Op.holds at h
  split at h
  · cases h
    exact Or.inl ⟨_, _, rfl⟩
  · cases h
    exact Or.inr ⟨_, rfl⟩
  · cases he
  · cases h

/-- In a quiet state a value is stored by every `put` that has returned, and no other. -/
theorem stored_length {op : Op T K} (he : op.erases = false)
    (hrest : hasReturned op = true ∨ ∃ p, op.holds = some p) :
    (stored k op).length =
      if decide ((op.side = .write ∧ op.key = k) ∧ hasReturned op = true) then 1 else 0 := by
  rcases hrest with hreturned | ⟨p, hp⟩
  · unfold hasReturned at hreturned
    split at hreturned
    · simp only [stored, Op.side, Op.key, hasReturned, true_and, and_true, decide_eq_true_eq]
      split_ifs <;> rfl
    · simp [stored, Op.side]
    · cases he
    · cases hreturned
  · rcases waiting_of_holds he hp with ⟨key, value, rfl⟩ | ⟨key, rfl⟩
    · simp [stored, hasReturned]
    · simp [stored, hasReturned]

theorem carried_length {op : Op T K} (he : op.erases = false) (hk : op ≠ .get k (.returned none))
    (hrest : hasReturned op = true ∨ ∃ p, op.holds = some p) :
    (carried k op).length =
      if decide ((op.side = .read ∧ op.key = k) ∧ hasReturned op = true) then 1 else 0 := by
  rcases hrest with hreturned | ⟨p, hp⟩
  · unfold hasReturned at hreturned
    split at hreturned
    · simp [carried, Op.side]
    · next key result =>
      cases result with
      | none =>
        have hne : key ≠ k := by
          rintro rfl
          exact hk rfl
        simp [carried, Op.key, hne]
      | some v =>
        simp only [carried, Op.side, Op.key, hasReturned, true_and, and_true, decide_eq_true_eq]
        split_ifs <;> rfl
    · cases he
    · cases hreturned
  · rcases waiting_of_holds he hp with ⟨key, value, rfl⟩ | ⟨key, rfl⟩
    · simp [carried, hasReturned]
    · simp [carried, hasReturned]

theorem phase_of_holds {op : Op T K} {p : SemaphorePtr K} (he : op.erases = false)
    (h : op.holds = some p) : phase k op = .elsewhere := by
  rcases waiting_of_holds he h with ⟨key, value, rfl⟩ | ⟨key, rfl⟩
  · exact ite_self _
  · exact ite_self _

theorem Uninterrupted.census_quiet (h : Uninterrupted max_size sys)
    (hquiet : Quiet max_size sys) (k : K) {a : Phase} (ha : a ≠ .elsewhere) :
    census (fun x : I × Op T K => phase k x.2) sys.ops a = 0 := by
  apply census_eq_zero
  intro x hx hphase
  rcases h.waits hquiet hx with hreturned | ⟨p, hp, -⟩
  · exact ha (hphase.symm.trans (phase_of_returned hreturned k))
  · exact ha (hphase.symm.trans (phase_of_holds (h.spared x hx) hp))

theorem Uninterrupted.level_of_left (h : Uninterrupted max_size sys)
    (hl : KeyLaws max_size k sys) (hquiet : Quiet max_size sys) (side : Side) (fresh : ℤ)
    (hlt : completed side k sys < made side k sys) : level sys.store side k fresh = 0 := by
  obtain ⟨x, hx, hside, hkey, hleft⟩ := exists_left hlt
  rcases h.waits hquiet hx with hreturned | ⟨p, hp, hcount⟩
  · rw [hleft] at hreturned
    cases hreturned
  · have hsem := hl.linked x hx hkey p hp
    rw [hside] at hsem
    exact (level_of_sem side fresh hsem).trans hcount

theorem Uninterrupted.completed_write (h : Uninterrupted max_size sys) (hs : Served k sys)
    (hquiet : Quiet max_size sys) :
    (sys.store.pushed k).length = completed .write k sys := by
  rw [hs.given.length_eq]
  apply length_flatMap_eq_countP
  intro x hx
  exact stored_length (h.spared x hx) ((h.waits hquiet hx).imp_right (Exists.imp fun _ => And.left))

theorem Uninterrupted.completed_read (h : Uninterrupted max_size sys) (hs : Served k sys)
    (hquiet : Quiet max_size sys) :
    (sys.store.popped k).length = completed .read k sys := by
  rw [hs.taken.length_eq]
  apply length_flatMap_eq_countP
  intro x hx
  exact carried_length (h.spared x hx) (hs.answered x hx)
    ((h.waits hquiet hx).imp_right (Exists.imp fun _ => And.left))

end Outcome

/-- A run without `eraseKey` has at most six steps for each call, in none of its
states does a call use a semaphore that is missing or deleted, and where no call can
step, the number of `get` and `put` calls that have returned at a key follows from
the numbers of calls made, in whatever order the threads ran. -/
theorem calls_complete (hmax : 2 ≤ max_size) {es : List (Event T K I)} (hes : NoErase es)
    {sys : System T K I} (hrun : run (System.step max_size) System.empty es = some sys) :
    es.countP isAdvance ≤ 6 * es.countP (fun e => !isAdvance e) ∧
      (∀ i, sys.advance max_size i ≠ .error .undefined) ∧
      (Quiet max_size sys → ∀ k,
        completed .read k sys = min (made .read k sys) (made .write k sys) ∧
          (completed .write k sys : ℤ) =
            min (made .write k sys : ℤ) (made .read k sys + (max_size - 1))) := by
  have hwhole := uninterrupted_of_run hes hrun
  refine ⟨advances_of_run hrun, ?_, ?_⟩
  · intro i hundefined
    cases hop : sys.ops[i]? with
    | none =>
      simp only [System.advance, hop] at hundefined
      cases hundefined
    | some x =>
      have hx := List.mem_of_getElem? hop
      have hstep := advance_eq_error hop hundefined
      rcases step_error (hwhole.spared x hx) (hwhole.present hx) hwhole.alive hstep with
        ⟨hstop, -⟩ | ⟨hstop, -⟩ | ⟨hstop, -⟩ <;> cases hstop
  · intro hquiet k
    obtain ⟨hserved, hlaws⟩ := served_of_run (by omega) hes hrun k
    have hlawful := hlaws.lawful
    have hzero := fun a (ha : a ≠ Phase.elsewhere) => hwhole.census_quiet hquiet k ha
    have hreaders := hlawful.readers
    rw [hzero .claimed (by decide), hzero .written (by decide)] at hreaders
    have hwriters := hlawful.writers
    rw [hzero .reserved (by decide), hzero .freeing (by decide)] at hwriters
    have horder : sys.store.pushed k = sys.store.popped k ++ sys.store.collection k := hlawful.order
    have hlength := congrArg List.length horder
    rw [List.length_append, hwhole.completed_write hserved hquiet,
      hwhole.completed_read hserved hquiet] at hlength
    change ((sys.store.collection k).length : ℤ) = level sys.store .read k 0 + _ + _ at hreaders
    change level sys.store .write k (max_size - 1) + _ + ((sys.store.collection k).length : ℤ) + _
      = _ at hwriters
    have hgets := hwhole.level_of_left hlaws hquiet .read 0
    have hputs := hwhole.level_of_left hlaws hquiet .write (max_size - 1)
    have hgetsLe := completed_le .read k sys
    have hputsLe := completed_le .write k sys
    have hnonneg : 0 ≤ level sys.store .write k (max_size - 1) := hlawful.writable_nonneg
    refine ⟨by omega, ?_⟩
    rcases le_total (made .write k sys : ℤ) (made .read k sys + (max_size - 1)) with hle | hle
    · rw [min_eq_left hle]
      omega
    · rw [min_eq_right hle]
      omega

/-- Three `put` calls at the key 5 of a queue for one value, and one `get`: the second
`put` waits for the `get`, and the third one is left. -/
def waitForPlace : List (Event ℕ ℕ ℕ) :=
  List.flatten
    [[.begin 1 (.put 5 10), .begin 2 (.put 5 11), .begin 3 (.put 5 12)],
      List.replicate 6 (.advance 0), List.replicate 2 (.advance 1), List.replicate 2 (.advance 2),
      [.begin 4 (.get 5)], List.replicate 5 (.advance 3), List.replicate 3 (.advance 1)]

def waitedForPlace : System ℕ ℕ ℕ := finalState (System.step 2) System.empty waitForPlace

theorem calls_complete_waitForPlace :
    waitedForPlace.ops.map Prod.snd =
        [.put 5 10 .returned, .put 5 11 .returned, .put 5 12 (.waiting ⟨.write, 5, 1⟩),
          .get 5 (.returned (some 10))] ∧
      Quiet 2 waitedForPlace ∧ completed .read 5 waitedForPlace = min 1 3 ∧
      (completed .write 5 waitedForPlace : ℤ) = min 3 (1 + (2 - 1)) := by
  have hrun := run_finalState (System.step 2) System.empty waitForPlace (by decide +kernel)
  have hes : NoErase waitForPlace := by
    intro who key
    simp [waitForPlace]
  have hquiet : Quiet 2 waitedForPlace := by
    intro i
    have hfew : ∀ j < 4, waitedForPlace.step 2 (.advance j) = none := by
      have hnone : ∀ j < 4, (waitedForPlace.step 2 (.advance j)).isNone = true := by decide +kernel
      exact fun j hj => Option.isNone_iff_eq_none.1 (hnone j hj)
    rcases Nat.lt_or_ge i 4 with hi | hi
    · exact hfew i hi
    · have hlength : waitedForPlace.ops.length = 4 := by decide +kernel
      have hnone : waitedForPlace.ops[i]? = none := List.getElem?_eq_none (by omega)
      simp only [System.step, System.advance, hnone]
      rfl
  have hmade : made .write 5 waitedForPlace = 3 ∧ made .read 5 waitedForPlace = 1 := by
    decide +kernel
  have hcounts := (calls_complete (by decide) hes hrun).2.2 hquiet 5
  change completed .read 5 waitedForPlace = min (made .read 5 waitedForPlace)
      (made .write 5 waitedForPlace) ∧ (completed .write 5 waitedForPlace : ℤ) =
      min (made .write 5 waitedForPlace : ℤ) (made .read 5 waitedForPlace + (2 - 1)) at hcounts
  rw [hmade.1, hmade.2] at hcounts
  exact ⟨by decide +kernel, hquiet, hcounts⟩

end PolkadotApi.QueueProgress
