import PolkadotApi.ConcurrentMapQueue

set_option autoImplicit false

namespace PolkadotApi.QueueLaws
open StepRuns StreamReader BoundedBuffer ConcurrentMapQueue

variable {T K I : Type} [DecidableEq K] {max_size : ℤ}

/-- The count of a semaphore in one of the maps; `fresh` is the count it will be
made with. -/
def level (q : Store T K) (side : Side) (k : K) (fresh : ℤ) : ℤ := (q.sem side k).elim fresh q.count

def view (max_size : ℤ) (k : K) (q : Store T K) : Buffer T :=
  ⟨q.collection k, level q .read k 0, level q .write k (max_size - 1), (q.semR k).isSome,
    (q.semW k).isSome, q.pushed k, q.popped k⟩

def putPhase : PutPc K → Phase
  | .addKey .adding => .adding
  | .granted => .reserved
  | .written => .written
  | _ => .elsewhere

def getPhase : GetPc T K → Phase
  | .addKey .adding => .adding
  | .granted => .claimed
  | .popped _ => .freeing
  | _ => .elsewhere

def phase (k : K) : Op T K → Phase
  | .put key _ pc => if key = k then putPhase pc else .elsewhere
  | .get key pc => if key = k then getPhase pc else .elsewhere
  | .eraseKey _ _ => .elsewhere

section Frame

variable {q : Store T K} {k key : K} {side : Side} {fresh : ℤ}

theorem level_setCount_self (side : Side) (fresh : ℤ) {p : SemaphorePtr K}
    (h : q.sem side k = some p) (n : ℤ) :
    level (q.setCount p n) side k fresh = n := by
  have hs : (q.setCount p n).sem side k = some p := by
    cases side <;> exact h
  rw [level, hs]
  exact Function.update_self ..

theorem level_update_ne {p : SemaphorePtr K} (h : q.sem side k ≠ some p) {r : Store T K}
    (hs : r.sem side k = q.sem side k) {n : ℤ} (hc : r.count = Function.update q.count p n) :
    level r side k fresh = level q side k fresh := by
  rw [level, level, hs, hc]
  cases hq : q.sem side k with
  | none => rfl
  | some o =>
    have hne : o ≠ p := by
      rintro rfl
      exact h hq
    exact Function.update_of_ne hne ..

omit [DecidableEq K] in
theorem sem_ne_of_key (hq : q.Named) {p : SemaphorePtr K} (h : p.key ≠ k) :
    q.sem side k ≠ some p := fun hp => h (hq side k p hp).2

omit [DecidableEq K] in
theorem sem_ne_of_side (hq : q.Named) {p : SemaphorePtr K} (h : p.side ≠ side) :
    q.sem side k ≠ some p := fun hp => h (hq side k p hp).1

theorem view_setCount_ne (hq : q.Named) {p : SemaphorePtr K} (h : p.key ≠ k) (n : ℤ) :
    view max_size k (q.setCount p n) = view max_size k q := by
  have hr : level (q.setCount p n) .read k 0 = level q .read k 0 :=
    level_update_ne (sem_ne_of_key hq h) rfl rfl
  have hw : level (q.setCount p n) .write k (max_size - 1) = level q .write k (max_size - 1) :=
    level_update_ne (sem_ne_of_key hq h) rfl rfl
  simp only [view, hr, hw]
  rfl

theorem view_newR_ne (hq : q.Named) (h : key ≠ k) :
    view max_size k { q.newR key with keyMtx := true } = view max_size k q := by
  have hsem : (q.newR key).semR k = q.semR k := Function.update_of_ne (Ne.symm h) ..
  have hr : level { q.newR key with keyMtx := true } .read k 0 = level q .read k 0 :=
    level_update_ne (p := ⟨.read, key, q.allocated⟩) (n := 0) (sem_ne_of_key hq h) hsem rfl
  have hw : level { q.newR key with keyMtx := true } .write k (max_size - 1) =
      level q .write k (max_size - 1) :=
    level_update_ne (p := ⟨.read, key, q.allocated⟩) (n := 0) (sem_ne_of_key hq h) rfl rfl
  simp only [view, hr, hw, hsem]
  rfl

theorem view_newW_ne (hq : q.Named) (h : key ≠ k) :
    view max_size k { q.newW max_size key with keyMtx := false } = view max_size k q := by
  have hsem : (q.newW max_size key).semW k = q.semW k := Function.update_of_ne (Ne.symm h) ..
  have hr : level { q.newW max_size key with keyMtx := false } .read k 0 = level q .read k 0 :=
    level_update_ne (p := ⟨.write, key, q.allocated⟩) (n := max_size - 1)
      (sem_ne_of_key hq h) rfl rfl
  have hw : level { q.newW max_size key with keyMtx := false } .write k (max_size - 1) =
      level q .write k (max_size - 1) :=
    level_update_ne (p := ⟨.write, key, q.allocated⟩) (n := max_size - 1)
      (sem_ne_of_key hq h) hsem rfl
  simp only [view, hr, hw, hsem]
  rfl

theorem phase_ne {op : Op T K} (h : op.key ≠ k) : phase k op = .elsewhere := by
  cases op with
  | put key value pc => exact if_neg h
  | get key pc => exact if_neg h
  | eraseKey key pc => rfl

omit [DecidableEq K] in
theorem pc_of_putPhase {pc : PutPc K} {a : Phase} (h : putPhase pc = a) (ha : a ≠ .elsewhere) :
    (pc = .addKey .adding ∧ a = .adding) ∨ (pc = .granted ∧ a = .reserved) ∨
      pc = .written ∧ a = .written := by
  unfold putPhase at h
  split at h
  · exact Or.inl ⟨rfl, h.symm⟩
  · exact Or.inr (Or.inl ⟨rfl, h.symm⟩)
  · exact Or.inr (Or.inr ⟨rfl, h.symm⟩)
  · exact absurd h.symm ha

omit [DecidableEq K] in
theorem pc_of_getPhase {pc : GetPc T K} {a : Phase} (h : getPhase pc = a) (ha : a ≠ .elsewhere) :
    (pc = .addKey .adding ∧ a = .adding) ∨ (pc = .granted ∧ a = .claimed) ∨
      ∃ v, pc = .popped v ∧ a = .freeing := by
  unfold getPhase at h
  split at h
  · exact Or.inl ⟨rfl, h.symm⟩
  · exact Or.inr (Or.inl ⟨rfl, h.symm⟩)
  · exact Or.inr (Or.inr ⟨_, rfl, h.symm⟩)
  · exact absurd h.symm ha

theorem op_of_phase {op : Op T K} {a : Phase} (h : phase k op = a) (ha : a ≠ .elsewhere) :
    (∃ v pc, op = .put k v pc ∧ putPhase pc = a) ∨ ∃ pc, op = .get k pc ∧ getPhase pc = a := by
  have hk : op.key = k := by
    by_contra hne
    rw [phase_ne hne] at h
    exact ha h.symm
  subst hk
  cases op with
  | put key value pc => exact Or.inl ⟨value, pc, rfl, (if_pos rfl).symm.trans h⟩
  | get key pc => exact Or.inr ⟨pc, rfl, (if_pos rfl).symm.trans h⟩
  | eraseKey key pc => exact absurd h.symm ha

theorem op_of_reserved {op : Op T K} (h : phase k op = .reserved) : ∃ v, op = .put k v .granted := by
  rcases op_of_phase h (by decide) with ⟨v, pc, rfl, hpc⟩ | ⟨pc, rfl, hpc⟩
  · rcases pc_of_putPhase hpc (by decide) with ⟨_, ha⟩ | ⟨rfl, _⟩ | ⟨_, ha⟩
    · cases ha
    · exact ⟨v, rfl⟩
    · cases ha
  · rcases pc_of_getPhase hpc (by decide) with ⟨_, ha⟩ | ⟨_, ha⟩ | ⟨_, _, ha⟩ <;> cases ha

theorem op_of_written {op : Op T K} (h : phase k op = .written) : ∃ v, op = .put k v .written := by
  rcases op_of_phase h (by decide) with ⟨v, pc, rfl, hpc⟩ | ⟨pc, rfl, hpc⟩
  · rcases pc_of_putPhase hpc (by decide) with ⟨_, ha⟩ | ⟨_, ha⟩ | ⟨rfl, _⟩
    · cases ha
    · cases ha
    · exact ⟨v, rfl⟩
  · rcases pc_of_getPhase hpc (by decide) with ⟨_, ha⟩ | ⟨_, ha⟩ | ⟨_, _, ha⟩ <;> cases ha

theorem op_of_claimed {op : Op T K} (h : phase k op = .claimed) : op = .get k .granted := by
  rcases op_of_phase h (by decide) with ⟨v, pc, rfl, hpc⟩ | ⟨pc, rfl, hpc⟩
  · rcases pc_of_putPhase hpc (by decide) with ⟨_, ha⟩ | ⟨_, ha⟩ | ⟨_, ha⟩ <;> cases ha
  · rcases pc_of_getPhase hpc (by decide) with ⟨_, ha⟩ | ⟨rfl, _⟩ | ⟨_, _, ha⟩
    · cases ha
    · rfl
    · cases ha

theorem op_of_freeing {op : Op T K} (h : phase k op = .freeing) : ∃ v, op = .get k (.popped v) := by
  rcases op_of_phase h (by decide) with ⟨v, pc, rfl, hpc⟩ | ⟨pc, rfl, hpc⟩
  · rcases pc_of_putPhase hpc (by decide) with ⟨_, ha⟩ | ⟨_, ha⟩ | ⟨_, ha⟩ <;> cases ha
  · rcases pc_of_getPhase hpc (by decide) with ⟨_, ha⟩ | ⟨_, ha⟩ | ⟨v, rfl, _⟩
    · cases ha
    · cases ha
    · exact ⟨v, rfl⟩

theorem view_of_ne {op next : Op T K} {r : Store T K} (h : OpStep max_size op q next r)
    (hq : q.Named) (hop : op.Named) (hk : op.key ≠ k) : view max_size k r = view max_size k q := by
  cases h with
  | put h =>
    simp only [Op.key] at hk
    cases h with
    | newR => exact view_newR_ne hq hk
    | newW => exact view_newW_ne hq hk
    | take =>
      have hp := hop _ rfl
      exact view_setCount_ne hq (by rw [hp.2]; exact hk) _
    | push => simp [view, level, Store.write, Store.sem, Function.update_of_ne (Ne.symm hk)]
    | signal hp =>
      have hkey := hq .read _ _ hp
      exact view_setCount_ne hq (by rw [hkey.2]; exact hk) _
    | _ => rfl
  | get h =>
    simp only [Op.key] at hk
    cases h with
    | newR => exact view_newR_ne hq hk
    | newW => exact view_newW_ne hq hk
    | take =>
      have hp := hop _ rfl
      exact view_setCount_ne hq (by rw [hp.2]; exact hk) _
    | pop => simp [view, level, Store.pop, Store.sem, Function.update_of_ne (Ne.symm hk)]
    | signal hp =>
      have hkey := hq .write _ _ hp
      exact view_setCount_ne hq (by rw [hkey.2]; exact hk) _
    | _ => rfl
  | eraseKey h =>
    simp only [Op.key] at hk
    cases h with
    | unblock =>
      have hp := hop _ rfl
      exact view_setCount_ne hq (by rw [hp.2]; exact hk) _
    | eraseR => simp [view, level, Store.sem, Function.update_of_ne (Ne.symm hk)]
    | eraseW => simp [view, level, Store.sem, Function.update_of_ne (Ne.symm hk)]
    | _ => rfl

end Frame

section Refinement

variable {q : Store T K} {k : K}

omit [DecidableEq K] in
theorem level_of_sem (side : Side) (fresh : ℤ) {p : SemaphorePtr K} (h : q.sem side k = some p) :
    level q side k fresh = q.count p := by
  rw [level, h]
  rfl

theorem view_setCount_read (hq : q.Named) {p : SemaphorePtr K} (h : q.semR k = some p) (n : ℤ) :
    view max_size k (q.setCount p n) = { view max_size k q with readable := n } := by
  have hside : p.side ≠ .write := by
    rw [(hq .read k p h).1]
    decide
  have hr : level (q.setCount p n) .read k 0 = n := level_setCount_self .read 0 h n
  have hw : level (q.setCount p n) .write k (max_size - 1) = level q .write k (max_size - 1) :=
    level_update_ne (sem_ne_of_side hq hside) rfl rfl
  simp only [view, hr, hw]
  rfl

theorem view_setCount_write (hq : q.Named) {p : SemaphorePtr K} (h : q.semW k = some p) (n : ℤ) :
    view max_size k (q.setCount p n) = { view max_size k q with writable := n } := by
  have hside : p.side ≠ .read := by
    rw [(hq .write k p h).1]
    decide
  have hr : level (q.setCount p n) .read k 0 = level q .read k 0 :=
    level_update_ne (sem_ne_of_side hq hside) rfl rfl
  have hw : level (q.setCount p n) .write k (max_size - 1) = n :=
    level_setCount_self .write (max_size - 1) h n
  simp only [view, hr, hw]
  rfl

theorem view_newR (hq : q.Named) : view max_size k { q.newR k with keyMtx := true } =
    { view max_size k q with hasRead := true, readable := 0 } := by
  have hsem : (q.newR k).semR k = some ⟨.read, k, q.allocated⟩ := Function.update_self ..
  have hr : level { q.newR k with keyMtx := true } .read k 0 = 0 :=
    (level_of_sem .read 0 hsem).trans (Function.update_self ..)
  have hw : level { q.newR k with keyMtx := true } .write k (max_size - 1) =
      level q .write k (max_size - 1) :=
    level_update_ne (p := ⟨.read, k, q.allocated⟩) (n := 0) (sem_ne_of_side hq (by simp)) rfl rfl
  simp only [view, hr, hw, hsem]
  rfl

theorem view_newW (hq : q.Named) : view max_size k { q.newW max_size k with keyMtx := false } =
    { view max_size k q with hasWrite := true, writable := max_size - 1 } := by
  have hsem : (q.newW max_size k).semW k = some ⟨.write, k, q.allocated⟩ :=
    Function.update_self ..
  have hr : level { q.newW max_size k with keyMtx := false } .read k 0 = level q .read k 0 :=
    level_update_ne (p := ⟨.write, k, q.allocated⟩) (n := max_size - 1)
      (sem_ne_of_side hq (by simp)) rfl rfl
  have hw : level { q.newW max_size k with keyMtx := false } .write k (max_size - 1) =
      max_size - 1 :=
    (level_of_sem .write (max_size - 1) hsem).trans (Function.update_self ..)
  simp only [view, hr, hw, hsem]
  rfl

theorem view_write (v : T) : view max_size k (q.write k v) =
    { view max_size k q with
      items := (view max_size k q).items ++ [v], pushed := (view max_size k q).pushed ++ [v] } := by
  simp [view, level, Store.write, Store.sem]

theorem view_pop (v : T) (rest : List T) : view max_size k (q.pop k v rest) =
    { view max_size k q with items := rest, popped := (view max_size k q).popped ++ [v] } := by
  simp [view, level, Store.pop, Store.sem]

theorem step_of_key {op next : Op T K} {r : Store T K} (h : OpStep max_size op q next r)
    (hq : q.Named) (he : op.erases = false)
    (hl : ∀ p, op.holds = some p → q.sem op.side op.key = some p) :
    Step (max_size - 1) (view max_size op.key q) (phase op.key op)
      (view max_size op.key r) (phase op.key next) := by
  cases h with
  | put h =>
    simp only [phase, Op.key, if_true]
    cases h with
    | found => exact .idle _
    | newR _ hnone =>
      rw [view_newR hq]
      exact .addRead _ (by simp [view, hnone])
    | newW =>
      rw [view_newW hq]
      exact .addWrite _
    | look => exact .idle _
    | take _ hne =>
      have hp := hl _ rfl
      simp only [Op.side, Op.key, Store.sem] at hp
      have hlevel := level_of_sem .write (max_size - 1) hp
      rw [view_setCount_write hq hp, ← hlevel]
      exact .reserve _ (Option.isSome_of_eq_some hp) (hlevel.trans_ne hne)
    | push =>
      rw [view_write]
      exact .push _ _
    | signal hp =>
      have hlevel := level_of_sem .read 0 hp
      rw [view_setCount_read hq hp, ← hlevel]
      exact .signal _ (Option.isSome_of_eq_some hp)
  | get h =>
    simp only [phase, Op.key, if_true]
    cases h with
    | found => exact .idle _
    | newR _ hnone =>
      rw [view_newR hq]
      exact .addRead _ (by simp [view, hnone])
    | newW =>
      rw [view_newW hq]
      exact .addWrite _
    | look => exact .idle _
    | take _ hne =>
      have hp := hl _ rfl
      simp only [Op.side, Op.key, Store.sem] at hp
      have hlevel := level_of_sem .read 0 hp
      rw [view_setCount_read hq hp, ← hlevel]
      exact .claim _ (Option.isSome_of_eq_some hp) (hlevel.trans_ne hne)
    | pop hitems =>
      rw [view_pop]
      exact .pop _ _ _ hitems
    | miss hnil => exact .miss _ hnil
    | signal hp =>
      have hlevel := level_of_sem .write (max_size - 1) hp
      rw [view_setCount_write hq hp, ← hlevel]
      exact .free _ (Option.isSome_of_eq_some hp)
  | eraseKey h => cases he

end Refinement

section Runs

def Spared (k : K) (sys : System T K I) : Prop :=
  ∀ x ∈ sys.ops, x.2.key = k → x.2.erases = false

structure KeyLaws (max_size : ℤ) (k : K) (sys : System T K I) : Prop where
  linked : ∀ x ∈ sys.ops, x.2.key = k → ∀ p, x.2.holds = some p →
    sys.store.sem x.2.side k = some p
  lawful : Lawful (max_size - 1) (view max_size k sys.store)
    (census (fun x : I × Op T K => phase k x.2) sys.ops)

theorem Spared.of_step {k : K} {sys next : System T K I} {e : Event T K I}
    (h : sys.step max_size e = some next) (hn : Spared k next) : Spared k sys := by
  intro x hx hk
  cases e with
  | begin who call =>
    cases h
    exact hn x (List.mem_append_left _ hx) hk
  | advance i =>
    obtain ⟨who, op, op', hop, hs, hops⟩ := System.advance_eq_ok (except_toOption_eq_some h)
    obtain ⟨j, hj⟩ := List.mem_iff_getElem?.1 hx
    by_cases hij : i = j
    · subst j
      cases hop.symm.trans hj
      have hlt := (List.getElem?_eq_some_iff.1 hop).1
      have hkind := hs.kind
      have hin : (who, op') ∈ next.ops := by
        rw [hops]
        exact List.mem_set hlt _
      rw [← hkind.2.2]
      exact hn _ hin (hkind.1.trans hk)
    · have hj' : next.ops[j]? = some x := by rw [hops, List.getElem?_set_ne hij, hj]
      exact hn x (List.mem_of_getElem? hj') hk

theorem sem_of_step {k : K} {op next : Op T K} {q r : Store T K} {side : Side}
    {p : SemaphorePtr K} (h : OpStep max_size op q next r) (hk : op.key = k → op.erases = false)
    (hadd : phase k op = .adding → q.semW k = none) (hp : q.sem side k = some p) :
    r.sem side k = some p := by
  have newR : ∀ key, q.semR key = none → (q.newR key).sem side k = some p := by
    intro key hnone
    cases side with
    | write => exact hp
    | read =>
      have hne : k ≠ key := by
        rintro rfl
        exact absurd (hnone.symm.trans hp) (by simp)
      exact (Function.update_of_ne hne ..).trans hp
  have newW : ∀ key, (key = k → q.semW k = none) → (q.newW max_size key).sem side k = some p := by
    intro key hnone
    cases side with
    | read => exact hp
    | write =>
      have hne : k ≠ key := by
        rintro rfl
        exact absurd ((hnone rfl).symm.trans hp) (by simp)
      exact (Function.update_of_ne hne ..).trans hp
  cases h with
  | put h =>
    cases h with
    | newR _ hnone => exact newR _ hnone
    | newW => exact newW _ (fun he => hadd (if_pos he))
    | _ => cases side <;> exact hp
  | get h =>
    cases h with
    | newR _ hnone => exact newR _ hnone
    | newW => exact newW _ (fun he => hadd (if_pos he))
    | _ => cases side <;> exact hp
  | eraseKey h =>
    have hne : k ≠ _ := fun he => absurd (hk he.symm) (by simp [Op.erases])
    cases h with
    | eraseR =>
      cases side with
      | read => exact (Function.update_of_ne hne ..).trans hp
      | write => exact hp
    | eraseW =>
      cases side with
      | read => exact hp
      | write => exact (Function.update_of_ne hne ..).trans hp
    | _ => cases side <;> exact hp

theorem held_of_step {op next : Op T K} {q r : Store T K} {p : SemaphorePtr K}
    (h : OpStep max_size op q next r) (he : next.erases = false) (hp : next.holds = some p) :
    r.sem next.side next.key = some p := by
  cases h with
  | put h =>
    cases h with
    | look hq =>
      cases hp
      exact hq
    | _ => cases hp
  | get h =>
    cases h with
    | look hq =>
      cases hp
      exact hq
    | _ => cases hp
  | eraseKey => cases he

theorem phase_start (k : K) (call : Call T K) :
    phase k call.start = .elsewhere := by
  cases call with
  | put key value => exact ite_self _
  | get key => exact ite_self _
  | eraseKey key => rfl

/-- A writer's semaphore is missing while some call is about to make it. -/
theorem semW_of_adding {k : K} {sys : System T K I}
    (h : Paired (view max_size k sys.store) (census (fun x : I × Op T K => phase k x.2) sys.ops))
    {x : I × Op T K} (hx : x ∈ sys.ops) (hadd : phase k x.2 = .adding) :
    sys.store.semW k = none := by
  have hpos := census_pos (fun x : I × Op T K => phase k x.2) hx
  rw [hadd] at hpos
  simpa [view] using (h.hasWrite_of_adding hpos).2

theorem census_of_ne {k : K} {ops : List (I × Op T K)} {i : ℕ} {who : I} {op op' : Op T K}
    (hop : ops[i]? = some (who, op)) (hk : op.key ≠ k) (hkey : op'.key = op.key) :
    census (fun x : I × Op T K => phase k x.2) (ops.set i (who, op')) =
      census (fun x : I × Op T K => phase k x.2) ops := by
  have hmoves := census_set (fun x : I × Op T K => phase k x.2) (y := (who, op')) hop
  have hsame : phase k op' = phase k op := by rw [phase_ne hk, phase_ne (by rwa [hkey])]
  simp only [hsame] at hmoves
  exact hmoves.stay

theorem KeyLaws.step {k : K} {sys next : System T K I} {e : Event T K I} (hmax : 1 ≤ max_size)
    (hnamed : sys.Named) (hspared : Spared k sys) (hl : KeyLaws max_size k sys)
    (h : sys.step max_size e = some next) : KeyLaws max_size k next := by
  cases e with
  | begin who call =>
    cases h
    constructor
    · intro x hx
      rcases List.mem_append.1 hx with hx | hx
      · exact hl.linked x hx
      · obtain rfl := List.mem_singleton.1 hx
        intro _ p hp
        rw [call.start_holds] at hp
        cases hp
    · apply hl.lawful.congr
      intro p hp
      exact census_append (fun x : I × Op T K => phase k x.2) sys.ops (x := (who, call.start))
        (phase_start k call) hp
  | advance i =>
    obtain ⟨who, op, op', hop, hs, hops⟩ := System.advance_eq_ok (except_toOption_eq_some h)
    have hmem := List.mem_of_getElem? hop
    have hkind := hs.kind
    have hadd : phase k op = .adding → sys.store.semW k = none :=
      semW_of_adding hl.lawful.pair hmem
    constructor
    · intro x hx hk p hp
      rw [hops] at hx
      rcases List.mem_or_eq_of_mem_set hx with hx | rfl
      · exact sem_of_step hs (hspared _ hmem) hadd (hl.linked x hx hk p hp)
      · have he : op'.erases = false := by
          rw [hkind.2.2]
          exact hspared _ hmem (hkind.1.symm.trans hk)
        rw [← hk]
        exact held_of_step hs he hp
    · by_cases hk : op.key = k
      · subst k
        have hstep := step_of_key hs hnamed.store (hspared _ hmem rfl) (hl.linked _ hmem rfl)
        have hmoves := census_set (fun x : I × Op T K => phase op.key x.2) (y := (who, op')) hop
        rw [hops]
        exact hl.lawful.step (by omega) hstep hmoves
      · rw [view_of_ne hs hnamed.store (hnamed.ops _ hmem) hk, hops, census_of_ne hop hk hkind.1]
        exact hl.lawful

omit [DecidableEq K] in
theorem named_empty : (System.empty : System T K I).Named :=
  ⟨by rintro (_ | _) k p ⟨⟩, by simp [System.empty]⟩

theorem keyLaws_empty (hmax : 1 ≤ max_size) (k : K) :
    KeyLaws max_size k (System.empty : System T K I) := by
  constructor
  · simp [System.empty]
  · constructor <;> simp [view, level, Store.sem, System.empty, Store.empty, census]
    omega

/-- Whatever the threads do, the laws hold at every key that is not erased. -/
theorem keyLaws_of_reachable (hmax : 1 ≤ max_size) {sys : System T K I}
    (h : Reachable (System.step max_size) System.empty sys) {k : K} (hspared : Spared k sys) :
    KeyLaws max_size k sys := by
  have hinv : sys.Named ∧ (Spared k sys → KeyLaws max_size k sys) := by
    apply h.invariant (I := fun s => s.Named ∧ (Spared k s → KeyLaws max_size k s))
    · rintro s e t ⟨hn, hl⟩ hst
      exact ⟨hn.step hst, fun ht => (hl (Spared.of_step hst ht)).step hmax hn
        (Spared.of_step hst ht) hst⟩
    · exact ⟨named_empty, fun _ => keyLaws_empty hmax k⟩
  exact hinv.2 hspared

end Runs

section Values

/-- The value of a `put` that is not in the queue yet. -/
def unpushed (k : K) : Op T K → List T
  | .put key value pc =>
    match pc with
    | .written => []
    | .returned => []
    | _ => if key = k then [value] else []
  | _ => []

def carried (k : K) : Op T K → List T
  | .get key (.popped value) => if key = k then [value] else []
  | .get key (.returned (some value)) => if key = k then [value] else []
  | _ => []

theorem pushed_of_step {op next : Op T K} {q r : Store T K} (h : OpStep max_size op q next r)
    (k : K) : ∃ l, r.pushed k = q.pushed k ++ l ∧ unpushed k op = l ++ unpushed k next := by
  cases h with
  | @put key value _ _ _ _ h =>
    cases h with
    | push =>
      by_cases hk : key = k
      · subst key
        exact ⟨[value], by simp [Store.write, unpushed]⟩
      · exact ⟨[], by simp [Store.write, unpushed, hk, Function.update_of_ne (Ne.symm hk)]⟩
    | _ => exact ⟨[], (List.append_nil _).symm, rfl⟩
  | get h => cases h <;> exact ⟨[], (List.append_nil _).symm, rfl⟩
  | eraseKey h => cases h <;> exact ⟨[], (List.append_nil _).symm, rfl⟩

theorem popped_of_step {op next : Op T K} {q r : Store T K} (h : OpStep max_size op q next r)
    (k : K) : ∃ l, r.popped k = q.popped k ++ l ∧ carried k next = carried k op ++ l := by
  cases h with
  | put h => cases h <;> exact ⟨[], (List.append_nil _).symm, rfl⟩
  | @get key _ _ _ _ h =>
    cases h with
    | @pop _ v rest =>
      by_cases hk : key = k
      · subst key
        exact ⟨[v], by simp [Store.pop, carried]⟩
      · exact ⟨[], by simp [Store.pop, carried, hk, Function.update_of_ne (Ne.symm hk)]⟩
    | signal => exact ⟨[], (List.append_nil _).symm, (List.append_nil _).symm⟩
    | _ => exact ⟨[], (List.append_nil _).symm, rfl⟩
  | eraseKey h => cases h <;> exact ⟨[], (List.append_nil _).symm, rfl⟩

/-- Values leave the queue in the order in which they entered it, whatever else happens. -/
theorem order_of_step {k : K} {op next : Op T K} {q r : Store T K}
    (h : OpStep max_size op q next r) (hq : q.pushed k = q.popped k ++ q.collection k) :
    r.pushed k = r.popped k ++ r.collection k := by
  cases h with
  | @put key value _ _ _ _ h =>
    cases h with
    | push =>
      by_cases hk : key = k
      · subst key
        simp [Store.write, hq]
      · simp [Store.write, Function.update_of_ne (Ne.symm hk), hq]
    | _ => exact hq
  | @get key _ _ _ _ h =>
    cases h with
    | pop hitems =>
      by_cases hk : key = k
      · subst key
        simp [Store.pop, hq, hitems]
      · simp [Store.pop, Function.update_of_ne (Ne.symm hk), hq]
    | _ => exact hq
  | eraseKey h => cases h <;> exact hq

theorem order_of_run {sys : System T K I} {es : List (Event T K I)}
    (hrun : run (System.step max_size) System.empty es = some sys) (k : K) :
    sys.store.pushed k = sys.store.popped k ++ sys.store.collection k := by
  apply run_invariant (P := fun _ _ => True)
    (I := fun s : System T K I => s.store.pushed k = s.store.popped k ++ s.store.collection k)
    ?_ rfl (along_of_forall fun _ _ => trivial) hrun
  intro s e t hs _ hst
  cases e with
  | begin who call =>
    cases hst
    exact hs
  | advance i =>
    obtain ⟨who, op, op', -, hstep, -⟩ := System.advance_eq_ok (except_toOption_eq_some hst)
    exact order_of_step hstep hs

end Values

end PolkadotApi.QueueLaws
