import PolkadotApi.QueueLaws
import PolkadotApi.SemaphoreLookups

set_option autoImplicit false

namespace PolkadotApi.SocketProgress
open StepRuns StreamReader BoundedBuffer ConcurrentMapQueue QueueLaws
open SemaphoreLookups

variable {T K I : Type} [DecidableEq K] {max_size : ℤ} {k : K} {op next : Op T K} {q r : Store T K}

/-- The party keeps a place that is neither free nor filled. -/
def keeps (a : Phase) : ℕ := (if a = .reserved then 1 else 0) + (if a = .freeing then 1 else 0)

theorem keeps_of_moves {n m : Phase → ℕ} {a c : Phase} (h : Moves n m a c) :
    m .reserved + m .freeing + keeps a = n .reserved + n .freeing + keeps c := by
  have hreserved := h .reserved
  have hfreeing := h .freeing
  unfold keeps
  omega

theorem level_take {p : SemaphorePtr K} (n : ℤ) (hp : q.semW k = some p → n = q.count p - 1) :
    level q .write k (max_size - 1) ≤ level (q.setCount p n) .write k (max_size - 1) + 1 := by
  by_cases hsem : q.semW k = some p
  · rw [level_setCount_self .write _ hsem, level_of_sem .write _ hsem, hp hsem]
    omega
  · have hne : q.sem .write k ≠ some p := hsem
    have hsame : level (q.setCount p n) .write k (max_size - 1) = level q .write k (max_size - 1) :=
      level_update_ne hne rfl rfl
    omega

theorem level_newR (hq : q.Named) : level { q.newR k with keyMtx := true } .write k (max_size - 1) =
    level q .write k (max_size - 1) :=
  congrArg Buffer.writable (view_newR hq)

theorem level_newW (hq : q.Named) :
    level { q.newW max_size k with keyMtx := false } .write k (max_size - 1) = max_size - 1 :=
  congrArg Buffer.writable (view_newW hq)

theorem level_read (hq : q.Named) {p : SemaphorePtr K} (hside : p.side = .read) (n : ℤ) :
    level (q.setCount p n) .write k (max_size - 1) = level q .write k (max_size - 1) :=
  level_update_ne (sem_ne_of_side hq (by rw [hside]; decide)) rfl rfl

/-- From `q` to `r` no place at `k` is lost: it is free, filled, or kept by the call
in progress. A new or erased semaphore may even add some. -/
def KeepsPlaces (max_size : ℤ) (k : K) (q r : Store T K) (a c : Phase) : Prop :=
  level r .write k (max_size - 1) = max_size - 1 ∨
    level q .write k (max_size - 1) + (q.collection k).length + keeps a ≤
      level r .write k (max_size - 1) + (r.collection k).length + keeps c

theorem places_of_put {value : T} {pc pc' : PutPc K} (h : PutStep max_size k value pc q pc' r)
    (hq : q.Named) : KeepsPlaces max_size k q r (putPhase pc) (putPhase pc') := by
  cases h with
  | found => exact Or.inr le_rfl
  | newR =>
    right
    rw [level_newR hq]
    exact le_rfl
  | newW => exact Or.inl (level_newW hq)
  | look => exact Or.inr le_rfl
  | @take _ p alive hne =>
    right
    have hlevel : level q .write k (max_size - 1) ≤ _ := level_take (q.count p - 1) fun _ => rfl
    simp only [putPhase, keeps, reduceCtorEq, if_true, if_false]
    change _ ≤ _ + ((q.collection k).length : ℤ) + _
    omega
  | push =>
    right
    have hlevel : level (q.write k value) .write k (max_size - 1) =
        level q .write k (max_size - 1) := rfl
    simp only [putPhase, keeps, reduceCtorEq, if_true, if_false]
    rw [hlevel]
    simp only [Store.write, Function.update_self, List.length_append, List.length_singleton]
    omega
  | signal hp =>
    right
    rw [level_read hq (hq .read _ _ hp).1]
    exact le_rfl

theorem places_of_get {pc pc' : GetPc T K} (h : GetStep max_size k pc q pc' r) (hq : q.Named)
    (hop : (Op.get k pc : Op T K).Named) :
    KeepsPlaces max_size k q r (getPhase pc) (getPhase pc') := by
  cases h with
  | found => exact Or.inr le_rfl
  | newR =>
    right
    rw [level_newR hq]
    exact le_rfl
  | newW => exact Or.inl (level_newW hq)
  | look => exact Or.inr le_rfl
  | take =>
    right
    rw [level_read hq (hop _ rfl).1]
    exact le_rfl
  | @pop _ v rest hitems =>
    right
    have hlevel : level (q.pop k v rest) .write k (max_size - 1) =
        level q .write k (max_size - 1) := rfl
    simp only [getPhase, keeps, reduceCtorEq, if_true, if_false]
    rw [hlevel]
    simp only [Store.pop, Function.update_self, hitems, List.length_cons]
    omega
  | miss => exact Or.inr le_rfl
  | @signal _ p v hp alive =>
    right
    rw [level_setCount_self .write _ hp, level_of_sem .write _ hp]
    simp only [getPhase, keeps, reduceCtorEq, if_true, if_false]
    change _ ≤ _ + ((q.collection k).length : ℤ) + _
    omega

theorem places_of_erase {pc pc' : ErasePc K} (h : EraseStep k pc q pc' r) (hq : q.Named)
    (hop : (Op.eraseKey k pc : Op T K).Named) :
    KeepsPlaces max_size k q r .elsewhere .elsewhere := by
  cases h with
  | look => exact Or.inr le_rfl
  | unblock =>
    right
    rw [level_read hq (hop _ rfl).1]
    exact le_rfl
  | eraseR => exact Or.inr le_rfl
  | eraseW =>
    left
    simp [level, Store.sem]
  | delete => exact Or.inr le_rfl

theorem places_of_step (h : OpStep max_size op q next r) (hq : q.Named) (hop : op.Named)
    (hk : op.key = k) : KeepsPlaces max_size k q r (phase k op) (phase k next) := by
  subst hk
  cases h with
  | put h =>
    simp only [phase, Op.key, if_true]
    exact places_of_put h hq
  | get h =>
    simp only [phase, Op.key, if_true]
    exact places_of_get h hq hop
  | eraseKey h => exact places_of_erase h hq hop

/-- Every place at `k` is free, filled, or kept by a call in progress. -/
def Accounted (max_size : ℤ) (k : K) (sys : System T K I) : Prop :=
  max_size - 1 ≤ level sys.store .write k (max_size - 1) + (sys.store.collection k).length +
    census (fun x : I × Op T K => phase k x.2) sys.ops .reserved +
    census (fun x : I × Op T K => phase k x.2) sys.ops .freeing

theorem Accounted.step {sys sys' : System T K I} {e : Event T K I} (h : Accounted max_size k sys)
    (hnamed : sys.Named) (hst : sys.step max_size e = some sys') : Accounted max_size k sys' := by
  unfold Accounted at h ⊢
  cases e with
  | begin who call =>
    cases hst
    have hsame : ∀ a, a ≠ .elsewhere → census (fun x : I × Op T K => phase k x.2)
        (sys.begin who call).ops a = census (fun x : I × Op T K => phase k x.2) sys.ops a := by
      intro a ha
      exact census_append (fun x : I × Op T K => phase k x.2) sys.ops (x := (who, call.start))
        (phase_start k call) ha
    rw [hsame .reserved (by decide), hsame .freeing (by decide)]
    exact h
  | advance i =>
    obtain ⟨who, op, op', hop, hs, hops⟩ := System.advance_eq_ok (except_toOption_eq_some hst)
    have hmem := List.mem_of_getElem? hop
    rw [hops]
    by_cases hk : op.key = k
    · have hmoves := keeps_of_moves (census_set (fun x : I × Op T K => phase k x.2)
        (y := (who, op')) hop)
      dsimp only at hmoves
      rcases places_of_step hs hnamed.store (hnamed.ops _ hmem) hk with hfull | hle
      · omega
      · omega
    · have hview := view_of_ne hs hnamed.store (hnamed.ops _ hmem) hk
      have hlevel : level sys'.store .write k (max_size - 1) =
          level sys.store .write k (max_size - 1) := congrArg Buffer.writable hview
      have hitems : sys'.store.collection k = sys.store.collection k :=
        congrArg Buffer.items hview
      rw [census_of_ne hop hk hs.kind.1, hlevel, hitems]
      exact h

theorem accounted_of_reachable {sys : System T K I}
    (h : Reachable (System.step max_size) System.empty sys) (k : K) : Accounted max_size k sys := by
  have hboth : sys.Named ∧ Accounted max_size k sys := by
    apply h.invariant (I := fun s : System T K I => s.Named ∧ Accounted max_size k s)
    · rintro s e t ⟨hnamed, hs⟩ hst
      exact ⟨hnamed.step hst, hs.step hnamed hst⟩
    · refine ⟨named_empty, ?_⟩
      simp [Accounted, level, Store.sem, System.empty, Store.empty, census]
  exact hboth.2

end PolkadotApi.SocketProgress
