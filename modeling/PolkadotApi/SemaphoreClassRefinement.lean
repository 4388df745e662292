import PolkadotApi.ConcurrentMapQueue
import PolkadotApi.SemaphoreClassProgress

set_option autoImplicit false

namespace PolkadotApi.SemaphoreClass
open StepRuns

section Refinement

/-- The methods as single steps; `none` where `wait` has to wait. -/
def act : Method → ℤ → Option ℤ
  | .wait, n => if n = 0 then none else some (n - 1)
  | .notify, n => some (n + 1)
  | .unblockAll, _ => some 1

/-- A semaphore without a mutex: the calls made, and whether each has taken effect. -/
structure Atomic where
  count : ℤ
  calls : List (Method × Bool)

inductive AtomicEvent where
  | begin (m : Method)
  | perform (i : ℕ)
  deriving DecidableEq

def Atomic.new (count : ℤ) : Atomic := ⟨count, []⟩

def Atomic.step (a : Atomic) : AtomicEvent → Option Atomic
  | .begin m => some { a with calls := a.calls ++ [(m, false)] }
  | .perform i =>
    match a.calls[i]? with
    | some (m, false) => (act m a.count).map fun n => ⟨n, a.calls.set i (m, true)⟩
    | _ => none

def method : Call → Method
  | .wait _ => .wait
  | .notify _ => .notify
  | .unblockAll _ => .unblockAll

def effective : Call → Bool
  | .wait .leaving | .wait .returned => true
  | .notify .signalling | .notify .leaving | .notify .returned => true
  | .unblockAll .signalling | .unblockAll .leaving | .unblockAll .returned => true
  | _ => false

def outcome (c : Call) : Method × Bool := (method c, effective c)

def atomic (s : Semaphore) : Atomic := ⟨s.count, s.calls.map outcome⟩

def acts (count : ℤ) : Call → Bool
  | .wait .testing => count ≠ 0
  | .notify .counting | .unblockAll .counting => true
  | _ => false

/-- A step that changes the count is the call's step on the atomic semaphore; the
others are not seen there. -/
def label (s : Semaphore) : Event → Option AtomicEvent
  | .begin m => some (.begin m)
  | .advance i => do
    let c ← s.calls[i]?
    if acts s.count c then some (.perform i) else none
  | .notifyOne _ _ => none
  | .wake _ => none

theorem advance_act {c next : Call} {count count' : ℤ} {mtx mtx' sleepers : Bool}
    (h : c.advance count mtx sleepers = some (next, count', mtx')) :
    if acts count c then
      outcome c = (method c, false) ∧ outcome next = (method c, true) ∧
        act (method c) count = some count'
    else outcome next = outcome c ∧ count' = count := by
  cases c with
  | wait pc =>
    cases pc with
    | testing =>
      simp only [Call.advance] at h
      split_ifs at h with hcount
      · cases h
        simp [acts, hcount, outcome, method, effective]
      · cases h
        simp [acts, hcount, outcome, method, effective, act]
    | leaving =>
      cases h
      exact ⟨rfl, rfl⟩
    | asleep => cases h
    | returned => cases h
    | _ =>
      simp only [Call.advance] at h
      split_ifs at h
      cases h
      exact ⟨rfl, rfl⟩
  | notify pc =>
    cases pc with
    | counting =>
      cases h
      exact ⟨rfl, rfl, rfl⟩
    | leaving =>
      cases h
      exact ⟨rfl, rfl⟩
    | returned => cases h
    | _ =>
      simp only [Call.advance] at h
      split_ifs at h
      cases h
      exact ⟨rfl, rfl⟩
  | unblockAll pc =>
    cases pc with
    | enter =>
      simp only [Call.advance] at h
      split_ifs at h
      cases h
      exact ⟨rfl, rfl⟩
    | counting =>
      cases h
      exact ⟨rfl, rfl, rfl⟩
    | signalling =>
      cases h
      exact ⟨rfl, rfl⟩
    | leaving =>
      cases h
      exact ⟨rfl, rfl⟩
    | returned => cases h

theorem map_outcome_set {calls : List Call} {i : ℕ} {c next : Call} (here : calls[i]? = some c)
    (h : outcome next = outcome c) : (calls.set i next).map outcome = calls.map outcome := by
  induction calls generalizing i with
  | nil => cases here
  | cons d calls ih =>
    cases i with
    | zero =>
      cases here
      rw [List.set_cons_zero, List.map_cons, List.map_cons, h]
    | succ i => rw [List.set_cons_succ, List.map_cons, List.map_cons, ih here]

theorem outcome_rouse (c : Call) : outcome c.rouse = outcome c := by
  by_cases hc : c = .wait .asleep
  · subst hc
    rfl
  · simp [Call.rouse, Call.isAsleep, hc]

theorem run_singleton {a b : Atomic} {e : AtomicEvent} (h : a.step e = some b) :
    run Atomic.step a [e] = some b := run_cons.2 ⟨b, h, rfl⟩

theorem step_atomic {s t : Semaphore} {e : Event} (h : s.step e = some t) :
    run Atomic.step (atomic s) (label s e).toList = some (atomic t) := by
  cases e with
  | begin m =>
    cases h
    apply run_singleton
    have hstart : outcome (Call.start m) = (m, false) := by cases m <;> rfl
    simp [Atomic.step, atomic, hstart]
  | advance i =>
    obtain ⟨c, here, h⟩ := Option.bind_eq_some_iff.1 h
    obtain ⟨⟨next, count, mtx⟩, hadvance, h⟩ := Option.bind_eq_some_iff.1 h
    cases h
    have hothers : (if c = .unblockAll .signalling then s.calls.map Call.rouse else s.calls).map
        outcome = s.calls.map outcome := by
      split_ifs
      · rw [List.map_map]
        exact List.map_congr_left fun d _ => outcome_rouse d
      · rfl
    have hnext : atomic ⟨count, mtx, (if c = .unblockAll .signalling then s.calls.map Call.rouse
        else s.calls).set i next⟩ = ⟨count, (s.calls.map outcome).set i (outcome next)⟩ := by
      rw [atomic, List.map_set, hothers]
    have hact := advance_act hadvance
    have hthere : (s.calls.map outcome)[i]? = some (outcome c) := by
      rw [List.getElem?_map, here]
      rfl
    rw [hnext]
    simp only [label, here, Option.bind_eq_bind, Option.bind_some]
    by_cases hacts : acts s.count c = true
    · rw [if_pos hacts] at hact ⊢
      obtain ⟨hbefore, hafter, hcount⟩ := hact
      apply run_singleton
      rw [hbefore] at hthere
      simp only [Atomic.step, atomic, hthere, hcount, hafter, Option.map_some]
    · rw [if_neg hacts] at hact ⊢
      obtain ⟨hsame, rfl⟩ := hact
      have hset := map_outcome_set here hsame
      rw [List.map_set] at hset
      rw [hset]
      rfl
  | notifyOne i j =>
    simp only [Semaphore.step] at h
    split_ifs at h with hij
    cases h
    have hsame : ((s.calls.set j (.wait .awake)).set i (.notify .leaving)).map outcome =
        s.calls.map outcome := by
      have hne : j ≠ i := by
        rintro rfl
        cases hij.1.symm.trans hij.2
      have hstill : (s.calls.set j (.wait .awake))[i]? = some (.notify .signalling) := by
        rw [List.getElem?_set_ne hne, hij.1]
      have hwoken : (s.calls.set j (.wait .awake)).map outcome = s.calls.map outcome :=
        map_outcome_set hij.2 rfl
      rw [← hwoken]
      exact map_outcome_set hstill rfl
    simp only [label, Option.toList_none, run, atomic, hsame]
  | wake j =>
    simp only [Semaphore.step] at h
    split_ifs at h with hj
    cases h
    have hsame : (s.calls.set j (.wait .awake)).map outcome = s.calls.map outcome :=
      map_outcome_set hj rfl
    simp only [label, Option.toList_none, run, atomic, hsame]

/-- The atomic semaphore is the one that the calls of the queue use. -/
theorem store_eq_act {T K : Type} [DecidableEq K] (q : ConcurrentMapQueue.Store T K)
    {p : ConcurrentMapQueue.SemaphorePtr K} (halive : q.deleted p = false) :
    q.wait p = (act .wait (q.count p)).elim (.error .blocked) (fun n => .ok (q.setCount p n)) ∧
      q.notify (some p) =
        (act .notify (q.count p)).elim (.error .blocked) (fun n => .ok (q.setCount p n)) := by
  simp only [ConcurrentMapQueue.Store.wait, ConcurrentMapQueue.Store.notify, halive, act]
  refine ⟨?_, rfl⟩
  split_ifs <;> first | rfl | contradiction

end Refinement

/-- Every run of the class in which the units fit an `int` is a run of the atomic
semaphore with the same calls and the same count, and while the atomic semaphore lets a
call take effect, some call of the class can go on. -/
theorem class_refines_atomic {start : ℤ} (h0 : 0 ≤ start) {es : List Event} {s : Semaphore}
    (hrun : run Semaphore.step (Semaphore.new start) es = some s)
    (hunits : max start 1 + sum isNotify s < 2 ^ 31) :
    CountsInInt start es ∧
      run Atomic.step (Atomic.new start) (labels Semaphore.step label (Semaphore.new start) es) =
        some (atomic s) ∧
      ((∃ i, ((atomic s).step (.perform i)).isSome) → Goes s) := by
  refine ⟨countsInInt_of_run h0 hrun hunits,
    run_simulation (fun _ _ _ => step_atomic) hrun, ?_⟩
  rintro ⟨i, hperform⟩
  have hkept := kept_of_run h0 hrun
  simp only [Atomic.step, atomic, List.getElem?_map] at hperform
  cases here : s.calls[i]? with
  | none =>
    rw [here] at hperform
    cases hperform
  | some c =>
    have hc := List.mem_of_getElem? here
    by_contra hstuck
    have hall : ∀ d ∈ s.calls, settled d = true := by
      intro d hd
      by_contra hleft
      exact hstuck (hkept.goes hd (by simpa using hleft))
    rw [here, Option.map_some] at hperform
    have hsettled := hall c hc
    unfold settled at hsettled
    split at hsettled
    · rw [hkept.count_eq_zero hall hc] at hperform
      cases hperform
    · cases hperform
    · cases hperform
    · cases hperform
    · cases hsettled

theorem class_refines_atomic_handOver :
    labels Semaphore.step label (Semaphore.new 0) handOver =
        [.begin .wait, .begin .notify, .begin .wait, .perform 1, .perform 0] ∧
      run Atomic.step (Atomic.new 0)
          (labels Semaphore.step label (Semaphore.new 0) handOver) =
        some (atomic (finalState Semaphore.step (Semaphore.new 0) handOver)) := by
  have hrun := run_finalState Semaphore.step (Semaphore.new 0) handOver (by decide)
  exact ⟨by decide, (class_refines_atomic (by decide) hrun (by decide)).2.1⟩

end PolkadotApi.SemaphoreClass
