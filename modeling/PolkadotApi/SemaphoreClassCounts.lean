import Mathlib.Algebra.Order.Ring.Int
import PolkadotApi.SemaphoreClass

set_option autoImplicit false

namespace PolkadotApi.SemaphoreClass
open StepRuns

def holds : Call → Bool
  | .wait .testing | .wait .leaving => true
  | .notify .counting | .notify .signalling | .notify .leaving => true
  | .unblockAll .counting | .unblockAll .signalling | .unblockAll .leaving => true
  | _ => false

/-- The call will look at the count again, or wake a call that does. -/
def alert : Call → Bool
  | .wait .testing | .wait .awake => true
  | .notify .signalling | .unblockAll .signalling => true
  | _ => false

def took : Call → Bool
  | .wait .leaving | .wait .returned => true
  | _ => false

def gave : Call → Bool
  | .notify .signalling | .notify .leaving | .notify .returned => true
  | _ => false

def resets : Call → Bool
  | .unblockAll _ => true
  | _ => false

def sum (p : Call → Bool) (s : Semaphore) : ℕ := s.calls.countP p

structure Kept (start : ℤ) (s : Semaphore) : Prop where
  mutex : sum holds s = s.mtx.toNat
  nonneg : 0 ≤ s.count
  awaited : 0 < sum Call.isAsleep s → s.count ≤ sum alert s
  balance : sum resets s = 0 → s.count + sum took s = start + sum gave s

variable {s t : Semaphore} {start : ℤ}

theorem kept_new (h : 0 ≤ start) : Kept start (Semaphore.new start) := by
  refine ⟨rfl, h, ?_, ?_⟩
  · intro hpos
    cases hpos
  · intro _
    rfl

theorem sum_begin (p : Call → Bool) (m : Method) (hp : p (Call.start m) = false) :
    sum p { s with calls := s.calls ++ [Call.start m] } = sum p s := by
  simp [sum, List.countP_append, hp]

theorem Kept.begin (h : Kept start s) (m : Method) :
    Kept start { s with calls := s.calls ++ [Call.start m] } := by
  have hholds := sum_begin (s := s) holds m (by cases m <;> rfl)
  have hasleep := sum_begin (s := s) Call.isAsleep m (by cases m <;> rfl)
  have halert := sum_begin (s := s) alert m (by cases m <;> rfl)
  have htook := sum_begin (s := s) took m (by cases m <;> rfl)
  have hgave := sum_begin (s := s) gave m (by cases m <;> rfl)
  refine ⟨?_, h.nonneg, ?_, ?_⟩
  · rw [hholds]
    exact h.mutex
  · rw [hasleep, halert]
    exact h.awaited
  · intro hresets
    rw [htook, hgave]
    apply h.balance
    rw [sum, List.countP_append] at hresets
    exact Nat.eq_zero_of_add_eq_zero_right hresets

theorem Kept.held (h : Kept start s) {i : ℕ} {c : Call} (here : s.calls[i]? = some c)
    (hc : holds c = true) : s.mtx = true := by
  have hpos : 0 < sum holds s := List.countP_pos_iff.2 ⟨c, List.mem_of_getElem? here, hc⟩
  have hmutex := h.mutex
  cases hm : s.mtx with
  | false =>
    rw [hm, Bool.toNat_false] at hmutex
    omega
  | true => rfl

/-- What the step of a call does to the sums; a call that goes on without an alert
behind it leaves nobody asleep, or a count that the calls still alert can lower. -/
theorem advance_sums {c next : Call} {count count' : ℤ} {mtx mtx' sleepers : Bool}
    (h : c.advance count mtx sleepers = some (next, count', mtx'))
    (held : holds c = true → mtx = true) (other : c ≠ .unblockAll .signalling) :
    (holds next).toNat + mtx.toNat = (holds c).toNat + mtx'.toNat ∧
      (0 ≤ count → 0 ≤ count') ∧ resets next = resets c ∧
      (resets c = false → count' + (took next).toNat + (gave c).toNat =
        count + (took c).toNat + (gave next).toNat) ∧
      Call.isAsleep c = false ∧
      ((Call.isAsleep next = false ∧
        (sleepers = false ∨ count' + (alert c).toNat ≤ count + (alert next).toNat)) ∨
        count' ≤ (alert next).toNat) := by
  cases c with
  | wait pc =>
    cases pc with
    | testing =>
      simp only [Call.advance] at h
      split_ifs at h with hcount
      · cases h
        simp [holds, resets, took, gave, alert, Call.isAsleep, held rfl, hcount]
      · cases h
        simp [holds, resets, took, gave, alert, Call.isAsleep, held rfl]
        omega
    | leaving =>
      cases h
      simp [holds, resets, took, gave, alert, Call.isAsleep, held rfl]
    | asleep => cases h
    | returned => cases h
    | _ =>
      simp only [Call.advance] at h
      split_ifs at h with hm
      cases h
      simp [holds, resets, took, gave, alert, Call.isAsleep, hm]
  | notify pc =>
    cases pc with
    | enter =>
      simp only [Call.advance] at h
      split_ifs at h with hm
      cases h
      simp [holds, resets, took, gave, alert, Call.isAsleep, hm]
    | counting =>
      cases h
      simp [holds, resets, took, gave, alert, Call.isAsleep, held rfl]
      omega
    | signalling =>
      simp only [Call.advance] at h
      split_ifs at h with hnone
      cases h
      simp [holds, resets, took, gave, alert, Call.isAsleep, held rfl, hnone]
    | leaving =>
      cases h
      simp [holds, resets, took, gave, alert, Call.isAsleep, held rfl]
    | returned => cases h
  | unblockAll pc =>
    cases pc with
    | enter =>
      simp only [Call.advance] at h
      split_ifs at h with hm
      cases h
      simp [holds, resets, took, gave, alert, Call.isAsleep, hm]
    | counting =>
      cases h
      simp [holds, resets, took, gave, alert, Call.isAsleep, held rfl]
    | signalling => exact absurd rfl other
    | leaving =>
      cases h
      simp [holds, resets, took, gave, alert, Call.isAsleep, held rfl]
    | returned => cases h

theorem sleepers_eq_zero (h : s.calls.any Call.isAsleep = false) : sum Call.isAsleep s = 0 := by
  rw [sum, List.countP_eq_zero]
  intro c hc
  rw [List.any_eq_false] at h
  exact h c hc

theorem toNat_le_countP (p : Call → Bool) {i : ℕ} {c : Call} (here : s.calls[i]? = some c) :
    (p c).toNat ≤ s.calls.countP p := by
  cases hc : p c with
  | false => exact Nat.zero_le _
  | true => exact List.countP_pos_iff.2 ⟨c, List.mem_of_getElem? here, hc⟩

theorem Kept.advance (h : Kept start s) {i : ℕ} {c next : Call} {count : ℤ} {mtx : Bool}
    (here : s.calls[i]? = some c) (other : c ≠ .unblockAll .signalling)
    (hadvance : c.advance s.count s.mtx (s.calls.any Call.isAsleep) = some (next, count, mtx)) :
    Kept start ⟨count, mtx, s.calls.set i next⟩ := by
  have hset := fun p => countP_set_add p next here
  obtain ⟨hmutex, hnonneg, hresets, hbalance, hawake, hawaited⟩ :=
    advance_sums hadvance (h.held here) other
  have hholds := hset holds
  have hasleep := hset Call.isAsleep
  have halert := hset alert
  have hresets' := hset resets
  rw [hresets] at hresets'
  have hbefore := h.mutex
  have hawaitedBefore := h.awaited
  simp only [sum] at hbefore hawaitedBefore
  refine ⟨?_, hnonneg h.nonneg, ?_, ?_⟩
  · simp only [sum]
    omega
  · intro hpos
    simp only [sum] at hpos ⊢
    rw [hawake, Bool.toNat_false] at hasleep
    rcases hawaited with ⟨hnext, hnone | hle⟩ | hle
    · have hzero : s.calls.countP Call.isAsleep = 0 := sleepers_eq_zero hnone
      rw [hnext, Bool.toNat_false] at hasleep
      omega
    · rw [hnext, Bool.toNat_false] at hasleep
      omega
    · have hcounted := toNat_le_countP alert here
      omega
  · intro hzero
    simp only [sum] at hzero ⊢
    have hc : resets c = false := by
      have hcounted := toNat_le_countP resets here
      exact Bool.toNat_eq_zero.1 (by omega)
    have htook := hset took
    have hgave := hset gave
    have hold : s.count + s.calls.countP took = start + s.calls.countP gave :=
      h.balance (by simp only [sum]; omega)
    have hnew := hbalance hc
    omega

theorem countP_rouse {p : Call → Bool} (hp : p (.wait .awake) = p (.wait .asleep))
    (calls : List Call) : (calls.map Call.rouse).countP p = calls.countP p := by
  rw [List.countP_map]
  apply List.countP_congr
  intro c _
  by_cases hc : c = .wait .asleep
  · subst hc
    rw [Function.comp_apply, ← hp]
    rfl
  · simp [Call.rouse, Call.isAsleep, hc]

theorem countP_asleep_rouse (calls : List Call) :
    (calls.map Call.rouse).countP Call.isAsleep = 0 := by
  rw [List.countP_map, List.countP_eq_zero]
  intro c _
  by_cases hc : c = .wait .asleep
  · subst hc
    decide
  · simp [Call.rouse, Call.isAsleep, hc]

theorem Kept.notifyAll (h : Kept start s) {i : ℕ}
    (here : s.calls[i]? = some (.unblockAll .signalling)) :
    Kept start ⟨s.count, true, (s.calls.map Call.rouse).set i (.unblockAll .leaving)⟩ := by
  have hroused : (s.calls.map Call.rouse)[i]? = some (.unblockAll .signalling) := by
    rw [List.getElem?_map, here]
    rfl
  have hset := fun p => countP_set_add p (.unblockAll .leaving) hroused
  have hmtx := h.held here rfl
  refine ⟨?_, h.nonneg, ?_, ?_⟩
  · have hholds := hset holds
    have hbefore := h.mutex
    rw [countP_rouse rfl] at hholds
    simp only [sum, hmtx, holds, Bool.toNat_true] at hbefore hholds ⊢
    omega
  · intro hpos
    have hasleep := hset Call.isAsleep
    rw [countP_asleep_rouse] at hasleep
    simp only [sum] at hpos
    have hquiet : (Call.isAsleep (.unblockAll .leaving)).toNat = 0 := rfl
    omega
  · intro hzero
    have hresets := hset resets
    simp only [sum, resets, Bool.toNat_true] at hzero hresets
    rw [countP_rouse rfl] at hresets
    have hpos : 0 < s.calls.countP resets :=
      List.countP_pos_iff.2 ⟨_, List.mem_of_getElem? here, rfl⟩
    omega

theorem Kept.wake (h : Kept start s) {j : ℕ} (there : s.calls[j]? = some (.wait .asleep)) :
    Kept start { s with calls := s.calls.set j (.wait .awake) } ∧
      s.count ≤ sum alert s ∧
      sum alert { s with calls := s.calls.set j (.wait .awake) } = sum alert s + 1 := by
  have hset := fun p => countP_set_add p (.wait .awake) there
  have hpos : 0 < sum Call.isAsleep s :=
    List.countP_pos_iff.2 ⟨_, List.mem_of_getElem? there, by decide⟩
  have halert : (s.calls.set j (.wait .awake)).countP alert = s.calls.countP alert + 1 := hset alert
  have hbound := h.awaited hpos
  refine ⟨⟨?_, h.nonneg, ?_, ?_⟩, hbound, halert⟩
  · exact (hset holds).trans h.mutex
  · intro _
    simp only [sum, halert] at hbound ⊢
    omega
  · have hresets : (s.calls.set j (.wait .awake)).countP resets = s.calls.countP resets := hset resets
    have htook : (s.calls.set j (.wait .awake)).countP took = s.calls.countP took := hset took
    have hgave : (s.calls.set j (.wait .awake)).countP gave = s.calls.countP gave := hset gave
    simp only [sum, hresets, htook, hgave]
    exact h.balance

theorem Kept.notifyOne (h : Kept start s) {i j : ℕ}
    (here : s.calls[i]? = some (.notify .signalling))
    (there : s.calls[j]? = some (.wait .asleep)) :
    Kept start { s with calls := (s.calls.set j (.wait .awake)).set i (.notify .leaving) } := by
  obtain ⟨hwoken, hbound, halert⟩ := h.wake there
  have hne : j ≠ i := by
    rintro rfl
    cases here.symm.trans there
  have hstill : (s.calls.set j (.wait .awake))[i]? = some (.notify .signalling) := by
    rw [List.getElem?_set_ne hne, here]
  have hset := fun p => countP_set_add p (.notify .leaving) hstill
  have hless : ((s.calls.set j (.wait .awake)).set i (.notify .leaving)).countP alert + 1 =
      (s.calls.set j (.wait .awake)).countP alert := hset alert
  refine ⟨?_, h.nonneg, ?_, ?_⟩
  · have hholds := hset holds
    have hmutex := hwoken.mutex
    simp only [sum, holds] at hmutex hholds ⊢
    omega
  · intro _
    simp only [sum] at hbound halert ⊢
    omega
  · have hresets := hset resets
    have htook := hset took
    have hgave := hset gave
    have hbalance := hwoken.balance
    simp only [sum, resets, took, gave] at hresets htook hgave hbalance ⊢
    omega

theorem Kept.step (h : Kept start s) (hst : Step s t) : Kept start t := by
  cases hst with
  | begin m => exact h.begin m
  | advance here other hadvance => exact h.advance here other hadvance
  | notifyAll here => exact h.notifyAll here
  | notifyOne here there => exact h.notifyOne here there
  | wake there => exact (h.wake there).1

theorem kept_of_run (h0 : 0 ≤ start) {es : List Event}
    (hrun : run Semaphore.step (Semaphore.new start) es = some s) : Kept start s := by
  have hreach : Reachable Semaphore.step (Semaphore.new start) s := ⟨es, hrun⟩
  apply hreach.invariant ?_ (kept_new h0)
  intro u e v hu huv
  exact hu.step (step_inv huv)

end PolkadotApi.SemaphoreClass
