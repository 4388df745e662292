import PolkadotApi.SemaphoreClassCounts

set_option autoImplicit false

namespace PolkadotApi.SemaphoreClass
open StepRuns

section Progress

variable {s : Semaphore} {start : ℤ}

def settled : Call → Bool
  | .wait .asleep | .wait .returned => true
  | .notify .returned | .unblockAll .returned => true
  | _ => false

/-- A step that some call takes on its own, not a wake-up without a notification. -/
def progresses : Event → Bool
  | .advance _ | .notifyOne _ _ => true
  | _ => false

def Goes (s : Semaphore) : Prop := ∃ e, progresses e = true ∧ (s.step e).isSome

theorem goes_of_advance {i : ℕ} {c : Call} (here : s.calls[i]? = some c)
    (h : (c.advance s.count s.mtx (s.calls.any Call.isAsleep)).isSome) : Goes s := by
  obtain ⟨r, hr⟩ := Option.isSome_iff_exists.1 h
  refine ⟨.advance i, rfl, ?_⟩
  simp [Semaphore.step, here, hr]

theorem goes_of_holds {i : ℕ} {c : Call} (here : s.calls[i]? = some c) (hc : holds c = true) :
    Goes s := by
  by_cases hsignal : c = .notify .signalling
  · subst hsignal
    cases hany : s.calls.any Call.isAsleep with
    | false => exact goes_of_advance here (by simp [Call.advance, hany])
    | true =>
      obtain ⟨d, hd, hasleep⟩ := List.any_eq_true.1 hany
      obtain rfl : d = .wait .asleep := of_decide_eq_true hasleep
      obtain ⟨j, hj⟩ := List.mem_iff_getElem?.1 hd
      refine ⟨.notifyOne i j, rfl, ?_⟩
      simp [Semaphore.step, here, hj]
  · apply goes_of_advance here
    unfold holds at hc
    split at hc
    · rw [Call.advance]
      split_ifs <;> rfl
    · rfl
    · rfl
    · exact absurd rfl hsignal
    · rfl
    · rfl
    · rfl
    · rfl
    · cases hc

theorem goes_of_free {i : ℕ} {c : Call} (here : s.calls[i]? = some c) (hc : holds c = false)
    (hleft : settled c = false) (hfree : s.mtx = false) : Goes s := by
  apply goes_of_advance here
  cases c with
  | wait pc =>
    cases pc with
    | enter => simp [Call.advance, hfree]
    | awake => simp [Call.advance, hfree]
    | testing => cases hc
    | leaving => cases hc
    | asleep => cases hleft
    | returned => cases hleft
  | notify pc =>
    cases pc with
    | enter => simp [Call.advance, hfree]
    | returned => cases hleft
    | _ => cases hc
  | unblockAll pc =>
    cases pc with
    | enter => simp [Call.advance, hfree]
    | returned => cases hleft
    | _ => cases hc

theorem Kept.goes (h : Kept start s) {c : Call} (hc : c ∈ s.calls) (hleft : settled c = false) :
    Goes s := by
  have hmutex := h.mutex
  cases hm : s.mtx with
  | true =>
    rw [hm, Bool.toNat_true] at hmutex
    have hpos : 0 < s.calls.countP holds := by
      simp only [sum] at hmutex
      omega
    obtain ⟨d, hd, hholds⟩ := List.countP_pos_iff.1 hpos
    obtain ⟨j, hj⟩ := List.mem_iff_getElem?.1 hd
    exact goes_of_holds hj hholds
  | false =>
    rw [hm, Bool.toNat_false] at hmutex
    obtain ⟨i, hi⟩ := List.mem_iff_getElem?.1 hc
    have hnone := List.countP_eq_zero.1 hmutex c hc
    exact goes_of_free hi (by simpa using hnone) hleft hm

theorem alert_of_settled (hall : ∀ c ∈ s.calls, settled c = true) : sum alert s = 0 := by
  rw [sum, List.countP_eq_zero]
  intro c hc halert
  have hsettled := hall c hc
  unfold alert at halert
  split at halert
  · cases hsettled
  · cases hsettled
  · cases hsettled
  · cases hsettled
  · cases halert

theorem Kept.count_eq_zero (h : Kept start s) (hall : ∀ c ∈ s.calls, settled c = true)
    (hasleep : .wait .asleep ∈ s.calls) : s.count = 0 := by
  have hpos : 0 < sum Call.isAsleep s := List.countP_pos_iff.2 ⟨_, hasleep, by decide⟩
  have hle := h.awaited hpos
  have hnonneg := h.nonneg
  rw [alert_of_settled hall] at hle
  omega

def isWait : Call → Bool
  | .wait _ => true
  | _ => false

def isNotify : Call → Bool
  | .notify _ => true
  | _ => false

theorem sums_of_settled {calls : List Call} (hall : ∀ c ∈ calls, settled c = true) :
    calls.countP took = calls.count (.wait .returned) ∧
      calls.countP gave = calls.countP isNotify ∧
      calls.countP isWait = calls.count (.wait .returned) + calls.countP Call.isAsleep := by
  induction calls with
  | nil => exact ⟨rfl, rfl, rfl⟩
  | cons c calls ih =>
    obtain ⟨htook, hgave, hwaits⟩ := ih fun d hd => hall d (List.mem_cons_of_mem c hd)
    have hc := hall c List.mem_cons_self
    simp only [List.countP_cons, List.count_cons, htook, hgave, hwaits]
    unfold settled at hc
    split at hc
    · simp [took, gave, isNotify, isWait, Call.isAsleep]
      omega
    · simp [took, gave, isNotify, isWait, Call.isAsleep]
      omega
    · simp [took, gave, isNotify, isWait, Call.isAsleep]
    · simp [took, gave, isNotify, isWait, Call.isAsleep]
    · cases hc

end Progress

section Range

variable {s t : Semaphore} {start : ℤ}

theorem advance_count_le {c next : Call} {count count' : ℤ} {mtx mtx' sleepers : Bool}
    (h : c.advance count mtx sleepers = some (next, count', mtx')) :
    isNotify next = isNotify c ∧ (gave c).toNat ≤ (gave next).toNat ∧
      (count' + (gave c).toNat ≤ count + (gave next).toNat ∨ count' = 1) := by
  unfold Call.advance at h
  split at h <;> (try split_ifs at h) <;> cases h <;> simp [isNotify, gave]

theorem step_count_le (hst : Step s t) (h : s.count ≤ max start 1 + sum gave s) :
    t.count ≤ max start 1 + sum gave t ∧ sum isNotify s ≤ sum isNotify t := by
  cases hst with
  | begin m =>
    refine ⟨?_, ?_⟩
    · rw [sum_begin gave m (by cases m <;> rfl)]
      exact h
    · simp [sum, List.countP_append]
  | @advance i c next count mtx here other hadvance =>
    obtain ⟨hmethod, hmore, hcount⟩ := advance_count_le hadvance
    have hgave := countP_set_add gave next here
    have hnotify := countP_set_add isNotify next here
    rw [hmethod] at hnotify
    simp only [sum] at h ⊢
    have hone : (1 : ℤ) ≤ max start 1 := le_max_right _ _
    omega
  | @notifyAll i here =>
    have hroused : (s.calls.map Call.rouse)[i]? = some (.unblockAll .signalling) := by
      rw [List.getElem?_map, here]
      rfl
    have hgave := countP_set_add gave (.unblockAll .leaving) hroused
    have hnotify := countP_set_add isNotify (.unblockAll .leaving) hroused
    rw [countP_rouse rfl] at hgave hnotify
    simp only [sum, gave, isNotify, Bool.toNat_false] at h hgave hnotify ⊢
    omega
  | @notifyOne i j here there =>
    have hne : j ≠ i := by
      rintro rfl
      cases here.symm.trans there
    have hstill : (s.calls.set j (.wait .awake))[i]? = some (.notify .signalling) := by
      rw [List.getElem?_set_ne hne, here]
    have hgave := countP_set_add gave (.notify .leaving) hstill
    have hnotify := countP_set_add isNotify (.notify .leaving) hstill
    have hgave' := countP_set_add gave (.wait .awake) there
    have hnotify' := countP_set_add isNotify (.wait .awake) there
    simp only [gave, isNotify, Bool.toNat_false] at hgave' hnotify'
    simp only [sum, gave, isNotify, Bool.toNat_true] at h hgave hnotify ⊢
    omega
  | @wake j there =>
    have hgave := countP_set_add gave (.wait .awake) there
    have hnotify := countP_set_add isNotify (.wait .awake) there
    simp only [sum, gave, isNotify, Bool.toNat_false] at h hgave hnotify ⊢
    omega

theorem count_le_of_run {es : List Event}
    (hrun : run Semaphore.step (Semaphore.new start) es = some s) :
    s.count ≤ max start 1 + sum gave s := by
  have hreach : Reachable Semaphore.step (Semaphore.new start) s := ⟨es, hrun⟩
  have hnew : start ≤ max start 1 + ((0 : ℕ) : ℤ) := by
    rw [Nat.cast_zero, add_zero]
    exact le_max_left _ _
  apply hreach.invariant ?_ hnew
  intro u e v hu huv
  exact (step_count_le (step_inv huv) hu).1

theorem notifies_le_of_run {es : List Event} (h : s.count ≤ max start 1 + sum gave s)
    (hrun : run Semaphore.step s es = some t) : sum isNotify s ≤ sum isNotify t := by
  induction es generalizing s with
  | nil =>
    cases hrun
    exact le_rfl
  | cons e es ih =>
    obtain ⟨u, hu, hrest⟩ := run_cons.1 hrun
    obtain ⟨hcount, hle⟩ := step_count_le (step_inv hu) h
    exact hle.trans (ih hcount hrest)

theorem gave_le_isNotify (s : Semaphore) : sum gave s ≤ sum isNotify s := by
  apply List.countP_mono_left
  intro c _ hc
  unfold gave at hc
  split at hc
  · rfl
  · rfl
  · rfl
  · cases hc

/-- The count after `es`, and after every beginning of `es`, is a value of `int`. -/
def CountsInInt (start : ℤ) (es : List Event) : Prop :=
  ∀ begun u, begun <+: es → run Semaphore.step (Semaphore.new start) begun = some u →
    0 ≤ u.count ∧ u.count < 2 ^ 31

theorem countsInInt_of_run (h0 : 0 ≤ start) {es : List Event}
    (hrun : run Semaphore.step (Semaphore.new start) es = some s)
    (hunits : max start 1 + sum isNotify s < 2 ^ 31) : CountsInInt start es := by
  rintro begun u ⟨rest, rfl⟩ hbegun
  obtain ⟨v, hv, hrest⟩ := run_append.1 hrun
  cases hbegun.symm.trans hv
  have hcount := count_le_of_run hbegun
  have hmore := notifies_le_of_run hcount hrest
  have hgave := gave_le_isNotify u
  refine ⟨(kept_of_run h0 hbegun).nonneg, ?_⟩
  omega

end Range

/-- In every interleaving of the calls of a semaphore, with wake-ups at any time and
whichever sleeper `notify_one` chooses: as long as a call has neither returned nor
sleeps, some call can go on; when all have returned or sleep, a call sleeps only at
the count 0; and without `unblockAll` as many `wait` calls have then returned as there
were units for. The bound on the units is what keeps the `int` that holds the count
from overflowing. -/
theorem waits_served {start : ℤ} (h0 : 0 ≤ start) {es : List Event} {s : Semaphore}
    (hrun : run Semaphore.step (Semaphore.new start) es = some s)
    (hunits : max start 1 + sum isNotify s < 2 ^ 31) :
    CountsInInt start es ∧
      ((∀ c ∈ s.calls, settled c = true) ∨ Goes s) ∧
      ((∀ c ∈ s.calls, settled c = true) →
        (.wait .asleep ∈ s.calls → s.count = 0) ∧
        (sum resets s = 0 → (s.calls.count (.wait .returned) : ℤ) =
          min (sum isWait s : ℤ) (start + sum isNotify s))) := by
  have hkept := kept_of_run h0 hrun
  refine ⟨countsInInt_of_run h0 hrun hunits, ?_, ?_⟩
  · by_cases hall : ∀ c ∈ s.calls, settled c = true
    · exact Or.inl hall
    · push Not at hall
      obtain ⟨c, hc, hleft⟩ := hall
      exact Or.inr (hkept.goes hc (by simpa using hleft))
  · intro hall
    refine ⟨hkept.count_eq_zero hall, ?_⟩
    intro hresets
    obtain ⟨htook, hgave, hwaits⟩ := sums_of_settled hall
    have hbalance := hkept.balance hresets
    have hnonneg := hkept.nonneg
    simp only [sum, htook, hgave] at hbalance ⊢
    rw [hwaits]
    by_cases hasleep : .wait .asleep ∈ s.calls
    · have hcount := hkept.count_eq_zero hall hasleep
      rw [min_eq_right (by push_cast; omega)]
      omega
    · have hnone : s.calls.countP Call.isAsleep = 0 := by
        rw [List.countP_eq_zero]
        intro c hc hc'
        obtain rfl : c = .wait .asleep := of_decide_eq_true hc'
        exact hasleep hc
      rw [hnone, min_eq_left (by push_cast; omega)]
      rfl

/-- One call waits, another one gives a unit and wakes it, and a third call waits on. -/
def handOver : List Event :=
  List.flatten
    [[.begin .wait, .begin .notify, .begin .wait], List.replicate 2 (.advance 0),
      List.replicate 2 (.advance 2), [.wake 2], List.replicate 2 (.advance 2),
      List.replicate 2 (.advance 1), [.notifyOne 1 0, .advance 1], List.replicate 3 (.advance 0)]

theorem waits_served_handOver :
    (finalState Semaphore.step (Semaphore.new 0) handOver).calls =
        [.wait .returned, .notify .returned, .wait .asleep] ∧
      (finalState Semaphore.step (Semaphore.new 0) handOver).count = 0 := by
  have hrun := run_finalState Semaphore.step (Semaphore.new 0) handOver (by decide)
  have hcalls : (finalState Semaphore.step (Semaphore.new 0) handOver).calls =
      [.wait .returned, .notify .returned, .wait .asleep] := by decide
  have hall : ∀ c ∈ (finalState Semaphore.step (Semaphore.new 0) handOver).calls,
      settled c = true := by
    rw [hcalls]
    decide
  have hasleep : .wait .asleep ∈ (finalState Semaphore.step (Semaphore.new 0) handOver).calls := by
    rw [hcalls]
    decide
  exact ⟨hcalls, ((waits_served (by decide) hrun (by decide)).2.2 hall).1 hasleep⟩

end PolkadotApi.SemaphoreClass
