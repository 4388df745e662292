import Mathlib.Order.Lattice
import PolkadotApi.StepRuns

set_option autoImplicit false

/-!
`Semaphore` is a count behind a mutex and a condition variable. One step of a call
is one access to the count, the mutex or the condition variable. A call that sleeps
in `_cv.wait` has given the mutex back; it is woken by `notify_one`, which chooses
among the sleeping calls, by `notify_all`, or without a notification, and takes the
mutex again before it tests the count. The queue's own model uses the three methods
as single steps.
-/
namespace PolkadotApi.SemaphoreClass
open StepRuns

inductive WaitPc where
  | enter
  | testing
  | asleep
  | awake
  | leaving
  | returned
  deriving DecidableEq

inductive SignalPc where
  | enter
  | counting
  | signalling
  | leaving
  | returned
  deriving DecidableEq

inductive Method where
  | wait
  | notify
  | unblockAll
  deriving DecidableEq

inductive Call where
  | wait (pc : WaitPc)
  | notify (pc : SignalPc)
  | unblockAll (pc : SignalPc)
  deriving DecidableEq

namespace Call

def start : Method → Call
  | .wait => .wait .enter
  | .notify => .notify .enter
  | .unblockAll => .unblockAll .enter

def isAsleep (c : Call) : Bool := c = .wait .asleep

def rouse (c : Call) : Call := if c.isAsleep then .wait .awake else c

/-- The step of a call with the count, the mutex, and whether some call sleeps. -/
def advance (count : ℤ) (mtx sleepers : Bool) : Call → Option (Call × ℤ × Bool)
  | .wait .enter => if mtx then none else some (.wait .testing, count, true)
  | .wait .testing =>
    -- the condition variable releases the mutex for the time of the sleep
    if count = 0 then some (.wait .asleep, count, false)
    else some (.wait .leaving, count - 1, true)
  | .wait .asleep => none
  | .wait .awake => if mtx then none else some (.wait .testing, count, true)
  | .wait .leaving => some (.wait .returned, count, false)
  | .wait .returned => none
  | .notify .enter => if mtx then none else some (.notify .counting, count, true)
  | .notify .counting => some (.notify .signalling, count + 1, true)
  -- with a call asleep, `notify_one` wakes one of them
  | .notify .signalling => if sleepers then none else some (.notify .leaving, count, true)
  | .notify .leaving => some (.notify .returned, count, false)
  | .notify .returned => none
  | .unblockAll .enter => if mtx then none else some (.unblockAll .counting, count, true)
  | .unblockAll .counting => some (.unblockAll .signalling, 1, true)
  | .unblockAll .signalling => some (.unblockAll .leaving, count, true)
  | .unblockAll .leaving => some (.unblockAll .returned, count, false)
  | .unblockAll .returned => none

end Call

structure Semaphore where
  count : ℤ
  mtx : Bool
  calls : List Call

inductive Event where
  | begin (m : Method)
  | advance (i : ℕ)
  | notifyOne (i j : ℕ)
  | wake (j : ℕ)

namespace Semaphore

def new (count : ℤ) : Semaphore := ⟨count, false, []⟩

def step (s : Semaphore) : Event → Option Semaphore
  | .begin m => some { s with calls := s.calls ++ [Call.start m] }
  | .advance i => do
    let c ← s.calls[i]?
    let (next, count, mtx) ← c.advance s.count s.mtx (s.calls.any Call.isAsleep)
    -- `notify_all` wakes every call that sleeps
    let others := if c = .unblockAll .signalling then s.calls.map Call.rouse else s.calls
    some ⟨count, mtx, others.set i next⟩
  | .notifyOne i j =>
    if s.calls[i]? = some (.notify .signalling) ∧ s.calls[j]? = some (.wait .asleep) then
      some { s with calls := (s.calls.set j (.wait .awake)).set i (.notify .leaving) }
    else none
  | .wake j =>
    if s.calls[j]? = some (.wait .asleep) then
      some { s with calls := s.calls.set j (.wait .awake) }
    else none

end Semaphore

section Inversion

inductive Step (s : Semaphore) : Semaphore → Prop where
  | begin (m : Method) : Step s { s with calls := s.calls ++ [Call.start m] }
  | advance {i : ℕ} {c next : Call} {count : ℤ} {mtx : Bool} (here : s.calls[i]? = some c)
      (other : c ≠ .unblockAll .signalling)
      (h : c.advance s.count s.mtx (s.calls.any Call.isAsleep) = some (next, count, mtx)) :
      Step s ⟨count, mtx, s.calls.set i next⟩
  | notifyAll {i : ℕ} (here : s.calls[i]? = some (.unblockAll .signalling)) :
      Step s ⟨s.count, true, (s.calls.map Call.rouse).set i (.unblockAll .leaving)⟩
  | notifyOne {i j : ℕ} (here : s.calls[i]? = some (.notify .signalling))
      (there : s.calls[j]? = some (.wait .asleep)) :
      Step s { s with calls := (s.calls.set j (.wait .awake)).set i (.notify .leaving) }
  | wake {j : ℕ} (there : s.calls[j]? = some (.wait .asleep)) :
      Step s { s with calls := s.calls.set j (.wait .awake) }

variable {s t : Semaphore}

theorem step_inv {e : Event} (h : s.step e = some t) : Step s t := by
  cases e with
  | begin m =>
    cases h
    exact .begin m
  | advance i =>
    obtain ⟨c, here, h⟩ := Option.bind_eq_some_iff.1 h
    obtain ⟨⟨next, count, mtx⟩, hadvance, h⟩ := Option.bind_eq_some_iff.1 h
    by_cases hc : c = .unblockAll .signalling
    · subst hc
      cases hadvance
      cases h
      exact .notifyAll here
    · dsimp only at h
      rw [if_neg hc] at h
      cases h
      exact .advance here hc hadvance
  | notifyOne i j =>
    simp only [Semaphore.step] at h
    split_ifs at h with hij
    cases h
    exact .notifyOne hij.1 hij.2
  | wake j =>
    simp only [Semaphore.step] at h
    split_ifs at h with hj
    cases h
    exact .wake hj

end Inversion

end PolkadotApi.SemaphoreClass
