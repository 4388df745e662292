import PolkadotApi.StepRuns
import PolkadotApi.StreamReader
import PolkadotApi.BoundedBuffer

set_option autoImplicit false

/-!
One thread's step is one access to the shared maps, one `wait` or `notify` of a
semaphore, or one push or pop. A lookup in `_semR` or `_semW` that is followed
by a wait is a step of its own, since the thread keeps the pointer while it is
blocked. The constructor argument `max_size` is a parameter.
-/
namespace PolkadotApi.ConcurrentMapQueue
open StepRuns StreamReader BoundedBuffer

inductive Side where
  | read
  | write
  deriving DecidableEq

/-- A semaphore on the heap: the map it was made for, its key, and the number of
its allocation. -/
structure SemaphorePtr (K : Type) where
  side : Side
  key : K
  serial : ℕ
  deriving DecidableEq

/-- Why a thread does not step: it waits, what it does next is undefined, or its
call has returned. -/
inductive Stop where
  | blocked
  | undefined
  | ended
  deriving DecidableEq

abbrev Outcome (α : Type) := Except Stop α

/-- The members of the class with the semaphores they point to. `pushed` and
`popped` record all values that went through a queue. -/
structure Store (T K : Type) where
  collection : K → List T
  semR : K → Option (SemaphorePtr K)
  semW : K → Option (SemaphorePtr K)
  keyMtx : Bool
  count : SemaphorePtr K → ℤ
  deleted : SemaphorePtr K → Bool
  allocated : ℕ
  pushed : K → List T
  popped : K → List T

variable {T K I : Type} [DecidableEq K]

def Store.empty : Store T K :=
  ⟨fun _ => [], fun _ => none, fun _ => none, false, fun _ => 0, fun _ => false, 0,
    fun _ => [], fun _ => []⟩

namespace Store

def setCount (q : Store T K) (p : SemaphorePtr K) (n : ℤ) : Store T K :=
  { q with count := Function.update q.count p n }

def wait (q : Store T K) (p : SemaphorePtr K) : Outcome (Store T K) :=
  if q.deleted p then .error .undefined
  else if q.count p = 0 then .error .blocked
  else .ok (q.setCount p (q.count p - 1))

/-- `Semaphore::notify`, through a map entry that may be missing. -/
def notify (q : Store T K) : Option (SemaphorePtr K) → Outcome (Store T K)
  | none => .error .undefined
  | some p => if q.deleted p then .error .undefined else .ok (q.setCount p (q.count p + 1))

def write (q : Store T K) (key : K) (value : T) : Store T K :=
  { q with
    collection := Function.update q.collection key (q.collection key ++ [value])
    pushed := Function.update q.pushed key (q.pushed key ++ [value]) }

def pop (q : Store T K) (key : K) (value : T) (rest : List T) : Store T K :=
  { q with
    collection := Function.update q.collection key rest
    popped := Function.update q.popped key (q.popped key ++ [value]) }

def read (q : Store T K) (key : K) : Option (T × Store T K) :=
  match q.collection key with
  | [] => none
  | value :: rest => some (value, q.pop key value rest)

def newR (q : Store T K) (key : K) : Store T K :=
  let p : SemaphorePtr K := ⟨.read, key, q.allocated⟩
  { q with
    semR := Function.update q.semR key (some p), count := Function.update q.count p 0,
    allocated := q.allocated + 1 }

def newW (max_size : ℤ) (q : Store T K) (key : K) : Store T K :=
  let p : SemaphorePtr K := ⟨.write, key, q.allocated⟩
  { q with
    semW := Function.update q.semW key (some p),
    count := Function.update q.count p (max_size - 1), allocated := q.allocated + 1 }

end Store

/-- Inside `addKey`: before the mutex, and between the two stores. -/
inductive AddPc where
  | enter
  | adding
  deriving DecidableEq

/-- `none` when `addKey` returns. -/
def Store.addKey (max_size : ℤ) (q : Store T K) (key : K) : AddPc → Outcome (Option AddPc × Store T K)
  | .enter =>
    if q.keyMtx then .error .blocked
    else if (q.semR key).isSome then .ok (none, q)
    else .ok (some .adding, { q.newR key with keyMtx := true })
  | .adding => .ok (none, { q.newW max_size key with keyMtx := false })

inductive PutPc (K : Type) where
  | addKey (a : AddPc)
  | added
  | waiting (semW : SemaphorePtr K)
  | granted
  | written
  | returned
  deriving DecidableEq

inductive GetPc (T K : Type) where
  | addKey (a : AddPc)
  | added
  | waiting (semR : SemaphorePtr K)
  | granted
  | popped (value : T)
  | returned (result : Option T)
  deriving DecidableEq

inductive ErasePc (K : Type) where
  | enter
  | looked (semR : SemaphorePtr K) (semW : Option (SemaphorePtr K))
  | unblocked (semR : SemaphorePtr K) (semW : Option (SemaphorePtr K))
  | erasedR (semR : SemaphorePtr K) (semW : Option (SemaphorePtr K))
  | erasedW (semR : SemaphorePtr K) (semW : Option (SemaphorePtr K))
  | returned
  deriving DecidableEq

inductive Op (T K : Type) where
  | put (key : K) (value : T) (pc : PutPc K)
  | get (key : K) (pc : GetPc T K)
  | eraseKey (key : K) (pc : ErasePc K)
  deriving DecidableEq

def Store.put (max_size : ℤ) (q : Store T K) (key : K) (value : T) :
    PutPc K → Outcome (PutPc K × Store T K)
  | .addKey a => do
    let (next, q) ← q.addKey max_size key a
    return (next.elim .added .addKey, q)
  | .added =>
    match q.semW key with
    | some p => .ok (.waiting p, q)
    | none => .error .undefined
  | .waiting p => do
    let q ← q.wait p
    return (.granted, q)
  | .granted => .ok (.written, q.write key value)
  | .written => do
    let q ← q.notify (q.semR key)
    return (.returned, q)
  | .returned => .error .ended

def Store.get (max_size : ℤ) (q : Store T K) (key : K) :
    GetPc T K → Outcome (GetPc T K × Store T K)
  | .addKey a => do
    let (next, q) ← q.addKey max_size key a
    return (next.elim .added .addKey, q)
  | .added =>
    match q.semR key with
    | some p => .ok (.waiting p, q)
    | none => .error .undefined
  | .waiting p => do
    let q ← q.wait p
    return (.granted, q)
  | .granted =>
    match q.read key with
    | some (value, q) => .ok (.popped value, q)
    | none => .ok (.returned none, q)
  | .popped value => do
    let q ← q.notify (q.semW key)
    return (.returned (some value), q)
  | .returned _ => .error .ended

/-- A missing read semaphore is dereferenced by `unblockAll`; a missing write
semaphore is only deleted, which does nothing. -/
def Store.eraseKey (q : Store T K) (key : K) : ErasePc K → Outcome (ErasePc K × Store T K)
  | .enter =>
    match q.semR key with
    | some r => .ok (.looked r (q.semW key), q)
    | none => .error .undefined
  | .looked r w =>
    if q.deleted r then .error .undefined else .ok (.unblocked r w, q.setCount r 1)
  | .unblocked r w => .ok (.erasedR r w, { q with semR := Function.update q.semR key none })
  | .erasedR r w => .ok (.erasedW r w, { q with semW := Function.update q.semW key none })
  | .erasedW r w =>
    if q.deleted r || w.any q.deleted then .error .undefined
    else .ok (.returned, { q with deleted := fun p => q.deleted p || p = r || some p = w })
  | .returned => .error .ended

def Op.step (max_size : ℤ) (q : Store T K) : Op T K → Outcome (Op T K × Store T K)
  | .put key value pc => (q.put max_size key value pc).map fun r => (.put key value r.1, r.2)
  | .get key pc => (q.get max_size key pc).map fun r => (.get key r.1, r.2)
  | .eraseKey key pc => (q.eraseKey key pc).map fun r => (.eraseKey key r.1, r.2)

structure System (T K I : Type) where
  store : Store T K
  ops : List (I × Op T K)

inductive Call (T K : Type) where
  | put (key : K) (value : T)
  | get (key : K)
  | eraseKey (key : K)

def Call.start : Call T K → Op T K
  | put key value => .put key value (.addKey .enter)
  | get key => .get key (.addKey .enter)
  | eraseKey key => .eraseKey key .enter

inductive Event (T K I : Type) where
  | begin (who : I) (call : Call T K)
  | advance (i : ℕ)

namespace System

def empty : System T K I := ⟨Store.empty, []⟩

def begin (sys : System T K I) (who : I) (call : Call T K) : System T K I :=
  { sys with ops := sys.ops ++ [(who, call.start)] }

def advance (max_size : ℤ) (sys : System T K I) (i : ℕ) : Outcome (System T K I) :=
  match sys.ops[i]? with
  | none => .error .ended
  | some (who, op) =>
    (op.step max_size sys.store).map fun r => ⟨r.2, sys.ops.set i (who, r.1)⟩

def step (max_size : ℤ) (sys : System T K I) : Event T K I → Option (System T K I)
  | .begin who call => some (sys.begin who call)
  | .advance i => (sys.advance max_size i).toOption

end System

section Inversion

variable {max_size : ℤ} {key : K} {value : T}

inductive PutStep (max_size : ℤ) (key : K) (value : T) :
    PutPc K → Store T K → PutPc K → Store T K → Prop where
  | found {q : Store T K} (free : q.keyMtx = false) (h : (q.semR key).isSome) :
      PutStep max_size key value (.addKey .enter) q .added q
  | newR {q : Store T K} (free : q.keyMtx = false) (h : q.semR key = none) :
      PutStep max_size key value (.addKey .enter) q (.addKey .adding)
        { q.newR key with keyMtx := true }
  | newW {q : Store T K} :
      PutStep max_size key value (.addKey .adding) q .added
        { q.newW max_size key with keyMtx := false }
  | look {q : Store T K} {p : SemaphorePtr K} (h : q.semW key = some p) :
      PutStep max_size key value .added q (.waiting p) q
  | take {q : Store T K} {p : SemaphorePtr K} (alive : q.deleted p = false) (h : q.count p ≠ 0) :
      PutStep max_size key value (.waiting p) q .granted (q.setCount p (q.count p - 1))
  | push {q : Store T K} : PutStep max_size key value .granted q .written (q.write key value)
  | signal {q : Store T K} {p : SemaphorePtr K} (h : q.semR key = some p)
      (alive : q.deleted p = false) :
      PutStep max_size key value .written q .returned (q.setCount p (q.count p + 1))

inductive GetStep (max_size : ℤ) (key : K) :
    GetPc T K → Store T K → GetPc T K → Store T K → Prop where
  | found {q : Store T K} (free : q.keyMtx = false) (h : (q.semR key).isSome) :
      GetStep max_size key (.addKey .enter) q .added q
  | newR {q : Store T K} (free : q.keyMtx = false) (h : q.semR key = none) :
      GetStep max_size key (.addKey .enter) q (.addKey .adding) { q.newR key with keyMtx := true }
  | newW {q : Store T K} :
      GetStep max_size key (.addKey .adding) q .added { q.newW max_size key with keyMtx := false }
  | look {q : Store T K} {p : SemaphorePtr K} (h : q.semR key = some p) :
      GetStep max_size key .added q (.waiting p) q
  | take {q : Store T K} {p : SemaphorePtr K} (alive : q.deleted p = false) (h : q.count p ≠ 0) :
      GetStep max_size key (.waiting p) q .granted (q.setCount p (q.count p - 1))
  | pop {q : Store T K} {v : T} {rest : List T} (h : q.collection key = v :: rest) :
      GetStep max_size key .granted q (.popped v) (q.pop key v rest)
  | miss {q : Store T K} (h : q.collection key = []) :
      GetStep max_size key .granted q (.returned none) q
  | signal {q : Store T K} {p : SemaphorePtr K} {v : T} (h : q.semW key = some p)
      (alive : q.deleted p = false) :
      GetStep max_size key (.popped v) q (.returned (some v)) (q.setCount p (q.count p + 1))

inductive EraseStep (key : K) : ErasePc K → Store T K → ErasePc K → Store T K → Prop where
  | look {q : Store T K} {p : SemaphorePtr K} (h : q.semR key = some p) :
      EraseStep key .enter q (.looked p (q.semW key)) q
  | unblock {q : Store T K} {p : SemaphorePtr K} {w : Option (SemaphorePtr K)}
      (alive : q.deleted p = false) :
      EraseStep key (.looked p w) q (.unblocked p w) (q.setCount p 1)
  | eraseR {q : Store T K} {p : SemaphorePtr K} {w : Option (SemaphorePtr K)} :
      EraseStep key (.unblocked p w) q (.erasedR p w)
        { q with semR := Function.update q.semR key none }
  | eraseW {q : Store T K} {p : SemaphorePtr K} {w : Option (SemaphorePtr K)} :
      EraseStep key (.erasedR p w) q (.erasedW p w)
        { q with semW := Function.update q.semW key none }
  | delete {q : Store T K} {p : SemaphorePtr K} {w : Option (SemaphorePtr K)}
      (alive : (q.deleted p || w.any q.deleted) = false) :
      EraseStep key (.erasedW p w) q .returned
        { q with deleted := fun o => q.deleted o || o = p || some o = w }

theorem wait_eq_ok {q r : Store T K} {p : SemaphorePtr K} (h : q.wait p = .ok r) :
    q.deleted p = false ∧ q.count p ≠ 0 ∧ r = q.setCount p (q.count p - 1) := by
  unfold Store.wait at h
  split_ifs at h with hd hc
  cases h
  exact ⟨by simpa using hd, hc, rfl⟩

theorem notify_eq_ok {q r : Store T K} {entry : Option (SemaphorePtr K)}
    (h : q.notify entry = .ok r) :
    ∃ p, entry = some p ∧ q.deleted p = false ∧ r = q.setCount p (q.count p + 1) := by
  cases entry with
  | none => cases h
  | some p =>
    simp only [Store.notify] at h
    split_ifs at h with hd
    cases h
    exact ⟨p, rfl, by simpa using hd, rfl⟩

theorem addKey_enter_eq_ok {q r : Store T K} {next : Option AddPc}
    (h : q.addKey max_size key .enter = .ok (next, r)) :
    q.keyMtx = false ∧ ((q.semR key).isSome ∧ next = none ∧ r = q ∨
      q.semR key = none ∧ next = some .adding ∧ r = { q.newR key with keyMtx := true }) := by
  unfold Store.addKey at h
  split_ifs at h with hm hs
  · cases h
    exact ⟨by simpa using hm, Or.inl ⟨hs, rfl, rfl⟩⟩
  · cases h
    exact ⟨by simpa using hm, Or.inr ⟨by simpa using hs, rfl, rfl⟩⟩

theorem put_step {q r : Store T K} {pc next : PutPc K}
    (h : q.put max_size key value pc = .ok (next, r)) :
    PutStep max_size key value pc q next r := by
  cases pc with
  | addKey a =>
    obtain ⟨⟨a', r'⟩, ha, h⟩ := except_bind_eq_ok h
    cases h
    cases a with
    | enter =>
      obtain ⟨hm, ⟨hs, rfl, rfl⟩ | ⟨hs, rfl, rfl⟩⟩ := addKey_enter_eq_ok ha
      · exact .found hm hs
      · exact .newR hm hs
    | adding =>
      cases ha
      exact .newW
  | added =>
    simp only [Store.put] at h
    split at h
    · next p hp =>
      cases h
      exact .look hp
    · cases h
  | waiting p =>
    obtain ⟨r', hw, h⟩ := except_bind_eq_ok h
    cases h
    obtain ⟨hd, hc, rfl⟩ := wait_eq_ok hw
    exact .take hd hc
  | granted =>
    cases h
    exact .push
  | written =>
    obtain ⟨r', hn, h⟩ := except_bind_eq_ok h
    cases h
    obtain ⟨p, hp, hd, rfl⟩ := notify_eq_ok hn
    exact .signal hp hd
  | returned => cases h

theorem get_step {q r : Store T K} {pc next : GetPc T K}
    (h : q.get max_size key pc = .ok (next, r)) : GetStep max_size key pc q next r := by
  cases pc with
  | addKey a =>
    obtain ⟨⟨a', r'⟩, ha, h⟩ := except_bind_eq_ok h
    cases h
    cases a with
    | enter =>
      obtain ⟨hm, ⟨hs, rfl, rfl⟩ | ⟨hs, rfl, rfl⟩⟩ := addKey_enter_eq_ok ha
      · exact .found hm hs
      · exact .newR hm hs
    | adding =>
      cases ha
      exact .newW
  | added =>
    simp only [Store.get] at h
    split at h
    · next p hp =>
      cases h
      exact .look hp
    · cases h
  | waiting p =>
    obtain ⟨r', hw, h⟩ := except_bind_eq_ok h
    cases h
    obtain ⟨hd, hc, rfl⟩ := wait_eq_ok hw
    exact .take hd hc
  | granted =>
    simp only [Store.get, Store.read] at h
    cases hq : q.collection key with
    | nil =>
      simp only [hq] at h
      cases h
      exact .miss hq
    | cons v rest =>
      simp only [hq] at h
      cases h
      exact .pop hq
  | popped v =>
    obtain ⟨r', hn, h⟩ := except_bind_eq_ok h
    cases h
    obtain ⟨p, hp, hd, rfl⟩ := notify_eq_ok hn
    exact .signal hp hd
  | returned _ => cases h

theorem eraseKey_step {q r : Store T K} {pc next : ErasePc K}
    (h : q.eraseKey key pc = .ok (next, r)) : EraseStep key pc q next r := by
  cases pc with
  | enter =>
    simp only [Store.eraseKey] at h
    split at h
    · next p hp =>
      cases h
      exact .look hp
    · cases h
  | looked p w =>
    simp only [Store.eraseKey] at h
    split_ifs at h with hd
    cases h
    exact .unblock (by simpa using hd)
  | unblocked p w =>
    cases h
    exact .eraseR
  | erasedR p w =>
    cases h
    exact .eraseW
  | erasedW p w =>
    simp only [Store.eraseKey] at h
    split_ifs at h with hd
    cases h
    exact .delete (by simpa using hd)
  | returned => cases h

inductive OpStep (max_size : ℤ) : Op T K → Store T K → Op T K → Store T K → Prop where
  | put {key : K} {value : T} {pc next : PutPc K} {q r : Store T K}
      (h : PutStep max_size key value pc q next r) :
      OpStep max_size (.put key value pc) q (.put key value next) r
  | get {key : K} {pc next : GetPc T K} {q r : Store T K} (h : GetStep max_size key pc q next r) :
      OpStep max_size (.get key pc) q (.get key next) r
  | eraseKey {key : K} {pc next : ErasePc K} {q r : Store T K} (h : EraseStep key pc q next r) :
      OpStep max_size (.eraseKey key pc) q (.eraseKey key next) r

theorem Op.step_inv {op next : Op T K} {q r : Store T K}
    (h : op.step max_size q = .ok (next, r)) : OpStep max_size op q next r := by
  cases op with
  | put key value pc =>
    obtain ⟨⟨pc', r'⟩, hs, h⟩ := except_map_eq_ok h
    cases h
    exact .put (put_step hs)
  | get key pc =>
    obtain ⟨⟨pc', r'⟩, hs, h⟩ := except_map_eq_ok h
    cases h
    exact .get (get_step hs)
  | eraseKey key pc =>
    obtain ⟨⟨pc', r'⟩, hs, h⟩ := except_map_eq_ok h
    cases h
    exact .eraseKey (eraseKey_step hs)

theorem System.advance_eq_ok {sys next : System T K I} {i : ℕ}
    (h : sys.advance max_size i = .ok next) : ∃ who op op', sys.ops[i]? = some (who, op) ∧
      OpStep max_size op sys.store op' next.store ∧ next.ops = sys.ops.set i (who, op') := by
  unfold System.advance at h
  split at h
  · cases h
  · next who op hop =>
    obtain ⟨⟨op', r⟩, hs, h⟩ := except_map_eq_ok h
    cases h
    exact ⟨who, op, op', hop, Op.step_inv hs, rfl⟩

end Inversion

section Pointers

variable {max_size : ℤ}

def Op.key : Op T K → K
  | put key _ _ => key
  | get key _ => key
  | eraseKey key _ => key

def Op.side : Op T K → Side
  | put _ _ _ => .write
  | get _ _ => .read
  | eraseKey _ _ => .read

def Op.erases : Op T K → Bool
  | eraseKey _ _ => true
  | _ => false

/-- The pointer a call holds on to for its next semaphore operation. -/
def Op.holds : Op T K → Option (SemaphorePtr K)
  | put _ _ (.waiting p) => some p
  | get _ (.waiting p) => some p
  | eraseKey _ (.looked p _) => some p
  | _ => none

def Store.sem (q : Store T K) : Side → K → Option (SemaphorePtr K)
  | .read => q.semR
  | .write => q.semW

def Store.Named (q : Store T K) : Prop :=
  ∀ side k p, q.sem side k = some p → p.side = side ∧ p.key = k

def Op.Named (op : Op T K) : Prop := ∀ p, op.holds = some p → p.side = op.side ∧ p.key = op.key

theorem OpStep.kind {op next : Op T K} {q r : Store T K} (h : OpStep max_size op q next r) :
    next.key = op.key ∧ next.side = op.side ∧ next.erases = op.erases := by
  cases h <;> exact ⟨rfl, rfl, rfl⟩

theorem Store.Named.newR {q : Store T K} (h : q.Named) (key : K) : (q.newR key).Named := by
  intro side k p hp
  cases side with
  | read =>
    by_cases hk : k = key
    · subst k
      rw [Store.newR] at hp
      simp only [Store.sem, Function.update_self, Option.some.injEq] at hp
      subst p
      exact ⟨rfl, rfl⟩
    · refine h .read k p ?_
      simpa [Store.newR, Store.sem, hk] using hp
  | write => exact h .write k p hp

theorem Store.Named.newW {q : Store T K} (h : q.Named) (max_size : ℤ) (key : K) :
    (q.newW max_size key).Named := by
  intro side k p hp
  cases side with
  | read => exact h .read k p hp
  | write =>
    by_cases hk : k = key
    · subst k
      rw [Store.newW] at hp
      simp only [Store.sem, Function.update_self, Option.some.injEq] at hp
      subst p
      exact ⟨rfl, rfl⟩
    · refine h .write k p ?_
      simpa [Store.newW, Store.sem, hk] using hp

theorem Store.Named.eraseR {q : Store T K} (h : q.Named) (key : K) :
    Store.Named { q with semR := Function.update q.semR key none } := by
  intro side k p hp
  cases side with
  | read =>
    by_cases hk : k = key
    · subst k
      simp [Store.sem] at hp
    · refine h .read k p ?_
      simpa [Store.sem, hk] using hp
  | write => exact h .write k p hp

theorem Store.Named.eraseW {q : Store T K} (h : q.Named) (key : K) :
    Store.Named { q with semW := Function.update q.semW key none } := by
  intro side k p hp
  cases side with
  | read => exact h .read k p hp
  | write =>
    by_cases hk : k = key
    · subst k
      simp [Store.sem] at hp
    · refine h .write k p ?_
      simpa [Store.sem, hk] using hp

theorem OpStep.store_named {op next : Op T K} {q r : Store T K}
    (h : OpStep max_size op q next r) (hq : q.Named) : r.Named := by
  cases h with
  | put h =>
    cases h with
    | newR => exact hq.newR _
    | newW => exact hq.newW max_size _
    | _ => exact hq
  | get h =>
    cases h with
    | newR => exact hq.newR _
    | newW => exact hq.newW max_size _
    | _ => exact hq
  | eraseKey h =>
    cases h with
    | eraseR => exact hq.eraseR _
    | eraseW => exact hq.eraseW _
    | _ => exact hq

theorem OpStep.op_named {op next : Op T K} {q r : Store T K}
    (h : OpStep max_size op q next r) (hq : q.Named) : next.Named := by
  cases h with
  | put h =>
    cases h with
    | look hp =>
      rintro _ ⟨⟩
      exact hq .write _ _ hp
    | _ => rintro _ ⟨⟩
  | get h =>
    cases h with
    | look hp =>
      rintro _ ⟨⟩
      exact hq .read _ _ hp
    | _ => rintro _ ⟨⟩
  | eraseKey h =>
    cases h with
    | look hp =>
      rintro _ ⟨⟩
      exact hq .read _ _ hp
    | _ => rintro _ ⟨⟩

structure System.Named (sys : System T K I) : Prop where
  store : sys.store.Named
  ops : ∀ x ∈ sys.ops, x.2.Named

omit [DecidableEq K] in
theorem Call.start_holds (call : Call T K) : call.start.holds = none := by
  cases call <;> rfl

theorem System.Named.step {sys next : System T K I} {e : Event T K I} (hn : sys.Named)
    (h : sys.step max_size e = some next) : next.Named := by
  cases e with
  | begin who call =>
    cases h
    refine ⟨hn.store, ?_⟩
    intro x hx
    rcases List.mem_append.1 hx with hx | hx
    · exact hn.ops x hx
    · obtain rfl := List.mem_singleton.1 hx
      rintro p hp
      rw [call.start_holds] at hp
      cases hp
  | advance i =>
    obtain ⟨who, op, op', hop, hs, hops⟩ := System.advance_eq_ok (except_toOption_eq_some h)
    refine ⟨hs.store_named hn.store, ?_⟩
    intro x hx
    rw [hops] at hx
    rcases List.mem_or_eq_of_mem_set hx with hx | rfl
    · exact hn.ops x hx
    · exact hs.op_named hn.store

end Pointers

end PolkadotApi.ConcurrentMapQueue
