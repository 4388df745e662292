import PolkadotApi.JsonRpcThreads
import PolkadotApi.Subscriptions

set_option autoImplicit false

/-!
`send` locks `_sendMtx`, hands the message to the library and unlocks. The library throws
when the connection is going down, and then nothing unlocks: the exception leaves `send`
and the mutex stays behind. Requests and the health thread share it.
-/
namespace PolkadotApi.SendMutex
open StepRuns MachineModel JsonValues JsonRpcThreads

section Model

def PAPI_NOT_CONNECTED : ℤ := 3

def HEALTH_WAKEUP_MKS : ℕ := 100000

def health_check_delay_time : ℕ := 15000000

/-- Who called `send`: a thread inside `request`, or the `k`th health thread. -/
inductive Sender where
  | request
  | health (k : ℕ)
  deriving DecidableEq

inductive SendPc where
  | enter
  | locking
  | sending
  | unlocking
  | returned (code : ℤ)
  | threw
  deriving DecidableEq

structure Send where
  sender : Sender
  msg : Json
  pc : SendPc
  deriving DecidableEq

/-- In the loop of `health`: asleep, in front of the two tests, or inside `send`. -/
inductive HealthPc where
  | sleeping (period_counter : ℕ)
  | testing (period_counter : ℕ)
  | testingThread (period_counter : ℕ)
  | calling (i : ℕ)
  | ended
  deriving DecidableEq

/-- `sent` records what was given to the library, and to which of the two clients. An
exception that leaves a health thread ends the process. -/
structure State where
  tls : Bool
  connected : Bool
  connectedThread : Bool
  sendMtx : Bool
  sends : List Send
  healths : List HealthPc
  sent : List (Bool × Json)
  terminated : Bool

def State.init : State := ⟨false, false, false, false, [], [], [], false⟩

/-- `connect` starts the socket thread, `opened` is `on_open`, and `waited` is the end of
the wait in `connect`. The library throws in `fail`. -/
inductive Event where
  | connect (tls : Bool)
  | opened
  | waited
  | disconnect
  | request (msg : Json)
  | send (i : ℕ)
  | fail (i : ℕ)
  | health (k : ℕ)
  deriving DecidableEq

def healthMessage : Json :=
  .object [(lit "id", .number INT_MAX), (lit "jsonrpc", .string (lit "2.0")),
    (lit "method", .string (lit "system_health")), (lit "params", .array [])]

namespace State

def setPc (st : State) (i : ℕ) (c : Send) (pc : SendPc) : State :=
  { st with sends := st.sends.set i { c with pc } }

def setMtx (st : State) (held : Bool) : State := { st with sendMtx := held }

def addSent (st : State) (msg : Json) : State := { st with sent := st.sent ++ [(st.tls, msg)] }

def addSend (st : State) (sender : Sender) (msg : Json) : State :=
  { st with sends := st.sends ++ [⟨sender, msg, .enter⟩] }

def setHealth (st : State) (k : ℕ) (pc : HealthPc) : State :=
  { st with healths := st.healths.set k pc }

end State

def sendStep (st : State) (i : ℕ) (c : Send) : Option State :=
  match c.pc with
  | .enter =>
    if st.connected then some (st.setPc i c .locking)
    else some (st.setPc i c (.returned PAPI_NOT_CONNECTED))
  -- `lock` waits as long as the mutex is locked
  | .locking => if st.sendMtx then none else some ((st.setMtx true).setPc i c .sending)
  | .sending => some ((st.addSent c.msg).setPc i c .unlocking)
  | .unlocking => some ((st.setMtx false).setPc i c (.returned Subscriptions.PAPI_OK))
  | .returned _ => none
  | .threw => none

def failStep (st : State) (i : ℕ) (c : Send) : Option State :=
  match c.pc with
  -- nothing unlocks; out of `health` the exception ends the process
  | .sending => some ({ st with terminated := decide (c.sender ≠ Sender.request) }.setPc i c .threw)
  | _ => none

def healthStep (st : State) (k : ℕ) (pc : HealthPc) : Option State :=
  match pc with
  | .sleeping period_counter => some (st.setHealth k (.testing (period_counter + HEALTH_WAKEUP_MKS)))
  | .testing period_counter =>
    if st.connected then some (st.setHealth k (.testingThread period_counter))
    else some (st.setHealth k .ended)
  | .testingThread period_counter =>
    if st.connectedThread then
      if health_check_delay_time ≤ period_counter then
        some ((st.addSend (.health k) healthMessage).setHealth k (.calling st.sends.length))
      else some (st.setHealth k (.sleeping period_counter))
    else some (st.setHealth k .ended)
  | .calling i =>
    match st.sends[i]? with
    | some ⟨_, _, .returned _⟩ => some (st.setHealth k (.sleeping 0))
    | _ => none
  | .ended => none

def liveStep (st : State) : Event → Option State
  | .connect tls => some { st with tls, connectedThread := true }
  | .opened => some { st with connected := true }
  | .waited =>
    if st.connected then some { st with healths := st.healths ++ [.sleeping 0] }
    else some { st with connectedThread := false }
  | .disconnect => some { st with connected := false }
  | .request msg => some (st.addSend .request msg)
  | .send i => st.sends[i]?.bind (sendStep st i)
  | .fail i => st.sends[i]?.bind (failStep st i)
  | .health k => st.healths[k]?.bind (healthStep st k)

def step (st : State) (e : Event) : Option State := if st.terminated then none else liveStep st e

end Model

variable {st next : State} {e : Event} {past es fs : List Event}

section Inversion

inductive Move (st next : State) : Event → Prop where
  | other {e : Event} (quiet : ∀ i, e ≠ .fail i) (sends : next.sends = st.sends)
      (mtx : next.sendMtx = st.sendMtx) (sent : next.sent = st.sent) : Move st next e
  | begin {e : Event} (quiet : ∀ i, e ≠ .fail i) (sender : Sender) (msg : Json)
      (sends : next.sends = st.sends ++ [⟨sender, msg, .enter⟩])
      (mtx : next.sendMtx = st.sendMtx) (sent : next.sent = st.sent) : Move st next e
  | test {i : ℕ} {c : Send} {pc : SendPc} (here : st.sends[i]? = some c) (enter : c.pc = .enter)
      (outcome : pc = .locking ∨ ∃ code, pc = .returned code)
      (sends : next.sends = st.sends.set i { c with pc })
      (mtx : next.sendMtx = st.sendMtx) (sent : next.sent = st.sent) : Move st next (.send i)
  | lock {i : ℕ} {c : Send} (here : st.sends[i]? = some c) (pc : c.pc = .locking)
      (free : st.sendMtx = false) (sends : next.sends = st.sends.set i { c with pc := .sending })
      (mtx : next.sendMtx = true) (sent : next.sent = st.sent) : Move st next (.send i)
  | write {i : ℕ} {c : Send} (here : st.sends[i]? = some c) (pc : c.pc = .sending)
      (sends : next.sends = st.sends.set i { c with pc := .unlocking })
      (mtx : next.sendMtx = st.sendMtx) (sent : next.sent = st.sent ++ [(st.tls, c.msg)]) :
      Move st next (.send i)
  | unlock {i : ℕ} {c : Send} (here : st.sends[i]? = some c) (pc : c.pc = .unlocking)
      (sends : next.sends = st.sends.set i { c with pc := .returned Subscriptions.PAPI_OK })
      (mtx : next.sendMtx = false) (sent : next.sent = st.sent) : Move st next (.send i)
  | fail {i : ℕ} {c : Send} (here : st.sends[i]? = some c) (pc : c.pc = .sending)
      (sends : next.sends = st.sends.set i { c with pc := .threw })
      (mtx : next.sendMtx = st.sendMtx) (sent : next.sent = st.sent) : Move st next (.fail i)

theorem sendStep_move {i : ℕ} {c : Send} (here : st.sends[i]? = some c)
    (h : sendStep st i c = some next) : Move st next (.send i) := by
  unfold sendStep at h
  split at h
  case h_1 pc =>
    split_ifs at h
    · cases h
      exact .test here pc (Or.inl rfl) rfl rfl rfl
    · cases h
      exact .test here pc (Or.inr ⟨_, rfl⟩) rfl rfl rfl
  case h_2 pc =>
    split_ifs at h with hm
    cases h
    exact .lock here pc (by simpa using hm) rfl rfl rfl
  case h_3 pc =>
    cases h
    exact .write here pc rfl rfl rfl
  case h_4 pc =>
    cases h
    exact .unlock here pc rfl rfl rfl
  case h_5 => cases h
  case h_6 => cases h

theorem failStep_move {i : ℕ} {c : Send} (here : st.sends[i]? = some c)
    (h : failStep st i c = some next) : Move st next (.fail i) := by
  unfold failStep at h
  split at h
  · next pc =>
    cases h
    exact .fail here pc rfl rfl rfl
  · cases h

theorem healthStep_move {k : ℕ} {pc : HealthPc} (h : healthStep st k pc = some next) :
    Move st next (.health k) := by
  have quiet : ∀ i, Event.health k ≠ .fail i := by rintro i ⟨⟩
  unfold healthStep at h
  split at h
  · cases h
    exact .other quiet rfl rfl rfl
  · split_ifs at h <;> cases h <;> exact .other quiet rfl rfl rfl
  · split_ifs at h
    · cases h
      exact .begin quiet (.health k) healthMessage rfl rfl rfl
    · cases h
      exact .other quiet rfl rfl rfl
    · cases h
      exact .other quiet rfl rfl rfl
  · split at h
    · cases h
      exact .other quiet rfl rfl rfl
    · cases h
  · cases h

theorem step_move (h : step st e = some next) : Move st next e := by
  unfold step at h
  split_ifs at h
  cases e with
  | connect tls =>
    cases h
    exact .other (by rintro _ ⟨⟩) rfl rfl rfl
  | opened =>
    cases h
    exact .other (by rintro _ ⟨⟩) rfl rfl rfl
  | waited =>
    unfold liveStep at h
    split_ifs at h <;> cases h <;> exact .other (by rintro _ ⟨⟩) rfl rfl rfl
  | disconnect =>
    cases h
    exact .other (by rintro _ ⟨⟩) rfl rfl rfl
  | request msg =>
    cases h
    exact .begin (by rintro _ ⟨⟩) .request msg rfl rfl rfl
  | send i =>
    obtain ⟨c, here, h⟩ := Option.bind_eq_some_iff.1 h
    exact sendStep_move here h
  | fail i =>
    obtain ⟨c, here, h⟩ := Option.bind_eq_some_iff.1 h
    exact failStep_move here h
  | health k =>
    obtain ⟨pc, _, h⟩ := Option.bind_eq_some_iff.1 h
    exact healthStep_move h

end Inversion

section Owners

def holds : SendPc → Bool
  | .sending => true
  | .unlocking => true
  | _ => false

def threw : SendPc → Bool
  | .threw => true
  | _ => false

def throws : Event → Bool
  | .fail _ => true
  | _ => false

def count (p : SendPc → Bool) (sends : List Send) : ℕ := sends.countP fun c => p c.pc

theorem count_set (p : SendPc → Bool) {sends : List Send} {i : ℕ} {c : Send}
    (here : sends[i]? = some c) (pc : SendPc) :
    count p (sends.set i { c with pc }) + (p c.pc).toNat = count p sends + (p pc).toNat := by
  induction sends generalizing i with
  | nil => cases here
  | cons d sends ih =>
    cases i with
    | zero =>
      cases here
      simp only [count, List.set_cons_zero, List.countP_cons]
      cases p c.pc <;> cases p pc <;> simp
    | succ i =>
      have hrest := ih here
      simp only [count, List.set_cons_succ, List.countP_cons] at hrest ⊢
      omega

/-- Whoever has locked the mutex and has not unlocked it runs, or has thrown. -/
structure Counted (past : List Event) (st : State) : Prop where
  mtx : count holds st.sends + count threw st.sends = st.sendMtx.toNat
  thrown : count threw st.sends = past.countP throws

theorem countP_concat (past : List Event) (e : Event) :
    (past ++ [e]).countP throws = past.countP throws + (throws e).toNat := by
  rw [List.countP_append, List.countP_singleton]
  cases throws e <;> rfl

theorem throws_eq_false (he : ∀ i, e ≠ .fail i) : throws e = false := by
  cases e with
  | fail i => exact absurd rfl (he i)
  | _ => rfl

theorem Counted.keep (h : Counted past st) (he : ∀ i, e ≠ .fail i)
    (hcount : ∀ p, p .enter = false → count p next.sends = count p st.sends)
    (hmtx : next.sendMtx = st.sendMtx) : Counted (past ++ [e]) next := by
  constructor
  · rw [hcount holds rfl, hcount threw rfl, hmtx]
    exact h.mtx
  · rw [hcount threw rfl, countP_concat, throws_eq_false he]
    exact h.thrown

theorem Counted.set (h : Counted past st) {i : ℕ} {c : Send} {pc : SendPc}
    (here : st.sends[i]? = some c) (hsends : next.sends = st.sends.set i { c with pc })
    (hmtx : next.sendMtx.toNat + ((holds c.pc).toNat + (threw c.pc).toNat) =
      st.sendMtx.toNat + ((holds pc).toNat + (threw pc).toNat))
    (hthrows : (throws e).toNat + (threw c.pc).toNat = (threw pc).toNat) :
    Counted (past ++ [e]) next := by
  have hholds := count_set holds here pc
  have hthrew := count_set threw here pc
  have hbefore := h.mtx
  have hthrown := h.thrown
  rw [← hsends] at hholds hthrew
  constructor
  · omega
  · rw [countP_concat]
    omega

theorem Counted.locked (h : Counted past st) {i : ℕ} {c : Send} (here : st.sends[i]? = some c)
    (hc : holds c.pc = true) : st.sendMtx = true := by
  have hpos : 0 < count holds st.sends :=
    List.countP_pos_iff.2 ⟨c, List.mem_of_getElem? here, hc⟩
  have hmtx := h.mtx
  cases hst : st.sendMtx with
  | false =>
    rw [hst, Bool.toNat_false] at hmtx
    omega
  | true => rfl

theorem Counted.move (h : Counted past st) (hm : Move st next e) : Counted (past ++ [e]) next := by
  cases hm with
  | other he sends mtx => exact h.keep he (fun p _ => by rw [sends]) mtx
  | begin he sender msg sends mtx =>
    refine h.keep he ?_ mtx
    intro p hp
    rw [sends, count, List.countP_append, List.countP_singleton, hp]
    rfl
  | test here enter outcome sends mtx =>
    refine h.set here sends ?_ ?_
    · rw [mtx, enter]
      rcases outcome with rfl | ⟨code, rfl⟩ <;> rfl
    · rw [enter]
      rcases outcome with rfl | ⟨code, rfl⟩ <;> rfl
  | lock here pc free sends mtx =>
    exact h.set here sends (by rw [mtx, free, pc]; rfl) (by rw [pc]; rfl)
  | write here pc sends mtx =>
    exact h.set here sends (by rw [mtx, pc]; rfl) (by rw [pc]; rfl)
  | unlock here pc sends mtx =>
    have hlocked := h.locked here (by rw [pc]; rfl)
    exact h.set here sends (by rw [mtx, hlocked, pc]; rfl) (by rw [pc]; rfl)
  | fail here pc sends mtx =>
    exact h.set here sends (by rw [mtx, pc]; rfl) (by rw [pc]; rfl)

theorem counted_of_run (h : run step State.init es = some st) : Counted es st := by
  have hinit : Counted [] State.init := ⟨rfl, rfl⟩
  refine run_past ?_ hinit h
  intro past s e t hs hst
  exact hs.move (step_move hst)

end Owners

section Release

/-- The mutex is free, or a running `send` holds it. -/
def Released (st : State) : Prop := st.sendMtx = true → ∃ c ∈ st.sends, holds c.pc = true

theorem Counted.released (h : Counted past st) : Released st ↔ past.countP throws = 0 := by
  have hmtx := h.mtx
  rw [← h.thrown]
  unfold Released
  rw [← List.countP_pos_iff]
  change (st.sendMtx = true → 0 < count holds st.sends) ↔ _
  cases hst : st.sendMtx with
  | false =>
    rw [hst, Bool.toNat_false] at hmtx
    simp only [Bool.false_eq_true, false_implies, true_iff]
    omega
  | true =>
    rw [hst, Bool.toNat_true] at hmtx
    simp only [true_implies]
    omega

theorem countP_throws_eq_zero : es.countP throws = 0 ↔ ∀ i, .fail i ∉ es := by
  rw [List.countP_eq_zero]
  constructor
  · intro h i hi
    exact h _ hi rfl
  · intro h e he hthrows
    cases e with
    | fail i => exact h i he
    | _ => cases hthrows

/-- After any interleaving, the mutex is free or held by a running `send` exactly if the
library has not thrown in any of them. -/
theorem send_released_iff (h : run step State.init es = some st) :
    Released st ↔ ∀ i, .fail i ∉ es := by
  rw [(counted_of_run h).released]
  exact countP_throws_eq_zero

/-- Two requests at the same time, the second one waits for the first; the health thread
wakes up between them. -/
def takingTurns : List Event :=
  [.connect true, .opened, .waited, .request .null, .request (.number 1), .send 0, .send 1, .send 0,
    .health 0, .send 0, .health 0, .send 0, .health 0, .send 1]

theorem send_released_iff_takingTurns :
    (finalState step State.init takingTurns).sendMtx = true ∧
      Released (finalState step State.init takingTurns) := by
  refine ⟨by decide +kernel, ?_⟩
  have hrun := run_finalState step State.init takingTurns (by decide +kernel)
  refine (send_released_iff hrun).2 ?_
  intro i hi
  simp [takingTurns] at hi

/-- The connection goes down while a request sends; another one comes after it. -/
def closingDown : List Event :=
  [.connect true, .opened, .request .null, .send 0, .send 0, .fail 0, .request .null, .send 1]

theorem send_released_fails :
    ¬ ∀ (es : List Event) (st : State), run step State.init es = some st → Released st := by
  intro hall
  have hrun := run_finalState step State.init closingDown (by decide +kernel)
  have hlocked : (finalState step State.init closingDown).sendMtx = true := by decide +kernel
  have hsends : (finalState step State.init closingDown).sends =
      [⟨.request, .null, .threw⟩, ⟨.request, .null, .locking⟩] := by
    decide +kernel
  obtain ⟨c, hc, hholds⟩ := hall closingDown _ hrun hlocked
  rw [hsends] at hc
  rcases List.mem_pair.1 hc with rfl | rfl
  · cases hholds
  · cases hholds

theorem Counted.sent_of_move (h : Counted past st) (hthrown : 0 < past.countP throws)
    (hm : Move st next e) : next.sent = st.sent := by
  cases hm with
  | @write i c here pc =>
    have hpos : 0 < count holds st.sends :=
      List.countP_pos_iff.2 ⟨c, List.mem_of_getElem? here, by rw [pc]; rfl⟩
    have hle := Bool.toNat_le st.sendMtx
    have hmtx := h.mtx
    rw [h.thrown] at hmtx
    omega
  | other _ _ _ sent => exact sent
  | begin _ _ _ _ _ sent => exact sent
  | test _ _ _ _ _ sent => exact sent
  | lock _ _ _ _ _ sent => exact sent
  | unlock _ _ _ _ sent => exact sent
  | fail _ _ _ _ sent => exact sent

/-- Once the library has thrown, nothing is sent any more: neither by a request nor by
the health thread. -/
theorem nothing_sent_after_throw (h : run step State.init es = some st) {i : ℕ} (hi : .fail i ∈ es)
    {last : State} (hlater : run step st fs = some last) : last.sent = st.sent := by
  have hthrown : 0 < es.countP throws := List.countP_pos_iff.2 ⟨_, hi, rfl⟩
  have hinit : Counted es st ∧ 0 < es.countP throws ∧ st.sent = st.sent :=
    ⟨counted_of_run h, hthrown, rfl⟩
  refine (run_past (I := fun past s => Counted past s ∧ 0 < past.countP throws ∧
    s.sent = st.sent) ?_ hinit hlater).2.2
  rintro past s e t ⟨hcounted, hpos, hsent⟩ hst
  have hm := step_move hst
  refine ⟨hcounted.move hm, ?_, (hcounted.sent_of_move hpos hm).trans hsent⟩
  rw [countP_concat]
  omega

end Release

section Health

def InPeriod : HealthPc → Prop
  | .sleeping period_counter => period_counter < health_check_delay_time
  | .testing period_counter => period_counter < health_check_delay_time + HEALTH_WAKEUP_MKS
  | .testingThread period_counter => period_counter < health_check_delay_time + HEALTH_WAKEUP_MKS
  | _ => True

theorem inPeriod_start : InPeriod (.sleeping 0) := by
  change 0 < health_check_delay_time
  decide

theorem inPeriod_set {k : ℕ} {pc : HealthPc} (h : ∀ pc ∈ st.healths, InPeriod pc)
    (hpc : InPeriod pc) : ∀ pc' ∈ st.healths.set k pc, InPeriod pc' := by
  intro pc' hmem
  rcases List.mem_or_eq_of_mem_set hmem with hmem | rfl
  · exact h pc' hmem
  · exact hpc

theorem inPeriod_of_health {k : ℕ} {pc : HealthPc} (h : ∀ pc ∈ st.healths, InPeriod pc)
    (hpc : InPeriod pc) (hst : healthStep st k pc = some next) :
    ∀ pc ∈ next.healths, InPeriod pc := by
  unfold healthStep at hst
  split at hst
  · cases hst
    exact inPeriod_set h (Nat.add_lt_add_right hpc HEALTH_WAKEUP_MKS)
  · split_ifs at hst
    · cases hst
      exact inPeriod_set h hpc
    · cases hst
      exact inPeriod_set h trivial
  · split_ifs at hst with hthread hperiod
    · cases hst
      exact inPeriod_set h trivial
    · cases hst
      exact inPeriod_set h (Nat.lt_of_not_le hperiod)
    · cases hst
      exact inPeriod_set h trivial
  · split at hst
    · cases hst
      exact inPeriod_set h inPeriod_start
    · cases hst
  · cases hst

theorem healths_of_send {i : ℕ} {c : Send} (h : sendStep st i c = some next) :
    next.healths = st.healths := by
  unfold sendStep at h
  split at h
  · split_ifs at h <;> cases h <;> rfl
  · split_ifs at h
    cases h
    rfl
  · cases h
    rfl
  · cases h
    rfl
  · cases h
  · cases h

theorem inPeriod_of_step (h : ∀ pc ∈ st.healths, InPeriod pc) (hst : step st e = some next) :
    ∀ pc ∈ next.healths, InPeriod pc := by
  unfold step at hst
  split_ifs at hst
  cases e with
  | waited =>
    unfold liveStep at hst
    split_ifs at hst
    · cases hst
      intro pc hmem
      rcases List.mem_append.1 hmem with hmem | hmem
      · exact h pc hmem
      · rw [List.mem_singleton.1 hmem]
        exact inPeriod_start
    · cases hst
      exact h
  | send i =>
    obtain ⟨c, _, hst⟩ := Option.bind_eq_some_iff.1 hst
    rw [healths_of_send hst]
    exact h
  | fail i =>
    obtain ⟨c, _, hst⟩ := Option.bind_eq_some_iff.1 hst
    unfold failStep at hst
    split at hst
    · cases hst
      exact h
    · cases hst
  | health k =>
    obtain ⟨pc, hpc, hst⟩ := Option.bind_eq_some_iff.1 hst
    exact inPeriod_of_health h (h pc (List.mem_of_getElem? hpc)) hst
  | _ =>
    cases hst
    exact h

/-- So `period_counter` is far from the end of its type. -/
theorem inPeriod_of_reachable (h : Reachable step State.init st) :
    ∀ pc ∈ st.healths, InPeriod pc :=
  h.invariant (fun _ _ _ hs hst => inPeriod_of_step hs hst) (by rintro pc ⟨⟩)

end Health

end PolkadotApi.SendMutex
