import PolkadotApi.SubscriptionDeliveryProgress

set_option autoImplicit false

namespace PolkadotApi.SubscriptionDelivery
open StepRuns StreamReader BoundedBuffer MachineModel JsonValues ConcurrentMapQueue QueueLaws
open JsonRpcThreads

variable {jsonrpcVersion : Str} {st next : State}

def socketOp : SocketPc → Option ℕ
  | .putting op => some op
  | _ => none

def consumerOp : ConsumerPc → Option ℕ
  | .getting op => some op
  | _ => none

def callOp : CallPc → Option ℕ
  | .closing _ op => some op
  | _ => none

/-- The call on the queue that a thread is in. -/
def current (st : State) : Thread → Option ℕ
  | .socket => socketOp st.socket
  | .consumer j => st.consumers[j]?.bind fun c => consumerOp c.pc
  | .caller i => st.calls[i]?.bind fun c => callOp c.pc

def isOver : Op Json ℤ → Bool
  | .put _ _ .returned => true
  | .get _ (.returned _) => true
  | .eraseKey _ .returned => true
  | _ => false

/-- The socket thread puts, a consumer gets from its subscription, and a caller
erases the subscription it was asked to end. -/
def Fits (st : State) : Thread → Op Json ℤ → Prop
  | .socket, .put _ _ _ => True
  | .consumer j, .get k _ => ∃ c, st.consumers[j]? = some c ∧ c.subscriptionId = k
  | .caller i, .eraseKey k _ => ∃ c method, st.calls[i]? = some c ∧
      c.task = .unsubscribeWs k method ∧ hasForgotten c.pc = true
  | _, _ => False

structure Owned (st : State) : Prop where
  held : ∀ t op, current st t = some op → ∃ o, st.responseQueue.ops[op]? = some (t, o)
  fits : ∀ (op : ℕ) t o, st.responseQueue.ops[op]? = some (t, o) → Fits st t o
  busy : ∀ (op : ℕ) t o, st.responseQueue.ops[op]? = some (t, o) → isOver o = false →
    current st t = some op

theorem Fits.mono (h : Extends st next) {t : Thread} {o : Op Json ℤ} (hf : Fits st t o) :
    Fits next t o := by
  cases t with
  | socket => cases o <;> first | exact trivial | cases hf
  | consumer j =>
    cases o with
    | get k pc =>
      obtain ⟨c, hc, hk⟩ := hf
      obtain ⟨d, hd, hsub, -⟩ := h.consumers j c hc
      exact ⟨d, hd, hsub.trans hk⟩
    | _ => cases hf
  | caller i =>
    cases o with
    | eraseKey k pc =>
      obtain ⟨c, method, hc, htask, hpc⟩ := hf
      obtain ⟨d, hd, hl⟩ := h.calls i c hc
      exact ⟨d, method, hd, hl.task.trans htask, hl.forgotten hpc⟩
    | _ => cases hf

theorem Fits.of_step {t : Thread} {o o' : Op Json ℤ} {q r : Store Json ℤ}
    (h : OpStep RESPONSE_QUEUE_MAX_SIZE o q o' r) (hf : Fits st t o) : Fits st t o' := by
  cases h <;> cases t <;> exact hf

theorem Owned.keep (h : Owned st) (hx : Extends st next)
    (hops : next.responseQueue = st.responseQueue) (hcur : current next = current st) :
    Owned next := by
  constructor
  · rw [hops, hcur]
    exact h.held
  · intro op t o ho
    rw [hops] at ho
    exact (h.fits op t o ho).mono hx
  · rw [hops, hcur]
    exact h.busy

theorem Owned.rest (h : Owned st) (hx : Extends st next)
    (hops : next.responseQueue = st.responseQueue) (t : Thread)
    (hover : ∀ (op : ℕ) o, st.responseQueue.ops[op]? = some (t, o) → isOver o = true)
    (hcur : current next = Function.update (current st) t none) : Owned next := by
  constructor
  · intro u op hu
    rw [hcur] at hu
    by_cases hut : u = t
    · subst u
      rw [Function.update_self] at hu
      cases hu
    · rw [Function.update_of_ne hut] at hu
      rw [hops]
      exact h.held u op hu
  · intro op u o ho
    rw [hops] at ho
    exact (h.fits op u o ho).mono hx
  · intro op u o ho hbusy
    rw [hops] at ho
    by_cases hut : u = t
    · subst u
      rw [hover op o ho] at hbusy
      cases hbusy
    · rw [hcur, Function.update_of_ne hut]
      exact h.busy op u o ho hbusy

theorem Owned.begin (h : Owned st) (hx : Extends st next) (t : Thread)
    (call : ConcurrentMapQueue.Call Json ℤ)
    (hops : next.responseQueue = st.responseQueue.begin t call)
    (hover : ∀ (op : ℕ) o, st.responseQueue.ops[op]? = some (t, o) → isOver o = true)
    (hcur : current next = Function.update (current st) t (some st.nextOp))
    (hfits : Fits next t call.start) : Owned next := by
  have hlist : next.responseQueue.ops = st.responseQueue.ops ++ [(t, call.start)] := by
    rw [hops]
    rfl
  constructor
  · intro u op hu
    rw [hcur] at hu
    rw [hlist]
    by_cases hut : u = t
    · subst u
      rw [Function.update_self] at hu
      cases hu
      exact ⟨call.start, List.getElem?_concat_length⟩
    · rw [Function.update_of_ne hut] at hu
      obtain ⟨o, ho⟩ := h.held u op hu
      refine ⟨o, ?_⟩
      rw [List.getElem?_append_left (List.getElem?_eq_some_iff.1 ho).1]
      exact ho
  · intro op u o ho
    rw [hlist] at ho
    rcases getElem?_concat_cases ho with ho | ⟨-, he⟩
    · exact (h.fits op u o ho).mono hx
    · cases he
      exact hfits
  · intro op u o ho hbusy
    rw [hlist] at ho
    rcases getElem?_concat_cases ho with ho | ⟨rfl, he⟩
    · by_cases hut : u = t
      · subst u
        rw [hover op o ho] at hbusy
        cases hbusy
      · rw [hcur, Function.update_of_ne hut]
        exact h.busy op u o ho hbusy
    · cases he
      rw [hcur, Function.update_self]
      rfl

theorem isOver_of_step {o o' : Op Json ℤ} {q r : Store Json ℤ}
    (h : OpStep RESPONSE_QUEUE_MAX_SIZE o q o' r) : isOver o = false := by
  cases h with
  | put h => cases h <;> rfl
  | get h => cases h <;> rfl
  | eraseKey h => cases h <;> rfl

theorem Owned.advance (h : Owned st) {q : System Json ℤ Thread} {op : ℕ}
    (hq : st.responseQueue.advance RESPONSE_QUEUE_MAX_SIZE op = .ok q) :
    Owned { st with responseQueue := q } := by
  obtain ⟨t, o, o', ho, hs, hops⟩ := System.advance_eq_ok hq
  have hcurrent := h.busy op t o ho (isOver_of_step hs)
  constructor
  · intro u k hu
    obtain ⟨e, he⟩ := h.held u k hu
    change ∃ o, q.ops[k]? = some (u, o)
    rw [hops]
    by_cases hk : op = k
    · subst k
      cases ho.symm.trans he
      exact ⟨o', List.getElem?_set_self (List.getElem?_eq_some_iff.1 ho).1⟩
    · exact ⟨e, (List.getElem?_set_ne hk).trans he⟩
  · intro k u e he
    change q.ops[k]? = some (u, e) at he
    rw [hops] at he
    rcases getElem?_set_cases he with ⟨rfl, heq⟩ | ⟨-, he⟩
    · cases heq
      exact (h.fits _ _ o ho).of_step hs
    · exact h.fits k u e he
  · intro k u e he hbusy
    change q.ops[k]? = some (u, e) at he
    rw [hops] at he
    rcases getElem?_set_cases he with ⟨rfl, heq⟩ | ⟨-, he⟩
    · cases heq
      exact hcurrent
    · exact h.busy k u e he hbusy

theorem Owned.over_of_idle (h : Owned st) {t : Thread} (hcur : current st t = none) (op : ℕ)
    (o : Op Json ℤ) (ho : st.responseQueue.ops[op]? = some (t, o)) : isOver o = true := by
  by_contra hbusy
  have hop := h.busy op t o ho (by simpa using hbusy)
  rw [hcur] at hop
  cases hop

theorem Owned.over_of_done (h : Owned st) {t who : Thread} {op : ℕ} {o : Op Json ℤ}
    (hcur : current st t = some op) (ho : st.responseQueue.ops[op]? = some (who, o))
    (hover : isOver o = true) (k : ℕ) (e : Op Json ℤ)
    (he : st.responseQueue.ops[k]? = some (t, e)) : isOver e = true := by
  by_contra hbusy
  have hop := h.busy k t e he (by simpa using hbusy)
  cases hcur.symm.trans hop
  cases ho.symm.trans he
  exact hbusy hover

theorem current_setPc {i : ℕ} {c : Call} (here : st.calls[i]? = some c) (pc : CallPc) :
    current (st.setPc i c pc) = Function.update (current st) (.caller i) (callOp pc) := by
  funext t
  cases t with
  | caller k =>
    by_cases hk : i = k
    · subst k
      simp [current, State.setPc, (List.getElem?_eq_some_iff.1 here).1]
    · have hne : Thread.caller k ≠ .caller i := by
        rintro ⟨⟩
        exact hk rfl
      simp [current, State.setPc, hk, hne]
  | _ => rfl

theorem current_setConsumer {j : ℕ} {c : Consumer} (here : st.consumers[j]? = some c)
    (pc : ConsumerPc) : current (st.setConsumer j c pc) =
      Function.update (current st) (.consumer j) (consumerOp pc) := by
  funext t
  cases t with
  | consumer k =>
    by_cases hk : j = k
    · subst k
      simp [current, State.setConsumer, (List.getElem?_eq_some_iff.1 here).1]
    · have hne : Thread.consumer k ≠ .consumer j := by
        rintro ⟨⟩
        exact hk rfl
      simp [current, State.setConsumer, hk, hne]
  | _ => rfl

theorem current_setSocket (pc : SocketPc) :
    current (st.setSocket pc) = Function.update (current st) .socket (socketOp pc) := by
  funext t
  cases t <;> rfl

theorem bind_concat {α β : Type} (l : List α) {a : α} {f : α → Option β} (hf : f a = none) (i : ℕ) :
    (l ++ [a])[i]?.bind f = l[i]?.bind f := by
  rcases Nat.lt_trichotomy i l.length with hi | rfl | hi
  · rw [List.getElem?_append_left hi]
  · simp [hf]
  · rw [List.getElem?_eq_none (by simp; omega), List.getElem?_eq_none (by omega)]

theorem current_begin (task : Task) :
    current { st with calls := st.calls ++ [⟨task, .enter⟩] } = current st := by
  funext t
  cases t with
  | caller i => exact bind_concat st.calls rfl i
  | _ => rfl

theorem current_addConsumer (s : ℤ) (i : ℕ) : current (st.addConsumer s i) = current st := by
  funext t
  cases t with
  | consumer j => exact bind_concat st.consumers rfl j
  | _ => rfl

theorem current_caller {i : ℕ} {c : Call} (here : st.calls[i]? = some c) :
    current st (.caller i) = callOp c.pc := by
  simp [current, here]

theorem current_consumer {j : ℕ} {c : Consumer} (here : st.consumers[j]? = some c) :
    current st (.consumer j) = consumerOp c.pc := by
  simp [current, here]

theorem current_notifyAll (i : ℕ) : current (notifyAll st i) = current st := by
  unfold notifyAll
  split
  · next task id notified here =>
    have hidle : current st (.caller i) = none := current_caller here
    rw [← Function.update_eq_self (.caller i) (current st), hidle]
    exact current_setPc here _
  · rfl

theorem Owned.call (h : Owned st) (hx : Extends st next) {i : ℕ} {c : Call}
    (here : st.calls[i]? = some c) (hm : CallMove jsonrpcVersion st i c next) : Owned next := by
  have hcaller := current_caller here
  have idle : callOp c.pc = none → next.responseQueue = st.responseQueue →
      current next = Function.update (current st) (.caller i) none → Owned next := by
    intro hpc hops hcur
    exact h.rest hx hops (.caller i) (h.over_of_idle (hcaller.trans hpc)) hcur
  cases hm with
  | @close id s method pc task =>
    apply h.begin hx (.caller i) (.eraseKey s) rfl
    · exact h.over_of_idle (by rw [hcaller, pc]; rfl)
    · exact current_setPc here _
    · refine ⟨_, method, List.getElem?_set_self (List.getElem?_eq_some_iff.1 here).1, task, rfl⟩
  | closed pc done =>
    apply h.rest hx rfl (.caller i)
    · exact h.over_of_done (by rw [hcaller, pc]; rfl) done rfl
    · exact current_setPc here _
  | advance pc hq => exact h.advance hq
  | decline pc => exact idle (by rw [pc]; rfl) rfl (current_setPc here _)
  | register pc => exact idle (by rw [pc]; rfl) rfl (current_setPc here _)
  | send pc => exact idle (by rw [pc]; rfl) rfl (current_setPc here _)
  | refuse pc => exact idle (by rw [pc]; rfl) rfl (current_setPc here _)
  | move pc => exact idle (by rw [pc]; rfl) rfl (current_setPc here _)
  | erase pc => exact idle (by rw [pc]; rfl) rfl (current_setPc here _)
  | observe pc => exact idle (by rw [pc]; rfl) rfl (current_setPc here _)
  | forget pc => exact idle (by rw [pc]; rfl) rfl (current_setPc here _)
  | @start id s pc =>
    have hadd : current (st.addConsumer s i) = current st := current_addConsumer s i
    refine idle (by rw [pc]; rfl) rfl ?_
    have here' : (st.addConsumer s i).calls[i]? = some c := here
    rw [← hadd]
    exact current_setPc here' _

theorem Owned.socket (h : Owned st) (hx : Extends st next) (hm : SocketMove st next) :
    Owned next := by
  have idle : socketOp st.socket = none → next.responseQueue = st.responseQueue →
      current next = Function.update (current st) .socket none → Owned next := by
    intro hpc hops hcur
    exact h.rest hx hops .socket (h.over_of_idle hpc) hcur
  cases hm with
  | @enqueue json pc =>
    apply h.begin hx .socket (.put (subscriptionId json) json) rfl
    · apply h.over_of_idle
      change socketOp st.socket = none
      rw [pc]
      rfl
    · exact current_setSocket _
    · trivial
  | @returned op who k json pc done =>
    apply h.rest hx rfl .socket
    · refine h.over_of_done ?_ done rfl
      change socketOp st.socket = some op
      rw [pc]
      rfl
    · exact current_setSocket _
  | advance pc hq => exact h.advance hq
  | @notify i pc =>
    have hn : current (notifyAll st i) = current st := current_notifyAll i
    refine idle (by rw [pc]; rfl) ?_ ?_
    · unfold notifyAll
      split <;> rfl
    · rw [← hn]
      exact current_setSocket _
  | respond pc => exact idle (by rw [pc]; rfl) rfl (current_setSocket _)
  | skip pc => exact idle (by rw [pc]; rfl) rfl (current_setSocket _)
  | store pc => exact idle (by rw [pc]; rfl) rfl (current_setSocket _)
  | look pc => exact idle (by rw [pc]; rfl) rfl (current_setSocket _)

theorem Owned.consumer (h : Owned st) (hx : Extends st next) {j : ℕ} {c : Consumer}
    (here : st.consumers[j]? = some c) (hm : ConsumerMove st j c next) : Owned next := by
  have hconsumer := current_consumer here
  cases hm with
  | begin pc =>
    apply h.begin hx (.consumer j) (.get c.subscriptionId) rfl
    · exact h.over_of_idle (by rw [hconsumer, pc]; rfl)
    · exact current_setConsumer here _
    · exact ⟨_, List.getElem?_set_self (List.getElem?_eq_some_iff.1 here).1, rfl⟩
  | taken pc done =>
    apply h.rest hx rfl (.consumer j)
    · exact h.over_of_done (by rw [hconsumer, pc]; rfl) done rfl
    · exact current_setConsumer here _
  | ended pc done =>
    apply h.rest hx rfl (.consumer j)
    · exact h.over_of_done (by rw [hconsumer, pc]; rfl) done rfl
    · exact current_setConsumer here _
  | hand pc =>
    apply h.rest hx rfl (.consumer j)
    · exact h.over_of_idle (by rw [hconsumer, pc]; rfl)
    · exact current_setConsumer here _
  | advance pc hq => exact h.advance hq

theorem Owned.move (h : Owned st) (hm : Move jsonrpcVersion st next) : Owned next := by
  have hx := Move.extends hm
  cases hm with
  | begin task => exact h.keep hx rfl (current_begin task)
  | link up => exact h.keep hx rfl rfl
  | call here hc => exact h.call hx here hc
  | wake here pc =>
    apply h.rest hx rfl (.caller _)
    · exact h.over_of_idle (by rw [current_caller here, pc]; rfl)
    · exact current_setPc here _
  | receive pc =>
    apply h.rest hx rfl .socket
    · apply h.over_of_idle
      change socketOp st.socket = none
      rw [pc]
      rfl
    · refine (current_setSocket _).trans ?_
      split_ifs <;> rfl
  | socket hs => exact h.socket hx hs
  | consumer here hc => exact h.consumer hx here hc

end PolkadotApi.SubscriptionDelivery
