import PolkadotApi.JsonRpcThreads

set_option autoImplicit false

namespace PolkadotApi.SubscriptionDelivery
open StepRuns StreamReader BoundedBuffer MachineModel JsonValues ConcurrentMapQueue QueueLaws
open JsonRpcThreads

variable {jsonrpcVersion : Str} {st next : State}

def hasForgotten : CallPc → Bool
  | .released _ => true
  | .closing _ _ => true
  | .unsubscribed (some _) => true
  | _ => false

def obtained : CallPc → Option ℤ
  | .observing _ s => some s
  | .subscribed _ s => some s
  | _ => none

def isSubscribed : CallPc → Bool
  | .subscribed _ _ => true
  | _ => false

structure Later (c d : Call) : Prop where
  task : d.task = c.task
  forgotten : hasForgotten c.pc = true → hasForgotten d.pc = true
  keeps : ∀ s, obtained c.pc = some s → obtained d.pc = some s
  subscribed : isSubscribed c.pc = true → isSubscribed d.pc = true

/-- A consumer keeps its subscription and its starter, a call what it has reached. -/
structure Extends (st next : State) : Prop where
  consumers : ∀ (j : ℕ) (c : Consumer), st.consumers[j]? = some c →
    ∃ d, next.consumers[j]? = some d ∧ d.subscriptionId = c.subscriptionId ∧
      d.startedBy = c.startedBy
  calls : ∀ (i : ℕ) (c : Call), st.calls[i]? = some c → ∃ d, next.calls[i]? = some d ∧ Later c d

theorem Later.refl (c : Call) : Later c c := ⟨rfl, id, fun _ => id, id⟩

theorem later_set {calls : List Call} {i : ℕ} {c d : Call} (here : calls[i]? = some c)
    (hl : Later c d) (k : ℕ) (e : Call) (he : calls[k]? = some e) :
    ∃ f, (calls.set i d)[k]? = some f ∧ Later e f := by
  by_cases hk : i = k
  · subst k
    cases here.symm.trans he
    exact ⟨d, List.getElem?_set_self (List.getElem?_eq_some_iff.1 here).1, hl⟩
  · exact ⟨e, (List.getElem?_set_ne hk).trans he, .refl e⟩

theorem later_concat {calls : List Call} (d : Call) (k : ℕ) (e : Call) (he : calls[k]? = some e) :
    ∃ f, (calls ++ [d])[k]? = some f ∧ Later e f := by
  refine ⟨e, ?_, .refl e⟩
  rw [List.getElem?_append_left (List.getElem?_eq_some_iff.1 he).1]
  exact he

theorem Extends.of_calls (hcons : next.consumers = st.consumers)
    (hcalls : ∀ (i : ℕ) (c : Call), st.calls[i]? = some c →
      ∃ d, next.calls[i]? = some d ∧ Later c d) : Extends st next := by
  refine ⟨?_, hcalls⟩
  intro j c hc
  rw [hcons]
  exact ⟨c, hc, rfl, rfl⟩

theorem Extends.of_eq (hcons : next.consumers = st.consumers) (hcalls : next.calls = st.calls) :
    Extends st next := by
  apply Extends.of_calls hcons
  intro i c hc
  rw [hcalls]
  exact ⟨c, hc, .refl c⟩

theorem Extends.set {i : ℕ} {c : Call} {pc : CallPc} (here : st.calls[i]? = some c)
    (hl : Later c { c with pc }) (hcons : next.consumers = st.consumers)
    (hcalls : next.calls = st.calls.set i { c with pc }) : Extends st next := by
  apply Extends.of_calls hcons
  rw [hcalls]
  exact later_set here hl

theorem Extends.fresh {i : ℕ} {c : Call} {pc : CallPc} (here : st.calls[i]? = some c)
    (hf : hasForgotten c.pc = false ∧ obtained c.pc = none ∧ isSubscribed c.pc = false)
    (hcons : next.consumers = st.consumers)
    (hcalls : next.calls = st.calls.set i { c with pc }) : Extends st next := by
  have hl : Later c { c with pc } := by
    constructor
    · rfl
    · simp [hf.1]
    · simp [hf.2.1]
    · simp [hf.2.2]
  exact .set here hl hcons hcalls

theorem CallMove.extends {i : ℕ} {c : Call} (here : st.calls[i]? = some c)
    (hm : CallMove jsonrpcVersion st i c next) : Extends st next := by
  cases hm with
  | start pc =>
    constructor
    · intro j d hd
      refine ⟨d, ?_, rfl, rfl⟩
      exact (List.getElem?_append_left (List.getElem?_eq_some_iff.1 hd).1).trans hd
    · apply later_set here
      constructor
      · rfl
      · simp [pc, hasForgotten]
      · simp [pc, obtained]
      · simp [pc, isSubscribed]
  | @close id _ _ pc =>
    have hl : Later c { c with pc := .closing id st.nextOp } := by
      constructor <;> simp [pc, obtained, hasForgotten, isSubscribed]
    exact .set here hl rfl rfl
  | @closed id _ _ _ pc =>
    have hl : Later c { c with pc := .unsubscribed (some id) } := by
      constructor <;> simp [pc, obtained, hasForgotten, isSubscribed]
    exact .set here hl rfl rfl
  | advance => exact .of_eq rfl rfl
  | decline pc => exact .fresh here (by rw [pc]; exact ⟨rfl, rfl, rfl⟩) rfl rfl
  | register pc => exact .fresh here (by rw [pc]; exact ⟨rfl, rfl, rfl⟩) rfl rfl
  | send pc => exact .fresh here (by rw [pc]; exact ⟨rfl, rfl, rfl⟩) rfl rfl
  | refuse pc => exact .fresh here (by rw [pc]; exact ⟨rfl, rfl, rfl⟩) rfl rfl
  | move pc => exact .fresh here (by rw [pc]; exact ⟨rfl, rfl, rfl⟩) rfl rfl
  | erase pc => exact .fresh here (by rw [pc]; exact ⟨rfl, rfl, rfl⟩) rfl rfl
  | observe pc => exact .fresh here (by rw [pc]; exact ⟨rfl, rfl, rfl⟩) rfl rfl
  | forget pc => exact .fresh here (by rw [pc]; exact ⟨rfl, rfl, rfl⟩) rfl rfl

theorem Extends.setConsumer {j : ℕ} {c : Consumer} (here : st.consumers[j]? = some c)
    {pc : ConsumerPc} (hcons : next.consumers = st.consumers.set j { c with pc })
    (hcalls : next.calls = st.calls) : Extends st next := by
  constructor
  · intro k d hd
    rw [hcons]
    by_cases hk : j = k
    · subst k
      cases here.symm.trans hd
      exact ⟨_, List.getElem?_set_self (List.getElem?_eq_some_iff.1 here).1, rfl, rfl⟩
    · exact ⟨d, (List.getElem?_set_ne hk).trans hd, rfl, rfl⟩
  · intro i d hd
    rw [hcalls]
    exact ⟨d, hd, .refl d⟩

theorem Move.extends (hm : Move jsonrpcVersion st next) : Extends st next := by
  cases hm with
  | begin task => exact .of_calls rfl (later_concat _)
  | link up => exact .of_eq rfl rfl
  | call here hc => exact CallMove.extends here hc
  | wake here pc => exact .fresh here (by rw [pc]; exact ⟨rfl, rfl, rfl⟩) rfl rfl
  | receive pc => exact .of_eq rfl rfl
  | socket hs =>
    cases hs with
    | notify pc =>
      unfold notifyAll
      split
      · next here => exact .fresh here ⟨rfl, rfl, rfl⟩ rfl rfl
      · exact .of_eq rfl rfl
    | _ => exact .of_eq rfl rfl
  | consumer here hc =>
    cases hc with
    | advance => exact .of_eq rfl rfl
    | _ => exact .setConsumer here rfl rfl

end PolkadotApi.SubscriptionDelivery
