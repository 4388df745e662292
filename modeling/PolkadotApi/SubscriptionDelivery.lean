import PolkadotApi.SubscriptionDeliveryFlow
import PolkadotApi.SubscriptionDeliveryArrivals
import PolkadotApi.SubscriptionDeliveryObservers

set_option autoImplicit false

namespace PolkadotApi.SubscriptionDelivery
open StepRuns StreamReader BoundedBuffer MachineModel JsonValues ConcurrentMapQueue QueueLaws
open JsonRpcThreads

variable {jsonrpcVersion : Str} {st next : State}

theorem Move.queue (hm : Move jsonrpcVersion st next) :
    next.responseQueue = st.responseQueue ∨
      ∃ e, System.step RESPONSE_QUEUE_MAX_SIZE st.responseQueue e = some next.responseQueue := by
  have advance : ∀ {op : ℕ} {q : System Json ℤ Thread},
      st.responseQueue.advance RESPONSE_QUEUE_MAX_SIZE op = .ok q →
      ∃ e, System.step RESPONSE_QUEUE_MAX_SIZE st.responseQueue e = some q := by
    intro op q hq
    refine ⟨.advance op, ?_⟩
    simp [System.step, hq, Except.toOption]
  cases hm with
  | call here hc =>
    cases hc with
    | close => exact Or.inr ⟨.begin _ _, rfl⟩
    | advance pc hq => exact Or.inr (advance hq)
    | _ => exact Or.inl rfl
  | socket hs =>
    cases hs with
    | enqueue => exact Or.inr ⟨.begin _ _, rfl⟩
    | advance pc hq => exact Or.inr (advance hq)
    | notify pc =>
      left
      unfold notifyAll
      split <;> rfl
    | _ => exact Or.inl rfl
  | consumer here hc =>
    cases hc with
    | begin => exact Or.inr ⟨.begin _ _, rfl⟩
    | advance pc hq => exact Or.inr (advance hq)
    | _ => exact Or.inl rfl
  | _ => exact Or.inl rfl

structure Invariant (st : State) : Prop where
  queue : Reachable (System.step RESPONSE_QUEUE_MAX_SIZE) System.empty st.responseQueue
  owned : Owned st
  flow : ∀ s, StateFlow s st
  arrivals : ∀ s, StateArrivals s st
  watched : Watched st

theorem Invariant.init : Invariant State.init := by
  constructor
  · exact ⟨[], rfl⟩
  · constructor
    · rintro (_ | j | i) op h <;> cases h
    · rintro op t o h
      cases h
    · rintro op t o h
      cases h
  · intro s
    exact ⟨rfl, (by rintro j c h; cases h), fun _ => ⟨rfl, rfl⟩⟩
  · intro s
    exact ⟨(by rintro json h; cases h), List.Sublist.refl [], rfl⟩
  · constructor
    · rintro j c h
      cases h
    · rintro j k c d h
      cases h
    · rintro s observer h
      cases h
    · rintro s x h
      cases h

theorem Invariant.step {e : Event} (h : Invariant st) (he : step jsonrpcVersion st e = some next) :
    Invariant next := by
  have hm := step_move he
  constructor
  · rcases Move.queue hm with hq | ⟨e, hq⟩
    · rw [hq]
      exact h.queue
    · exact h.queue.next hq
  · exact h.owned.move hm
  · exact fun s => (h.flow s).move h.owned hm
  · exact fun s => (h.arrivals s).move hm
  · exact h.watched.move hm

theorem invariant_of_reachable (h : Reachable (step jsonrpcVersion) State.init st) :
    Invariant st :=
  h.invariant (fun _ _ _ hs he => hs.step he) .init

/-- Exactly one call of `subscribeWs` has been given `s`. -/
def ObtainedOnce (calls : List Call) (s : ℤ) : Prop :=
  ∀ (i k : ℕ) (c d : Call), calls[i]? = some c → calls[k]? = some d →
    obtained c.pc = some s → obtained d.pc = some s → i = k

/-- No call of `unsubscribeWs` has removed the observer of `s`. -/
def StillOpen (calls : List Call) (s : ℤ) : Prop :=
  ∀ c ∈ calls, ∀ method, c.task = .unsubscribeWs s method → hasForgotten c.pc = false

def Putting (q : System Json ℤ Thread) (s : ℤ) : Prop :=
  ∃ (op : ℕ) (who : Thread) (json : Json) (pc : PutPc ℤ),
    q.ops[op]? = some (who, .put s json pc) ∧ isOver (.put s json pc) = false

/-- The consumer waits at the read semaphore of its subscription, whose count is 0. -/
def Blocked (q : System Json ℤ Thread) (c : Consumer) : Prop :=
  ∃ (op : ℕ) (who : Thread) (p : SemaphorePtr ℤ), c.pc = .getting op ∧
    q.ops[op]? = some (who, .get c.subscriptionId (.waiting p)) ∧ q.store.count p = 0

theorem put_of_unpushed {s : ℤ} {o : Op Json ℤ} (h : unpushed s o ≠ []) :
    ∃ json pc, o = .put s json pc ∧ isOver o = false := by
  unfold unpushed at h
  split at h
  · split at h
    · exact absurd rfl h
    · exact absurd rfl h
    · next hreturned =>
      split_ifs at h with hk
      subst hk
      refine ⟨_, _, rfl, ?_⟩
      unfold isOver
      split
      all_goals simp_all
  · exact absurd rfl h

theorem Invariant.alone (h : Invariant st) {s : ℤ} (honce : ObtainedOnce st.calls s) {j : ℕ}
    {c : Consumer} (hc : st.consumers[j]? = some c) (hs : c.subscriptionId = s) :
    Alone st.consumers s j := by
  intro k d hd hsd
  obtain ⟨e, he, hobt, -⟩ := h.watched.started j c hc
  obtain ⟨f, hf, hobt', -⟩ := h.watched.started k d hd
  rw [hs] at hobt
  rw [hsd] at hobt'
  exact h.watched.once k j d c hd hc (honce _ _ f e hf he hobt' hobt)

theorem Invariant.keyLaws (h : Invariant st) {s : ℤ} (hopen : StillOpen st.calls s) :
    KeyLaws RESPONSE_QUEUE_MAX_SIZE s st.responseQueue := by
  apply keyLaws_of_reachable (by decide) h.queue
  rintro ⟨t, o⟩ hx hk
  obtain ⟨op, hop⟩ := List.mem_iff_getElem?.1 hx
  have hfits := h.owned.fits op t o hop
  cases o with
  | eraseKey k pc =>
    cases t with
    | caller i =>
      obtain ⟨c, method, hc, htask, hforgot⟩ := hfits
      cases hk
      rw [hopen c (List.mem_of_getElem? hc) method htask] at hforgot
      cases hforgot
    | _ => cases hfits
  | _ => rfl

theorem Invariant.drained (h : Invariant st) {s : ℤ} (hopen : StillOpen st.calls s) {j : ℕ}
    {c : Consumer} (hc : st.consumers[j]? = some c) (hs : c.subscriptionId = s)
    (halone : Alone st.consumers s j) (hblocked : Blocked st.responseQueue c)
    (hput : ¬ Putting st.responseQueue s) :
    st.responseQueue.store.pushed s = st.responseQueue.store.popped s := by
  obtain ⟨op, who, p, hpc, hop, hcount⟩ := hblocked
  have hlaws := h.keyLaws hopen
  rw [hs] at hop
  have hsem : st.responseQueue.store.semR s = some p :=
    hlaws.linked _ (List.mem_of_getElem? hop) rfl p rfl
  apply hlaws.lawful.drained
  · change (st.responseQueue.store.semR s).elim 0 st.responseQueue.store.count = 0
    rw [hsem]
    exact hcount
  · apply census_eq_zero
    rintro ⟨t, o⟩ hx hphase
    obtain ⟨k, hk⟩ := List.mem_iff_getElem?.1 hx
    obtain rfl := op_of_claimed hphase
    have hfits := h.owned.fits k t _ hk
    have hbusy := h.owned.busy k t _ hk rfl
    cases t with
    | consumer m =>
      obtain ⟨d, hd, hsd⟩ := hfits
      obtain rfl := halone m d hd hsd
      rw [current_consumer hc, hpc] at hbusy
      cases hbusy
      cases hop.symm.trans hk
    | _ => cases hfits
  · apply census_eq_zero
    rintro ⟨t, o⟩ hx hphase
    obtain ⟨k, hk⟩ := List.mem_iff_getElem?.1 hx
    obtain ⟨json, rfl⟩ := op_of_written hphase
    exact hput ⟨k, t, json, .written, hk, rfl⟩

theorem Invariant.inSocket_eq_nil (h : Invariant st) {s : ℤ}
    (hput : ¬ Putting st.responseQueue s) : inSocket st.responseQueue st.socket s = [] := by
  unfold inSocket opAt
  cases hop : socketOp st.socket with
  | none => rfl
  | some op =>
    obtain ⟨o, ho⟩ := h.owned.held .socket op hop
    simp only [Option.bind_some, ho, Option.map_some, Option.elim_some]
    by_contra hne
    obtain ⟨json, pc, rfl, hbusy⟩ := put_of_unpushed hne
    exact hput ⟨op, .socket, json, pc, ho, hbusy⟩

def notification (s : ℤ) (result : Json) : Json :=
  .object [(lit "params", .object [(lit "subscription", .number s), (lit "result", result)])]

/-- The first notification comes before the reply that carries its subscription. -/
def earlyNotification : List Event :=
  List.flatten
    [[.link true, .begin (.subscribeWs .null 9), .call 0, .call 0,
        .receive (notification 5 (.number 70))],
      List.replicate 8 .socket,
      [.receive (.object [(lit "id", .number 1), (lit "result", .number 5)])],
      List.replicate 4 .socket, [.wake 0 .notified], List.replicate 4 (.call 0),
      List.replicate 4 (.consumer 0), [.receive (notification 5 (.number 71))],
      List.replicate 7 .socket, List.replicate 15 (.consumer 0)]

end PolkadotApi.SubscriptionDelivery
