import PolkadotApi.SocketProgressFlood

set_option autoImplicit false

namespace PolkadotApi.SocketProgress
open StepRuns StreamReader BoundedBuffer MachineModel JsonValues ConcurrentMapQueue QueueLaws
open SemaphoreLookups
open JsonRpcThreads SubscriptionDelivery ObserverLifetimes

variable {jsonrpcVersion : Str} {st : State} {r w : SemaphorePtr ℤ}

/-- As long as every message finds room or a reader that stays, the socket thread waits
only at subscriptions that have a consumer thread. -/
theorem blocked_put_has_consumer {es : List JsonRpcThreads.Event}
    (haccommodating : Along (JsonRpcThreads.step jsonrpcVersion) Accommodating State.init es)
    (hrun : run (JsonRpcThreads.step jsonrpcVersion) State.init es = some st) :
    ∀ s, SocketBlocked st s → ∃ c ∈ st.consumers, c.subscriptionId = s ∧ c.pc ≠ .ended := by
  have hboth : Invariant st ∧ Housed st := by
    apply run_invariant (I := fun st => Invariant st ∧ Housed st) ?_ ⟨.init, .init⟩
      haccommodating hrun
    rintro s e t ⟨hinv, hs⟩ he hst
    exact ⟨hinv.step hst, hs.step hinv he hst⟩
  intro s hblocked
  by_contra hnone
  push Not at hnone
  have hin : inSocket st.responseQueue st.socket s ≠ [] := by
    obtain ⟨op, who, json, p, hpc, hop, _⟩ := hblocked
    simp [hpc, inSocket, opAt, socketOp, hop, unpushed]
  have hfull := Invariant.full_of_blocked hboth.1 (hboth.2.anchored s) hblocked hnone
  rcases hboth.2.welcome s hin with hroom | hreader
  · exact hfull hroom
  · exact hreader hnone

def first : List JsonRpcThreads.Event :=
  .receive (notification 5 .null) :: List.replicate 8 .socket

/-- As many notifications for 5 as fit, and the beginning of one more. -/
def toTheBrim : List JsonRpcThreads.Event :=
  (List.replicate 126 (oneMore (notification 5 .null))).flatten ++
    .receive (notification 5 .null) :: List.replicate 3 .socket

theorem notifies_notification : Notifies 5 (notification 5 .null) :=
  ⟨by decide, by decide, by decide⟩

theorem Ready.toTheBrim (h : Ready 5 r w st) (hcount : st.responseQueue.store.count w = 126) :
    ∃ next, run (JsonRpcThreads.step jsonrpcVersion) st toTheBrim = some next ∧
      SocketBlocked next 5 ∧ next.consumers = st.consumers := by
  obtain ⟨u, hu, hready, hzero, hcons⟩ := h.flood (n := 126) notifies_notification hcount
  exact ⟨_, run_append.2 ⟨u, hu, hready.waiting notifies_notification⟩, blocked_putting hzero, hcons⟩

def slowReader : List JsonRpcThreads.Event :=
  List.flatten
    [[.link true, .begin (.subscribeWs .null 9), .call 0, .call 0,
        .receive (RequestReplies.message 1 (.number 5))],
      List.replicate 4 .socket, [.wake 0 .notified], List.replicate 4 (.call 0), first]

theorem blocked_put_has_consumer_slowReader : ∃ st,
    run (JsonRpcThreads.step (lit "2.0")) State.init (slowReader ++ toTheBrim) = some st ∧
      SocketBlocked st 5 ∧ ∃ c ∈ st.consumers, c.subscriptionId = 5 ∧ c.pc ≠ .ended := by
  have hfirst := run_finalState (JsonRpcThreads.step (lit "2.0")) State.init slowReader
    (by decide +kernel)
  have hready : Ready 5 ⟨.read, 5, 0⟩ ⟨.write, 5, 1⟩
      (finalState (JsonRpcThreads.step (lit "2.0")) State.init slowReader) := by
    constructor <;> decide +kernel
  obtain ⟨st, hst, hblocked, _⟩ := hready.toTheBrim (by decide +kernel)
  have hrun := run_append.2 ⟨_, hfirst, hst⟩
  have halong : Along (JsonRpcThreads.step (lit "2.0")) Accommodating State.init
      (slowReader ++ toTheBrim) := by
    refine Along.append (by decide +kernel) hfirst (along_of_reader (s := 5) (by decide +kernel) ?_ ?_)
    · rw [hready.idle]
      rintro json ⟨⟩
    · have hone : ∀ n, ∀ e ∈ JsonRpcThreads.Event.receive (notification 5 .null) ::
          List.replicate n .socket,
          e = .socket ∨ ∃ json, e = .receive json ∧ subscriptionId json = 5 := by
        intro n e he
        rcases List.mem_cons.1 he with rfl | he
        · exact Or.inr ⟨_, rfl, notifies_notification.2.1⟩
        · exact Or.inl (List.eq_of_mem_replicate he)
      intro e he
      rcases List.mem_append.1 he with he | he
      · obtain ⟨l, hl, he⟩ := List.mem_flatten.1 he
        rw [List.eq_of_mem_replicate hl] at he
        exact hone 7 e he
      · exact hone 3 e he
  exact ⟨st, hrun, hblocked, blocked_put_has_consumer halong hrun 5 hblocked⟩

/-- Nobody has subscribed. -/
theorem blocked_put_has_consumer_fails :
    ¬ ∀ (es : List JsonRpcThreads.Event) (st : State),
      run (JsonRpcThreads.step (lit "2.0")) State.init es = some st →
      ∀ s, SocketBlocked st s → ∃ c ∈ st.consumers, c.subscriptionId = s ∧ c.pc ≠ .ended := by
  intro hall
  have hfirst := run_finalState (JsonRpcThreads.step (lit "2.0")) State.init first
    (by decide +kernel)
  have hready : Ready 5 ⟨.read, 5, 0⟩ ⟨.write, 5, 1⟩
      (finalState (JsonRpcThreads.step (lit "2.0")) State.init first) := by
    constructor <;> decide +kernel
  obtain ⟨st, hst, hblocked, hcons⟩ := hready.toTheBrim (by decide +kernel)
  obtain ⟨c, hc, _⟩ := hall _ st (run_append.2 ⟨_, hfirst, hst⟩) 5 hblocked
  have hnone : (finalState (JsonRpcThreads.step (lit "2.0")) State.init first).consumers = [] := by
    decide +kernel
  rw [hcons, hnone] at hc
  cases hc

end PolkadotApi.SocketProgress
