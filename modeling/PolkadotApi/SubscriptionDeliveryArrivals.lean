import PolkadotApi.JsonRpcThreads

set_option autoImplicit false

namespace PolkadotApi.SubscriptionDelivery
open StepRuns StreamReader BoundedBuffer MachineModel JsonValues ConcurrentMapQueue QueueLaws
open JsonRpcThreads

variable {jsonrpcVersion : Str} {st next : State}

variable {s : ℤ}

/-- The message is a notification for `s`: it answers no request. -/
def isNotification (s : ℤ) (json : Json) : Bool :=
  requestId json = 0 ∧ subscriptionId json = s ∧ s ≠ 0

/-- The message that `handleMessage` has not dealt with yet. -/
def tested : SocketPc → List Json
  | .testing json => [json]
  | _ => []

structure Arrivals (received arrived : List Json) (socket : SocketPc) (s : ℤ) : Prop where
  named : ∀ json ∈ arrived, subscriptionId json = s
  inOrder : (arrived ++ tested socket).Sublist received
  complete : received.filter (isNotification s) =
    (arrived ++ tested socket).filter (isNotification s)

def StateArrivals (s : ℤ) (st : State) : Prop :=
  Arrivals st.received (st.arrived s) st.socket s

theorem Arrivals.drop {received arrived : List Json} {sp : SocketPc}
    (h : Arrivals received arrived sp s) {pc : SocketPc} (hpc : tested pc = [])
    (hn : ∀ json ∈ tested sp, isNotification s json = false) : Arrivals received arrived pc s := by
  refine ⟨h.named, ?_, ?_⟩
  · rw [hpc, List.append_nil]
    exact (List.sublist_append_left _ _).trans h.inOrder
  · have hnil : (tested sp).filter (isNotification s) = [] := by
      rw [List.filter_eq_nil_iff]
      intro json hj
      rw [hn json hj]
      exact Bool.false_ne_true
    rw [h.complete, List.filter_append, hnil, hpc, List.append_nil, List.append_nil]

theorem StateArrivals.socket (h : StateArrivals s st) (hm : SocketMove st next) :
    StateArrivals s next := by
  have quiet : ∀ pc, tested st.socket = [] → tested pc = [] →
      Arrivals st.received (st.arrived s) pc s := by
    intro pc hold hnew
    apply Arrivals.drop h hnew
    rw [hold]
    rintro json ⟨⟩
  cases hm with
  | @respond json pc numbered =>
    apply Arrivals.drop h rfl
    rw [pc]
    intro m hm
    obtain rfl := List.mem_singleton.1 hm
    simp [isNotification, numbered]
  | @skip json pc hs =>
    apply Arrivals.drop h rfl
    rw [pc]
    intro m hm
    obtain rfl := List.mem_singleton.1 hm
    simp only [isNotification, decide_eq_false_iff_not]
    rintro ⟨-, rfl, hne⟩
    exact hne hs
  | @enqueue json pc =>
    by_cases hs : subscriptionId json = s
    · subst s
      have hold : tested st.socket = [json] := by rw [pc]; rfl
      have harr : ((((st.addArrived (subscriptionId json) json).beginOp .socket
          (.put (subscriptionId json) json)).setSocket (.putting st.nextOp)).arrived
          (subscriptionId json)) = st.arrived (subscriptionId json) ++ [json] :=
        Function.update_self ..
      constructor
      · rw [harr]
        intro m hm
        rcases List.mem_append.1 hm with hm | hm
        · exact h.named m hm
        · rw [List.mem_singleton.1 hm]
      · rw [harr, ← hold]
        exact (List.append_nil (st.arrived (subscriptionId json) ++ tested st.socket)).symm ▸
          h.inOrder
      · rw [harr, ← hold]
        exact h.complete.trans (congrArg (List.filter _) (List.append_nil _).symm)
    · have harr : ((((st.addArrived (subscriptionId json) json).beginOp .socket
          (.put (subscriptionId json) json)).setSocket (.putting st.nextOp)).arrived s) =
          st.arrived s := Function.update_of_ne (Ne.symm hs) ..
      unfold StateArrivals
      rw [harr]
      apply Arrivals.drop h rfl
      rw [pc]
      intro m hm
      obtain rfl := List.mem_singleton.1 hm
      simp [isNotification, hs]
  | @notify i pc =>
    have hn : StateArrivals s ((notifyAll st i).setSocket .idle) := by
      unfold notifyAll
      split <;> exact quiet .idle (by rw [pc]; rfl) rfl
    exact hn
  | advance => exact h
  | store pc => exact quiet _ (by rw [pc]; rfl) rfl
  | look pc => exact quiet _ (by rw [pc]; rfl) rfl
  | returned pc => exact quiet _ (by rw [pc]; rfl) rfl

theorem StateArrivals.move (h : StateArrivals s st) (hm : Move jsonrpcVersion st next) :
    StateArrivals s next := by
  cases hm with
  | call here hc => cases hc <;> exact h
  | socket hs => exact h.socket hs
  | consumer here hc => cases hc <;> exact h
  | @receive json pc =>
    have hold : st.arrived s ++ tested st.socket = st.arrived s := by
      rw [pc]
      exact List.append_nil _
    have hin := h.inOrder
    have hall := h.complete
    rw [hold] at hin hall
    change Arrivals (st.received ++ [json]) (st.arrived s)
      (if requestId json = INT_MAX then .idle else .testing json) s
    split_ifs with hmax
    · refine ⟨h.named, ?_, ?_⟩
      · exact (List.append_nil (st.arrived s)).symm ▸ hin.trans (List.sublist_append_left _ _)
      · have hno : isNotification s json = false := by
          simp [isNotification, hmax, INT_MAX]
        rw [List.filter_append, hall]
        simp [hno, tested]
    · refine ⟨h.named, hin.append (List.Sublist.refl [json]), ?_⟩
      rw [List.filter_append, hall, ← List.filter_append]
      rfl
  | _ => exact h

end PolkadotApi.SubscriptionDelivery
