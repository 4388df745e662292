import PolkadotApi.SocketProgressRuns

set_option autoImplicit false

namespace PolkadotApi.SocketProgress
open StepRuns StreamReader BoundedBuffer MachineModel JsonValues ConcurrentMapQueue QueueLaws
open SemaphoreLookups
open JsonRpcThreads SubscriptionDelivery ObserverLifetimes

variable {jsonrpcVersion : Str} {st next : State} {s : ℤ} {json : Json} {r w : SemaphorePtr ℤ}

structure Ready (s : ℤ) (r w : SemaphorePtr ℤ) (st : State) : Prop where
  idle : st.socket = .idle
  free : st.responseQueue.store.keyMtx = false
  read : st.responseQueue.store.semR s = some r
  write : st.responseQueue.store.semW s = some w
  ne : w ≠ r
  aliveR : st.responseQueue.store.deleted r = false
  aliveW : st.responseQueue.store.deleted w = false

def Notifies (s : ℤ) (json : Json) : Prop := requestId json = 0 ∧ subscriptionId json = s ∧ s ≠ 0

/-- The state in the middle of the `put` of a message that has just come. -/
def putting (st : State) (s : ℤ) (json : Json) (q : Store Json ℤ) (pc : PutPc ℤ) : State :=
  { st with
    received := st.received ++ [json]
    arrived := Function.update st.arrived s (st.arrived s ++ [json])
    responseQueue := ⟨q, st.responseQueue.ops ++ [(.socket, .put s json pc)]⟩
    socket := .putting st.responseQueue.ops.length }

theorem run_receive (hidle : st.socket = .idle) (hjson : Notifies s json)
    (es : List JsonRpcThreads.Event) :
    run (JsonRpcThreads.step jsonrpcVersion) st (.receive json :: .socket :: es) =
      run (JsonRpcThreads.step jsonrpcVersion)
        (putting st s json st.responseQueue.store (.addKey .enter)) es := by
  obtain ⟨hrequest, hsub, hs⟩ := hjson
  have hmax : ¬ (0 : ℤ) = INT_MAX := by decide
  simp [run, JsonRpcThreads.step, hidle, socketStep, State.setSocket, hrequest, hsub, hs, hmax,
    State.addArrived, State.beginOp, System.begin, State.nextOp, putting,
    ConcurrentMapQueue.Call.start]

theorem step_putting {q q' : Store Json ℤ} {pc pc' : PutPc ℤ} (hpc : pc ≠ .returned)
    (hput : q.put RESPONSE_QUEUE_MAX_SIZE s json pc = .ok (pc', q')) :
    JsonRpcThreads.step jsonrpcVersion (putting st s json q pc) .socket =
      some (putting st s json q' pc') := by
  have hadvance : (putting st s json q pc).advanceOp st.responseQueue.ops.length =
      some (putting st s json q' pc') := by
    simp [State.advanceOp, putting, System.advance, Op.step, hput, Except.map, Except.toOption]
  change socketStep (putting st s json q pc) = _
  rw [← hadvance]
  simp [socketStep, putting, hpc]

theorem step_returned {q : Store Json ℤ} :
    JsonRpcThreads.step jsonrpcVersion (putting st s json q .returned) .socket =
      some ((putting st s json q .returned).setSocket .idle) := by
  simp [JsonRpcThreads.step, socketStep, putting]

theorem Ready.waiting (h : Ready s r w st) (hjson : Notifies s json) :
    run (JsonRpcThreads.step jsonrpcVersion) st (.receive json :: List.replicate 3 .socket) =
      some (putting st s json st.responseQueue.store (.waiting w)) := by
  have hfound : st.responseQueue.store.put RESPONSE_QUEUE_MAX_SIZE s json (.addKey .enter) =
      .ok (.added, st.responseQueue.store) := by
    simp [Store.put, Store.addKey, h.free, h.read, bind, Except.bind, pure, Except.pure]
  have hlook : st.responseQueue.store.put RESPONSE_QUEUE_MAX_SIZE s json .added =
      .ok (.waiting w, st.responseQueue.store) := by
    simp [Store.put, h.write]
  refine (run_receive h.idle hjson (List.replicate 2 .socket)).trans ?_
  refine run_cons.2 ⟨_, step_putting (by simp) hfound, ?_⟩
  exact run_cons.2 ⟨_, step_putting (by simp) hlook, rfl⟩

def filled (s : ℤ) (json : Json) (r w : SemaphorePtr ℤ) (q : Store Json ℤ) : Store Json ℤ :=
  let q := (q.setCount w (q.count w - 1)).write s json
  q.setCount r (q.count r + 1)

theorem Ready.goesThrough (h : Ready s r w st) (hcount : st.responseQueue.store.count w ≠ 0) :
    run (JsonRpcThreads.step jsonrpcVersion) (putting st s json st.responseQueue.store (.waiting w))
      (List.replicate 4 .socket) = some ((putting st s json
        (filled s json r w st.responseQueue.store) .returned).setSocket .idle) := by
  have htake : st.responseQueue.store.put RESPONSE_QUEUE_MAX_SIZE s json (.waiting w) =
      .ok (.granted, st.responseQueue.store.setCount w (st.responseQueue.store.count w - 1)) := by
    simp [Store.put, Store.wait, h.aliveW, hcount, bind, Except.bind, pure, Except.pure]
  have hsignal : ((st.responseQueue.store.setCount w (st.responseQueue.store.count w - 1)).write s
      json).put RESPONSE_QUEUE_MAX_SIZE s json .written =
        .ok (.returned, filled s json r w st.responseQueue.store) := by
    simp [Store.put, Store.notify, Store.write, Store.setCount, h.read, h.aliveR, filled, bind,
      Except.bind, pure, Except.pure]
  refine run_cons.2 ⟨_, step_putting (by simp) htake, ?_⟩
  refine run_cons.2 ⟨_, step_putting (by simp) rfl, ?_⟩
  refine run_cons.2 ⟨_, step_putting (by simp) hsignal, ?_⟩
  exact run_cons.2 ⟨_, step_returned, rfl⟩

def oneMore (json : Json) : List JsonRpcThreads.Event := .receive json :: List.replicate 7 .socket

theorem Ready.oneMore (h : Ready s r w st) (hjson : Notifies s json)
    (hcount : st.responseQueue.store.count w ≠ 0) : ∃ next,
    run (JsonRpcThreads.step jsonrpcVersion) st (oneMore json) = some next ∧ Ready s r w next ∧
      next.responseQueue.store.count w = st.responseQueue.store.count w - 1 ∧
      next.consumers = st.consumers := by
  refine ⟨_, run_append.2 ⟨_, h.waiting hjson, h.goesThrough hcount⟩, ?_, ?_, rfl⟩
  · exact ⟨rfl, h.free, h.read, h.write, h.ne, h.aliveR, h.aliveW⟩
  · change (filled s json r w st.responseQueue.store).count w = _
    simp [filled, Store.setCount, Store.write, h.ne]

/-- Without a step of a consumer, all places are taken away. -/
theorem Ready.flood (h : Ready s r w st) (hjson : Notifies s json) {n : ℕ}
    (hcount : st.responseQueue.store.count w = n) : ∃ next,
    run (JsonRpcThreads.step jsonrpcVersion) st (List.replicate n (SocketProgress.oneMore json)).flatten =
        some next ∧
      Ready s r w next ∧ next.responseQueue.store.count w = 0 ∧ next.consumers = st.consumers := by
  induction n generalizing st with
  | zero => exact ⟨st, rfl, h, hcount, rfl⟩
  | succ n ih =>
    obtain ⟨u, hu, hready, hless, hcons⟩ := h.oneMore hjson (by omega)
    obtain ⟨next, hnext, hlast, hzero, hsame⟩ := ih hready (by omega)
    refine ⟨next, ?_, hlast, hzero, hsame.trans hcons⟩
    rw [List.replicate_succ, List.flatten_cons]
    exact run_append.2 ⟨u, hu, hnext⟩

theorem blocked_putting (hcount : st.responseQueue.store.count w = 0) :
    SocketBlocked (putting st s json st.responseQueue.store (.waiting w)) s :=
  ⟨_, .socket, json, w, rfl, List.getElem?_concat_length, hcount⟩

/-- The socket thread alone does no harm as long as all messages are for `s` and `s` has
a reader. -/
theorem along_of_reader {es : List JsonRpcThreads.Event} (hreader : ¬ Ended st.consumers s)
    (htested : ∀ json ∈ tested st.socket, subscriptionId json = s)
    (hes : ∀ e ∈ es, e = .socket ∨ ∃ json, e = .receive json ∧ subscriptionId json = s) :
    Along (JsonRpcThreads.step jsonrpcVersion) Accommodating st es := by
  induction es generalizing st with
  | nil => trivial
  | cons e es ih =>
    have hlater := fun e' he' => hes e' (List.mem_cons_of_mem e he')
    rcases hes e List.mem_cons_self with rfl | ⟨json, rfl, hjson⟩
    · constructor
      · intro s' hs'
        right
        have hsame : s' = s := by
          change enqueues st = some s' at hs'
          unfold enqueues at hs'
          split at hs'
          · next json hpc =>
            split_ifs at hs'
            cases hs'
            exact htested json (by rw [hpc]; exact List.mem_singleton_self json)
          · cases hs'
        rw [hsame]
        exact hreader
      · intro t ht
        have hm := socketStep_move ht
        have hcons : t.consumers = st.consumers ∧ tested t.socket = [] := by
          cases hm with
          | notify =>
            unfold notifyAll
            split <;> exact ⟨rfl, rfl⟩
          | advance pc =>
            refine ⟨rfl, ?_⟩
            change tested st.socket = []
            rw [pc]
            rfl
          | _ => exact ⟨rfl, rfl⟩
        refine ih ?_ ?_ hlater
        · rw [hcons.1]
          exact hreader
        · rw [hcons.2]
          rintro json ⟨⟩
    · refine ⟨trivial, ?_⟩
      intro t ht
      simp only [JsonRpcThreads.step] at ht
      split at ht
      · cases ht
        refine ih hreader ?_ hlater
        intro json' hjson'
        change json' ∈ tested (if _ then SocketPc.idle else SocketPc.testing json) at hjson'
        split_ifs at hjson'
        · cases hjson'
        · rw [List.mem_singleton.1 hjson']
          exact hjson
      · cases ht

end PolkadotApi.SocketProgress
