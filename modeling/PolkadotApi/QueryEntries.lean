import PolkadotApi.RequestReplies

set_option autoImplicit false

namespace PolkadotApi.QueryEntries
open StepRuns MachineModel JsonValues JsonRpcThreads RequestReplies

variable {jsonrpcVersion : Str} {st next : State}

/-- The call has made its entry and has not left `request`. -/
def inRequest : CallPc → Bool
  | .sending _ => true
  | .waiting _ _ => true
  | .woken _ => true
  | .moved _ _ => true
  | _ => false

def ending (connected : Bool) : CallPc → Bool
  | .sending _ => !connected
  | .moved _ _ => true
  | _ => false

/-- `handleMessage` deals with the number `id`, or is about to notify the `i`th call. -/
def Handles (i : ℕ) (id : ℤ) : SocketPc → Prop
  | .matched requestId _ => requestId = id
  | .stored requestId => requestId = id
  | .notifying completionCV => completionCV = some i
  | _ => False

def Pending (st : State) (id : ℤ) (i : ℕ) : Prop :=
  ∃ c ∈ st.calls[i]?, c.pc.id = some id ∧ inRequest c.pc = true

/-- An entry that `handleMessage` finds belongs to a call inside `request`. -/
def FindsPending (st : State) : SocketPc → Prop
  | .testing json => requestId json ≠ 0 → ∀ query ∈ st.queries (requestId json),
      ∃ i ∈ query.completionCV, Pending st (requestId json) i
  | _ => True

/-- While `handleMessage` deals with a number, no call with it leaves `request`, and an
entry that it finds is not one that was left behind. -/
def Timely (st : State) : Event → Prop
  | .call i => ∀ c ∈ st.calls[i]?, ending st.connected c.pc = true → ∀ id ∈ c.pc.id,
      ¬ Handles i id st.socket
  | .socket => FindsPending st st.socket
  | _ => True

section Decidability

instance (i : ℕ) (id : ℤ) : ∀ pc : SocketPc, Decidable (Handles i id pc)
  | .matched requestId _ => inferInstanceAs (Decidable (requestId = id))
  | .stored requestId => inferInstanceAs (Decidable (requestId = id))
  | .notifying completionCV => inferInstanceAs (Decidable (completionCV = some i))
  | .idle => inferInstanceAs (Decidable False)
  | .testing _ => inferInstanceAs (Decidable False)
  | .putting _ => inferInstanceAs (Decidable False)

instance (st : State) (id : ℤ) (i : ℕ) : Decidable (Pending st id i) :=
  inferInstanceAs (Decidable (∃ c ∈ st.calls[i]?, c.pc.id = some id ∧ inRequest c.pc = true))

instance (st : State) : ∀ pc : SocketPc, Decidable (FindsPending st pc)
  | .testing json => inferInstanceAs (Decidable (requestId json ≠ 0 →
      ∀ query ∈ st.queries (requestId json),
        ∃ i ∈ query.completionCV, Pending st (requestId json) i))
  | .idle => inferInstanceAs (Decidable True)
  | .matched _ _ => inferInstanceAs (Decidable True)
  | .stored _ => inferInstanceAs (Decidable True)
  | .notifying _ => inferInstanceAs (Decidable True)
  | .putting _ => inferInstanceAs (Decidable True)

instance (st : State) : ∀ e : Event, Decidable (Timely st e)
  | .call i => inferInstanceAs (Decidable (∀ c ∈ st.calls[i]?, ending st.connected c.pc = true →
      ∀ id ∈ c.pc.id, ¬ Handles i id st.socket))
  | .socket => inferInstanceAs (Decidable (FindsPending st st.socket))
  | .begin _ => inferInstanceAs (Decidable True)
  | .link _ => inferInstanceAs (Decidable True)
  | .wake _ _ => inferInstanceAs (Decidable True)
  | .receive _ => inferInstanceAs (Decidable True)
  | .consumer _ => inferInstanceAs (Decidable True)

end Decidability

section Guard

def Entered (st : State) (id : ℤ) : Prop :=
  ∃ query i, st.queries id = some query ∧ query.completionCV = some i ∧ Pending st id i

def dealsWith : SocketPc → Option ℤ
  | .matched requestId _ => some requestId
  | .stored requestId => some requestId
  | _ => none

structure Guarded (st : State) : Prop where
  entered : ∀ id, dealsWith st.socket = some id → Entered st id
  notifying : ∀ completionCV, st.socket = .notifying completionCV →
    ∃ i id, completionCV = some i ∧ Pending st id i

theorem handles_of_dealsWith {pc : SocketPc} {id : ℤ} (h : dealsWith pc = some id) (i : ℕ) :
    Handles i id pc := by
  cases pc <;> cases h <;> rfl

theorem Guarded.keep (h : Guarded st) (hsocket : next.socket = st.socket)
    (hentry : ∀ id, dealsWith st.socket = some id → Entered st id → Entered next id)
    (hpending : ∀ i id, st.socket = .notifying (some i) → Pending st id i → Pending next id i) :
    Guarded next := by
  constructor
  · intro id hid
    rw [hsocket] at hid
    exact hentry id hid (h.entered id hid)
  · intro completionCV hpc
    rw [hsocket] at hpc
    obtain ⟨i, id, rfl, hi⟩ := h.notifying completionCV hpc
    exact ⟨i, id, rfl, hpending i id hpc hi⟩

theorem Pending.of_calls {id : ℤ} {i : ℕ} (h : Pending st id i)
    (hcalls : next.calls[i]? = st.calls[i]?) : Pending next id i := by
  unfold Pending
  rw [hcalls]
  exact h

theorem Pending.set {id : ℤ} {i k : ℕ} {c d : Call} (h : Pending st id k)
    (here : st.calls[i]? = some c) (hcalls : next.calls = st.calls.set i d)
    (hd : c.pc.id = some id → inRequest c.pc = true → d.pc.id = some id ∧ inRequest d.pc = true) :
    Pending next id k := by
  by_cases hik : i = k
  · subst hik
    obtain ⟨e, he, hid, hin⟩ := h
    cases here.symm.trans he
    refine ⟨d, ?_, hd hid hin⟩
    rw [hcalls]
    exact List.getElem?_set_self (List.getElem?_eq_some_iff.1 here).1
  · exact h.of_calls (by rw [hcalls, List.getElem?_set_ne hik])

theorem Guarded.of_set (h : Guarded st) {i : ℕ} {c d : Call} (here : st.calls[i]? = some c)
    (hsocket : next.socket = st.socket) (hqueries : next.queries = st.queries)
    (hcalls : next.calls = st.calls.set i d)
    (hd : ∀ id, c.pc.id = some id → inRequest c.pc = true → Handles i id st.socket →
      d.pc.id = some id ∧ inRequest d.pc = true) : Guarded next := by
  refine h.keep hsocket ?_ ?_
  · rintro id hid ⟨query, k, hquery, hcv, hpending⟩
    refine ⟨query, k, by rw [hqueries]; exact hquery, hcv, hpending.set here hcalls ?_⟩
    exact fun hc hin => hd id hc hin (handles_of_dealsWith hid i)
  · intro k id hpc hpending
    by_cases hik : i = k
    · subst hik
      exact hpending.set here hcalls fun hc hin => hd id hc hin (by rw [hpc]; rfl)
    · exact hpending.of_calls (by rw [hcalls, List.getElem?_set_ne hik])

theorem Guarded.of_outside (h : Guarded st) {i : ℕ} {c d : Call} (here : st.calls[i]? = some c)
    (hsocket : next.socket = st.socket) (hqueries : next.queries = st.queries)
    (hcalls : next.calls = st.calls.set i d) (hout : inRequest c.pc = false) : Guarded next := by
  refine h.of_set here hsocket hqueries hcalls ?_
  intro _ _ hin _
  rw [hout] at hin
  cases hin

theorem query_of_some {id : ℤ} {query : JsonRpcQuery} (h : st.queries id = some query) :
    st.query id = query := by
  rw [State.query, h]
  rfl

theorem Guarded.register (h : Guarded st) {i : ℕ} {c : Call} (here : st.calls[i]? = some c)
    (hout : inRequest c.pc = false) (lastId : ℕ) (n : ℤ) :
    Guarded (((st.setLastId lastId).setQuery n (some ⟨.null, some i⟩)).setPc i c (.sending n)) := by
  have hset : ∀ id k, Pending st id k → Pending
      (((st.setLastId lastId).setQuery n (some ⟨.null, some i⟩)).setPc i c (.sending n)) id k := by
    intro id k hpending
    refine hpending.set here rfl ?_
    intro _ hin
    rw [hout] at hin
    cases hin
  refine h.keep rfl ?_ ?_
  · rintro id hid ⟨query, k, hquery, hcv, hpending⟩
    by_cases heq : id = n
    · subst heq
      have hnow := List.getElem?_set_self (a := { c with pc := .sending id })
        (List.getElem?_eq_some_iff.1 here).1
      exact ⟨⟨.null, some i⟩, i, Function.update_self .., rfl, _, hnow, rfl, rfl⟩
    · exact ⟨query, k, (Function.update_of_ne heq ..).trans hquery, hcv, hset id k hpending⟩
  · exact fun k id _ hpending => hset id k hpending

theorem Guarded.call (h : Guarded st) {i : ℕ} {c : Call} (here : st.calls[i]? = some c)
    (ht : ending st.connected c.pc = true → ∀ id ∈ c.pc.id, ¬ Handles i id st.socket)
    (hm : CallMove jsonrpcVersion st i c next) : Guarded next := by
  cases hm with
  | register pc => exact h.register here (by rw [pc]; rfl) _ _
  | @move id pc =>
    have hset : ∀ id' k, Pending st id' k → Pending ((st.setQuery id
        (some { st.query id with json := .null })).setPc i c (.moved id (st.query id).json)) id' k := by
      intro id' k hpending
      refine hpending.set here rfl ?_
      intro hc _
      rw [pc] at hc
      exact ⟨hc, rfl⟩
    refine h.keep rfl ?_ ?_
    · rintro id' hid ⟨query, k, hquery, hcv, hpending⟩
      by_cases heq : id' = id
      · subst heq
        refine ⟨{ query with json := .null }, k, ?_, hcv, hset id' k hpending⟩
        rw [← query_of_some hquery]
        exact Function.update_self ..
      · exact ⟨query, k, (Function.update_of_ne heq ..).trans hquery, hcv, hset id' k hpending⟩
    · exact fun k id' _ hpending => hset id' k hpending
  | @erase id result pc =>
    have hfree : ¬ Handles i id st.socket := by
      rw [pc] at ht
      exact ht rfl id rfl
    refine h.keep rfl ?_ ?_
    · rintro id' hid ⟨query, k, hquery, hcv, hpending⟩
      have hne : id' ≠ id := by
        rintro rfl
        exact hfree (handles_of_dealsWith hid i)
      refine ⟨query, k, (Function.update_of_ne hne ..).trans hquery, hcv, ?_⟩
      refine hpending.set here rfl ?_
      intro hc _
      rw [pc] at hc
      exact absurd (Option.some.inj hc).symm hne
    · intro k id' hpc hpending
      by_cases hik : i = k
      · subst hik
        refine absurd ?_ hfree
        rw [hpc]
        rfl
      · exact hpending.of_calls (List.getElem?_set_ne hik)
  | @refuse id pc down =>
    have hfree : ¬ Handles i id st.socket := by
      rw [pc, down] at ht
      exact ht rfl id rfl
    refine h.of_set here rfl rfl rfl ?_
    intro id' hc _ hhandles
    rw [pc] at hc
    cases hc
    exact absurd hhandles hfree
  | @send id pc up =>
    refine h.of_set here rfl rfl rfl ?_
    intro id' hc _ _
    rw [pc] at hc
    exact ⟨hc, rfl⟩
  | advance pc hq => exact h.keep rfl (fun _ _ hentered => hentered) fun _ _ _ hpending => hpending
  | decline pc task => exact h.of_outside here rfl rfl rfl (by rw [pc]; rfl)
  | observe pc task => exact h.of_outside here rfl rfl rfl (by rw [pc]; rfl)
  | forget pc task free => exact h.of_outside here rfl rfl rfl (by rw [pc]; rfl)
  | start pc => exact h.of_outside here rfl rfl rfl (by rw [pc]; rfl)
  | close pc task => exact h.of_outside here rfl rfl rfl (by rw [pc]; rfl)
  | closed pc done => exact h.of_outside here rfl rfl rfl (by rw [pc]; rfl)

theorem Guarded.idle {pc : SocketPc} (hnone : dealsWith pc = none) (hcv : ∀ cv, pc ≠ .notifying cv)
    (s : State) : Guarded (s.setSocket pc) := by
  constructor
  · intro id hid
    rw [show dealsWith (s.setSocket pc).socket = none from hnone] at hid
    cases hid
  · intro cv hpc
    exact absurd hpc (hcv cv)

theorem Guarded.socket (h : Guarded st) (ht : Timely st .socket) (hm : SocketMove st next) :
    Guarded next := by
  cases hm with
  | @respond json pc numbered present =>
    constructor
    · rintro id ⟨⟩
      obtain ⟨query, hquery⟩ := Option.isSome_iff_exists.1 present
      rw [Timely, pc] at ht
      obtain ⟨i, hcv, hpending⟩ := ht numbered query hquery
      exact ⟨query, i, hquery, hcv, hpending⟩
    · rintro cv ⟨⟩
  | @store id result pc free =>
    obtain ⟨query, i, hquery, hcv, hpending⟩ := h.entered id (by rw [pc]; rfl)
    constructor
    · rintro id' ⟨⟩
      refine ⟨{ query with json := result }, i, ?_, hcv, hpending⟩
      rw [← query_of_some hquery]
      exact Function.update_self ..
    · rintro cv ⟨⟩
  | @look id pc =>
    obtain ⟨query, i, hquery, hcv, hpending⟩ := h.entered id (by rw [pc]; rfl)
    constructor
    · rintro id' ⟨⟩
    · rintro cv ⟨⟩
      refine ⟨i, id, ?_, hpending⟩
      rw [query_of_some hquery]
      exact hcv
  | advance pc hq => exact h.keep rfl (fun _ _ hentered => hentered) fun _ _ _ hpending => hpending
  | enqueue => exact .idle rfl (by rintro cv ⟨⟩) _
  | skip => exact .idle rfl (by rintro cv ⟨⟩) _
  | notify => exact .idle rfl (by rintro cv ⟨⟩) _
  | returned => exact .idle rfl (by rintro cv ⟨⟩) _

theorem Guarded.step {e : Event} (h : Guarded st) (ht : Timely st e)
    (hst : step jsonrpcVersion st e = some next) : Guarded next := by
  cases e with
  | begin task =>
    cases hst
    have hold : ∀ id i, Pending st id i → Pending { st with calls := st.calls ++ [⟨task, .enter⟩] } id i := by
      intro id i hpending
      obtain ⟨c, hc, hrest⟩ := hpending
      exact ⟨c, (List.getElem?_append_left (List.getElem?_eq_some_iff.1 hc).1).trans hc, hrest⟩
    refine h.keep rfl ?_ ?_
    · rintro id _ ⟨query, i, hquery, hcv, hpending⟩
      exact ⟨query, i, hquery, hcv, hold id i hpending⟩
    · exact fun i id _ hpending => hold id i hpending
  | link up =>
    cases hst
    exact h.keep rfl (fun _ _ hentered => hentered) fun _ _ _ hpending => hpending
  | call i =>
    obtain ⟨c, hc, hst⟩ := Option.bind_eq_some_iff.1 hst
    exact h.call hc (ht c hc) (callStep_move hst)
  | wake i why =>
    obtain ⟨c, hc, hst⟩ := Option.bind_eq_some_iff.1 hst
    obtain ⟨id, notified, pc, rfl⟩ := wakeStep_eq_some hst
    refine h.of_set hc rfl rfl rfl ?_
    intro id' hid _ _
    rw [pc] at hid
    exact ⟨hid, rfl⟩
  | receive json =>
    obtain ⟨_, rfl⟩ := receive_eq_some hst
    split_ifs
    · exact .idle rfl (by rintro cv ⟨⟩) _
    · exact .idle rfl (by rintro cv ⟨⟩) _
  | socket => exact h.socket ht (socketStep_move hst)
  | consumer j =>
    obtain ⟨c, hc, hst⟩ := Option.bind_eq_some_iff.1 hst
    have hm := consumerStep_move hst
    cases hm <;> exact h.keep rfl (fun _ _ hentered => hentered) fun _ _ _ hpending => hpending

theorem Guarded.init : Guarded State.init := by
  constructor
  · rintro id ⟨⟩
  · rintro cv ⟨⟩

end Guard

section Notified

/-- A condition variable that `handleMessage` is about to notify lies on the stack of
a call that is inside `request`. -/
def NotifiesPending (st : State) : Prop :=
  ∀ completionCV, st.socket = .notifying completionCV → ∃ i id, completionCV = some i ∧ Pending st id i

theorem Guarded.entries_of_socket (h : Guarded st) (hm : SocketMove st next) {id : ℤ}
    (hid : st.queries id = none) : next.queries id = none := by
  have missing : ∀ requestId, dealsWith st.socket = some requestId → id ≠ requestId := by
    rintro requestId hpc rfl
    obtain ⟨query, i, hquery, _⟩ := h.entered id hpc
    rw [hid] at hquery
    cases hquery
  cases hm with
  | store pc free => exact (Function.update_of_ne (missing _ (by rw [pc]; rfl)) ..).trans hid
  | look pc => exact (Function.update_of_ne (missing _ (by rw [pc]; rfl)) ..).trans hid
  | notify pc =>
    unfold notifyAll
    split <;> exact hid
  | _ => exact hid

/-- As long as no call leaves `request` under the hands of `handleMessage`, only
variables of calls inside `request` are notified and `handleMessage` adds no entry. -/
theorem notified_calls_pending {es : List Event}
    (htimely : Along (step jsonrpcVersion) Timely State.init es)
    (hrun : run (step jsonrpcVersion) State.init es = some st) :
    NotifiesPending st ∧ ∀ next, step jsonrpcVersion st .socket = some next →
      ∀ id, st.queries id = none → next.queries id = none := by
  have hguarded : Guarded st := by
    apply run_invariant ?_ Guarded.init htimely hrun
    intro s e t hs he hst
    exact hs.step he hst
  refine ⟨hguarded.notifying, ?_⟩
  intro next hst id hid
  exact hguarded.entries_of_socket (socketStep_move hst) hid

/-- The reply to the first call comes before its time is over, a reply to the second
one comes after it has left. -/
def answeredInTime : List Event :=
  [.link true, .begin (.request .null), .begin (.request .null), .call 0, .call 0, .call 1, .call 1,
    .wake 1 .timeout, .call 1, .call 1, .receive (message 2 (.number 8)), .socket,
    .receive (message 1 (.number 7)), .socket, .socket, .socket]

theorem notified_calls_pending_answeredInTime :
    (finalState (step (lit "2.0")) State.init answeredInTime).socket = .notifying (some 0) ∧
      NotifiesPending (finalState (step (lit "2.0")) State.init answeredInTime) := by
  refine ⟨by decide +kernel, ?_⟩
  have hrun := run_finalState (step (lit "2.0")) State.init answeredInTime (by decide +kernel)
  exact (notified_calls_pending (by decide +kernel) hrun).1

/-- The time is over while `handleMessage` is between its look at the entry and
`notify_all`; the call returns, and with it goes the variable. -/
def answeredTooLate : List Event :=
  [.link true, .begin (.request .null), .call 0, .call 0, .receive (message 1 (.number 7)), .socket,
    .socket, .socket, .wake 0 .timeout, .call 0, .call 0]

theorem notified_calls_pending_fails :
    ¬ ∀ (es : List Event) (st : State), run (step (lit "2.0")) State.init es = some st →
      NotifiesPending st := by
  intro hall
  have hrun := run_finalState (step (lit "2.0")) State.init answeredTooLate (by decide +kernel)
  have hsocket : (finalState (step (lit "2.0")) State.init answeredTooLate).socket =
      .notifying (some 0) := by
    decide +kernel
  have hcalls : (finalState (step (lit "2.0")) State.init answeredTooLate).calls =
      [⟨.request .null, .answered 1 (.number 7)⟩] := by
    decide +kernel
  obtain ⟨i, id, hi, c, hc, _, hin⟩ := hall answeredTooLate _ hrun _ hsocket
  cases hi
  rw [hcalls] at hc
  cases hc
  cases hin

end Notified

section Leaving

theorem pc_of_setPc (s : State) {i : ℕ} {c d : Call} {pc : CallPc} (here : s.calls[i]? = some c)
    (hd : (s.setPc i c pc).calls[i]? = some d) : d.pc = pc := by
  have hnow : (s.setPc i c pc).calls[i]? = some { c with pc } :=
    List.getElem?_set_self (List.getElem?_eq_some_iff.1 here).1
  rw [hnow] at hd
  rw [← Option.some.inj hd]

theorem queries_setPc_setQuery (s : State) {i : ℕ} {c d : Call} {pc : CallPc} {k id : ℤ}
    {query : Option JsonRpcQuery} (here : s.calls[i]? = some c)
    (hd : ((s.setQuery k query).setPc i c pc).calls[i]? = some d) (hpc : pc.id = some k)
    (hid : d.pc.id ≠ some id) : ((s.setQuery k query).setPc i c pc).queries id = s.queries id := by
  rw [pc_of_setPc (s.setQuery k query) here hd, hpc] at hid
  apply Function.update_of_ne
  rintro rfl
  exact hid rfl

/-- A step of a call touches no entry but the one of its own number. -/
theorem queries_of_call {i : ℕ} {c d : Call} (hm : CallMove jsonrpcVersion st i c next)
    (here : st.calls[i]? = some c) (hd : next.calls[i]? = some d) {id : ℤ}
    (hid : d.pc.id ≠ some id) : next.queries id = st.queries id := by
  cases hm with
  | register => exact queries_setPc_setQuery (st.setLastId st.getNextId) here hd rfl hid
  | move => exact queries_setPc_setQuery st here hd rfl hid
  | erase => exact queries_setPc_setQuery st here hd rfl hid
  | _ => rfl

theorem queries_of_leaving {i : ℕ} {c d : Call} (hm : CallMove jsonrpcVersion st i c next)
    (here : st.calls[i]? = some c) (hd : next.calls[i]? = some d) (hin : inRequest c.pc = true)
    (hout : inRequest d.pc = false) {id : ℤ} (hid : c.pc.id = some id) :
    ((∃ result, c.pc = .moved id result) ∧ next.queries id = none) ∨
      c.pc = .sending id ∧ next.queries id = st.queries id := by
  have outside : inRequest c.pc = false → ((∃ result, c.pc = .moved id result) ∧
      next.queries id = none) ∨ c.pc = .sending id ∧ next.queries id = st.queries id := by
    intro hbefore
    rw [hbefore] at hin
    cases hin
  cases hm with
  | send pc =>
    rw [pc_of_setPc (st.addSent i _) here hd] at hout
    cases hout
  | refuse pc =>
    rw [pc] at hid
    cases hid
    exact Or.inr ⟨pc, rfl⟩
  | @move number pc =>
    rw [pc_of_setPc (st.setQuery number _) here hd] at hout
    cases hout
  | erase pc =>
    rw [pc] at hid
    cases hid
    exact Or.inl ⟨⟨_, pc⟩, Function.update_self ..⟩
  | decline pc => exact outside (by rw [pc]; rfl)
  | register pc => exact outside (by rw [pc]; rfl)
  | observe pc => exact outside (by rw [pc]; rfl)
  | forget pc => exact outside (by rw [pc]; rfl)
  | start pc => exact outside (by rw [pc]; rfl)
  | close pc => exact outside (by rw [pc]; rfl)
  | closed pc => exact outside (by rw [pc]; rfl)
  | advance pc => exact outside (by rw [pc]; rfl)

/-- A call keeps its hands off the entries of other numbers, and when it leaves
`request` its own entry is gone exactly if it does not leave by the exception, or
there was no entry of that number any more. -/
theorem request_entry_gone_iff {i : ℕ} {c d : Call}
    (hst : step jsonrpcVersion st (.call i) = some next) (hc : st.calls[i]? = some c)
    (hd : next.calls[i]? = some d) :
    (∀ id, d.pc.id ≠ some id → next.queries id = st.queries id) ∧
      (inRequest c.pc = true → inRequest d.pc = false → ∀ id, c.pc.id = some id →
        (next.queries id = none ↔ (c.pc = .sending id → st.queries id = none))) := by
  obtain ⟨c', hc', hcall⟩ := Option.bind_eq_some_iff.1 hst
  cases hc.symm.trans hc'
  have hm := callStep_move hcall
  refine ⟨fun id hid => queries_of_call hm hc hd hid, ?_⟩
  intro hin hout id hid
  rcases queries_of_leaving hm hc hd hin hout hid with ⟨⟨result, hpc⟩, hnone⟩ | ⟨hpc, hsame⟩
  · refine ⟨fun _ hsending => ?_, fun _ => hnone⟩
    rw [hpc] at hsending
    cases hsending
  · rw [hsame]
    exact ⟨fun h _ => h, fun h => h hpc⟩

def timedOut : List Event :=
  [.link true, .begin (.request .null), .call 0, .call 0, .wake 0 .timeout, .call 0]

theorem request_entry_gone_iff_timedOut :
    (finalState (step (lit "2.0")) State.init timedOut).queries 1 ≠ none ∧
      (finalState (step (lit "2.0")) State.init (timedOut ++ [.call 0])).queries 1 = none := by
  have hst := step_finalState (step (lit "2.0")) State.init timedOut (.call 0) (by decide +kernel)
  have hc : (finalState (step (lit "2.0")) State.init timedOut).calls[0]? =
      some ⟨.request .null, .moved 1 .null⟩ := by
    decide +kernel
  have hd : (finalState (step (lit "2.0")) State.init (timedOut ++ [.call 0])).calls[0]? =
      some ⟨.request .null, .answered 1 .null⟩ := by
    decide +kernel
  refine ⟨Option.isSome_iff_ne_none.1 (by decide +kernel), ?_⟩
  refine ((request_entry_gone_iff hst hc hd).2 rfl rfl 1 rfl).2 ?_
  intro hsending
  cases hsending

def unconnected : List Event := [.begin (.request .null), .call 0]

theorem request_entry_gone_fails :
    ¬ ∀ (st next : State) (i : ℕ) (c d : Call) (id : ℤ),
      Reachable (step (lit "2.0")) State.init st → step (lit "2.0") st (.call i) = some next →
      st.calls[i]? = some c → next.calls[i]? = some d → inRequest c.pc = true →
      inRequest d.pc = false → c.pc.id = some id → next.queries id = none := by
  intro hall
  have hrun := run_finalState (step (lit "2.0")) State.init unconnected (by decide +kernel)
  have hst := step_finalState (step (lit "2.0")) State.init unconnected (.call 0) (by decide +kernel)
  have hc : (finalState (step (lit "2.0")) State.init unconnected).calls[0]? =
      some ⟨.request .null, .sending 1⟩ := by
    decide +kernel
  have hd : (finalState (step (lit "2.0")) State.init (unconnected ++ [.call 0])).calls[0]? =
      some ⟨.request .null, .threw 1⟩ := by
    decide +kernel
  have hremains : ((finalState (step (lit "2.0")) State.init
      (unconnected ++ [.call 0])).queries 1).isSome := by
    decide +kernel
  rw [hall _ _ 0 _ _ 1 ⟨_, hrun⟩ hst hc hd rfl rfl rfl] at hremains
  cases hremains

end Leaving

section Registered

def Registered (st : State) : Prop :=
  ∀ (i : ℕ) (c : Call) (id : ℤ), st.calls[i]? = some c → inRequest c.pc = true →
    c.pc.id = some id → st.queries id ≠ none

theorem Registered.of_queries (h : Registered st) (hcalls : next.calls = st.calls)
    (hqueries : ∀ id, st.queries id ≠ none → next.queries id ≠ none) : Registered next := by
  intro i c id hc hin hid
  rw [hcalls] at hc
  exact hqueries id (h i c id hc hin hid)

theorem Registered.set (h : Registered st) {i : ℕ} {d : Call}
    (hcalls : next.calls = st.calls.set i d)
    (hqueries : ∀ j c id, j ≠ i → st.calls[j]? = some c → c.pc.id = some id →
      st.queries id ≠ none → next.queries id ≠ none)
    (hd : ∀ id, inRequest d.pc = true → d.pc.id = some id → next.queries id ≠ none) :
    Registered next := by
  intro j c id hc hin hid
  rw [hcalls] at hc
  rcases getElem?_set_cases hc with ⟨_, rfl⟩ | ⟨hne, hc⟩
  · exact hd id hin hid
  · exact hqueries j c id hne hc hid (h j c id hc hin hid)

theorem update_ne_none {queries : ℤ → Option JsonRpcQuery} {k id : ℤ} {query : JsonRpcQuery}
    (h : queries id ≠ none) : Function.update queries k (some query) id ≠ none := by
  by_cases heq : id = k
  · subst heq
    rw [Function.update_self]
    exact Option.some_ne_none query
  · rwa [Function.update_of_ne heq]

theorem Registered.call (h : Registered st) {i : ℕ} {c : Call} (here : st.calls[i]? = some c)
    (hnumbered : Numbered st.lastId st.calls) (hm : CallMove jsonrpcVersion st i c next) :
    Registered next := by
  -- a step that leaves the map alone and takes the call out of `request`, or does not let it in
  have outside : ∀ (s : State) pc, s.calls = st.calls → s.queries = st.queries →
      inRequest pc = false → Registered (s.setPc i c pc) := by
    intro s pc hcalls hqueries hpc
    have hset : (s.setPc i c pc).calls = st.calls.set i { c with pc } := by
      rw [← hcalls]
      rfl
    refine h.set hset ?_ ?_
    · intro j d id _ _ _ hid
      change s.queries id ≠ none
      rwa [hqueries]
    · intro id hin _
      rw [hpc] at hin
      cases hin
  cases hm with
  | register pc =>
    generalize asInt st.getNextId = number
    refine h.set rfl ?_ ?_
    · exact fun _ _ _ _ _ _ hid => update_ne_none hid
    · rintro id _ ⟨⟩
      exact ne_of_eq_of_ne (Function.update_self ..) (Option.some_ne_none _)
  | send pc up =>
    refine h.set rfl (fun _ _ _ _ _ _ hid => hid) ?_
    intro id _ hid
    exact h i c id here (by rw [pc]; rfl) (by rw [pc]; exact hid)
  | move pc =>
    refine h.set rfl (fun _ _ _ _ _ _ hid => update_ne_none hid) ?_
    intro id _ hid
    exact update_ne_none (h i c id here (by rw [pc]; rfl) (by rw [pc]; exact hid))
  | @erase number result pc =>
    refine h.set rfl ?_ ?_
    · intro j d id hne hd hid hentry
      have hother : id ≠ number := by
        rintro rfl
        exact hne (hnumbered.distinct j i d c id hd here hid (by rw [pc]; rfl))
      exact ne_of_eq_of_ne (Function.update_of_ne hother ..) hentry
    · intro id hin _
      cases hin
  | advance pc hq => exact h.of_queries rfl fun _ hid => hid
  | decline => exact outside st _ rfl rfl rfl
  | refuse => exact outside st _ rfl rfl rfl
  | observe => exact outside _ _ rfl rfl rfl
  | forget => exact outside _ _ rfl rfl rfl
  | start => exact outside _ _ rfl rfl rfl
  | close => exact outside _ _ rfl rfl rfl
  | closed => exact outside st _ rfl rfl rfl

theorem Registered.move (h : Registered st) (hnumbered : Numbered st.lastId st.calls)
    (hm : Move jsonrpcVersion st next) : Registered next := by
  cases hm with
  | begin task =>
    intro i c id hc hin hid
    rcases getElem?_concat_cases hc with hc | ⟨_, rfl⟩
    · exact h i c id hc hin hid
    · cases hin
  | link up => exact h
  | call here hc => exact h.call here hnumbered hc
  | wake here pc =>
    refine h.set rfl (fun _ _ _ _ _ _ hid => hid) ?_
    intro id _ hid
    exact h _ _ id here (by rw [pc]; rfl) (by rw [pc]; exact hid)
  | receive pc => exact h
  | socket hs =>
    cases hs with
    | store => exact h.of_queries rfl fun _ hid => update_ne_none hid
    | look => exact h.of_queries rfl fun _ hid => update_ne_none hid
    | notify =>
      unfold notifyAll
      split
      · next task id notified here =>
        refine h.set rfl (fun _ _ _ _ _ _ hid => hid) ?_
        exact fun id' _ hid => h _ _ id' here rfl hid
      · exact h
    | _ => exact h
  | consumer here hc => cases hc <;> exact h

/-- As long as the numbers have not come round, a call inside `request` has its entry:
the exception always leaves it behind. -/
theorem registered_of_reachable (h : Reachable (step jsonrpcVersion) State.init st)
    (hn : requests st.calls < 2 ^ 31 - 1) : Registered st := by
  have hboth : Invariant jsonrpcVersion st ∧ (requests st.calls < 2 ^ 31 - 1 → Registered st) := by
    apply h.invariant
    · rintro s e t ⟨hinv, hreg⟩ hst
      have hm := step_move hst
      refine ⟨hinv.step hst, ?_⟩
      intro ht
      have hle := (Move.change hm).requests_le
      exact (hreg (by omega)).move (hinv.numbered (by omega)) hm
    · refine ⟨.init, ?_⟩
      intro _ i c id hc
      simp [State.init] at hc
  exact hboth.2 hn

end Registered

end PolkadotApi.QueryEntries
