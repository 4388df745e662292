import PolkadotApi.JsonRpcThreads

set_option autoImplicit false

namespace PolkadotApi.RequestReplies
open StepRuns MachineModel JsonValues JsonRpcThreads

variable {jsonrpcVersion : Str} {st next : State}

/-- What the caller numbered `id` may be given once `received` has come in. -/
def Reply (received : List Json) (id : ℤ) (result : Json) : Prop :=
  result = .null ∨ ∃ json ∈ received, requestId json = id ∧ json.field "result" = result

section Results

def resultOf : CallPc → Option (ℤ × Json)
  | .moved id result => some (id, result)
  | .answered id result => some (id, result)
  | _ => none

structure Replies (received : List Json) (socket : SocketPc) (queries : ℤ → Option JsonRpcQuery)
    (calls : List Call) : Prop where
  testing : ∀ json, socket = .testing json → json ∈ received
  matched : ∀ id result, socket = .matched id result → Reply received id result
  stored : ∀ id query, queries id = some query → Reply received id query.json
  held : ∀ c ∈ calls, ∀ id result, resultOf c.pc = some (id, result) → Reply received id result

def StateReplies (st : State) : Prop := Replies st.received st.socket st.queries st.calls

theorem StateReplies.setPc (h : StateReplies st) {i : ℕ} {c : Call} {pc : CallPc}
    (hr : ∀ id result, resultOf pc = some (id, result) → Reply st.received id result) :
    StateReplies (st.setPc i c pc) := by
  refine ⟨h.testing, h.matched, h.stored, ?_⟩
  intro d hd
  rcases List.mem_or_eq_of_mem_set hd with hd | rfl
  · exact h.held d hd
  · exact hr

theorem StateReplies.setQuiet (h : StateReplies st) {i : ℕ} {c : Call} {pc : CallPc}
    (hpc : resultOf pc = none) : StateReplies (st.setPc i c pc) := by
  apply h.setPc
  intro id result hr
  rw [hpc] at hr
  cases hr

theorem StateReplies.setQuery (h : StateReplies st) {id : ℤ} {query : Option JsonRpcQuery}
    (hq : ∀ q, query = some q → Reply st.received id q.json) :
    StateReplies (st.setQuery id query) := by
  refine ⟨h.testing, h.matched, ?_, h.held⟩
  intro k q hk
  by_cases he : k = id
  · subst k
    exact hq q (by simpa [State.setQuery] using hk)
  · exact h.stored k q (by simpa [State.setQuery, he] using hk)

theorem StateReplies.query (h : StateReplies st) (id : ℤ) :
    Reply st.received id (st.query id).json := by
  unfold State.query
  cases hq : st.queries id with
  | none => exact Or.inl rfl
  | some q => exact h.stored id q hq

theorem StateReplies.setSocket (h : StateReplies st) {pc : SocketPc}
    (ht : ∀ json, pc = .testing json → json ∈ st.received)
    (hm : ∀ id result, pc = .matched id result → Reply st.received id result) :
    StateReplies (st.setSocket pc) := ⟨ht, hm, h.stored, h.held⟩

theorem Reply.mono {received : List Json} {id : ℤ} {result : Json}
    (h : Reply received id result) (json : Json) : Reply (received ++ [json]) id result := by
  rcases h with h | ⟨m, hm, h⟩
  · exact Or.inl h
  · exact Or.inr ⟨m, List.mem_append_left _ hm, h⟩

theorem StateReplies.call (h : StateReplies st) {i : ℕ} {c : Call} (here : st.calls[i]? = some c)
    (hc : CallMove jsonrpcVersion st i c next) : StateReplies next := by
  have hheld := h.held c (List.mem_of_getElem? here)
  cases hc with
  | register =>
    have hq : StateReplies (st.setQuery (asInt st.getNextId) (some ⟨.null, some i⟩)) := by
      apply h.setQuery
      rintro q ⟨⟩
      exact Or.inl rfl
    exact StateReplies.setQuiet hq rfl
  | @move id =>
    have hq : StateReplies (st.setQuery id (some { st.query id with json := .null })) := by
      apply h.setQuery
      rintro q ⟨⟩
      exact Or.inl rfl
    apply hq.setPc
    rintro _ _ ⟨⟩
    exact h.query id
  | @erase id result pc =>
    have hq : StateReplies (st.setQuery id none) := h.setQuery (by rintro q ⟨⟩)
    apply hq.setPc
    rintro _ _ ⟨⟩
    exact hheld id result (by rw [pc]; rfl)
  | send => exact StateReplies.setQuiet h rfl
  | observe => exact StateReplies.setQuiet h rfl
  | forget => exact StateReplies.setQuiet h rfl
  | start => exact StateReplies.setQuiet h rfl
  | close => exact StateReplies.setQuiet h rfl
  | advance => exact h
  | _ => exact h.setQuiet rfl

theorem StateReplies.socket (h : StateReplies st) (hs : SocketMove st next) :
    StateReplies next := by
  cases hs with
  | @respond json pc _ =>
    apply h.setSocket (by rintro _ ⟨⟩)
    rintro _ _ ⟨⟩
    exact Or.inr ⟨json, h.testing json pc, rfl, rfl⟩
  | enqueue =>
    exact StateReplies.setSocket h (by rintro _ ⟨⟩) (by rintro _ _ ⟨⟩)
  | skip => exact h.setSocket (by rintro _ ⟨⟩) (by rintro _ _ ⟨⟩)
  | @store id result pc =>
    have hq : StateReplies (st.setQuery id (some { st.query id with json := result })) := by
      apply h.setQuery
      rintro q ⟨⟩
      exact h.matched id result pc
    exact StateReplies.setSocket hq (by rintro _ ⟨⟩) (by rintro _ _ ⟨⟩)
  | @look id pc =>
    have hq : StateReplies (st.setQuery id (some (st.query id))) := by
      apply h.setQuery
      rintro q ⟨⟩
      exact h.query id
    exact StateReplies.setSocket hq (by rintro _ ⟨⟩) (by rintro _ _ ⟨⟩)
  | @notify i pc =>
    have hn : StateReplies (notifyAll st i) := by
      unfold notifyAll
      split
      · exact h.setQuiet rfl
      · exact h
    exact hn.setSocket (by rintro _ ⟨⟩) (by rintro _ _ ⟨⟩)
  | returned => exact h.setSocket (by rintro _ ⟨⟩) (by rintro _ _ ⟨⟩)
  | advance => exact h

theorem StateReplies.move (h : StateReplies st) (hm : Move jsonrpcVersion st next) :
    StateReplies next := by
  cases hm with
  | begin task =>
    refine ⟨h.testing, h.matched, h.stored, ?_⟩
    intro c hc
    rcases List.mem_append.1 hc with hc | hc
    · exact h.held c hc
    · obtain rfl := List.mem_singleton.1 hc
      rintro _ _ ⟨⟩
  | link up => exact h
  | call here hc => exact h.call here hc
  | wake here pc => exact h.setQuiet rfl
  | @receive json pc =>
    have hr : StateReplies { st with received := st.received ++ [json] } := by
      refine ⟨?_, ?_, fun id q hq => (h.stored id q hq).mono json,
        fun c hc id result hr => (h.held c hc id result hr).mono json⟩
      · intro j hj
        exact List.mem_append_left _ (h.testing j hj)
      · intro id result hs
        exact (h.matched id result hs).mono json
    apply hr.setSocket
    · intro j hj
      split_ifs at hj
      cases hj
      exact List.mem_append_right _ (List.mem_singleton_self _)
    · intro id result hs
      split_ifs at hs
  | socket hs => exact h.socket hs
  | consumer here hc =>
    cases hc with
    | _ => exact h

end Results

section Numbers

def requests (calls : List Call) : ℕ := calls.countP (fun c => c.pc.id.isSome)

structure Numbered (lastId : ℕ) (calls : List Call) : Prop where
  counted : lastId = requests calls
  range : ∀ c ∈ calls, ∀ id, c.pc.id = some id → 1 ≤ id ∧ id ≤ lastId
  distinct : ∀ (i j : ℕ) (c d : Call) (id : ℤ), calls[i]? = some c → calls[j]? = some d →
    c.pc.id = some id → d.pc.id = some id → i = j

theorem requests_append (calls : List Call) (task : Task) :
    requests (calls ++ [⟨task, .enter⟩]) = requests calls := by
  simp [requests, CallPc.id]

theorem requests_set {calls : List Call} {i : ℕ} {c : Call} (here : calls[i]? = some c)
    (pc : CallPc) : requests (calls.set i { c with pc }) + (if c.pc.id.isSome then 1 else 0) =
      requests calls + (if pc.id.isSome then 1 else 0) := by
  obtain ⟨hi, rfl⟩ := List.getElem?_eq_some_iff.1 here
  have hpos : calls[i].pc.id.isSome → 0 < requests calls := by
    intro h
    exact List.countP_pos_iff.2 ⟨_, List.getElem_mem hi, h⟩
  rw [requests, requests, List.countP_set hi]
  rw [requests] at hpos
  split_ifs with hc hp hp
  · have := hpos hc
    omega
  · have := hpos hc
    omega
  · omega
  · omega

theorem Numbered.set {lastId : ℕ} {calls : List Call} (h : Numbered lastId calls) {i : ℕ}
    {c : Call} (here : calls[i]? = some c) {pc : CallPc} (hpc : pc.id = c.pc.id) :
    Numbered lastId (calls.set i { c with pc }) := by
  constructor
  · have hset := requests_set here pc
    rw [hpc] at hset
    rw [h.counted]
    omega
  · intro d hd id hid
    rcases List.mem_or_eq_of_mem_set hd with hd | rfl
    · exact h.range d hd id hid
    · exact h.range c (List.mem_of_getElem? here) id (hpc.symm.trans hid)
  · have old : ∀ (j : ℕ) (d : Call) (id : ℤ), (calls.set i { c with pc })[j]? = some d → d.pc.id = some id →
        ∃ e, calls[j]? = some e ∧ e.pc.id = some id := by
      intro j d id hj hid
      rcases getElem?_set_cases hj with ⟨rfl, rfl⟩ | ⟨-, hj⟩
      · exact ⟨c, here, hpc.symm.trans hid⟩
      · exact ⟨d, hj, hid⟩
    intro a b d e id ha hb hd he
    obtain ⟨d', ha', hd'⟩ := old a d id ha hd
    obtain ⟨e', hb', he'⟩ := old b e id hb he
    exact h.distinct a b d' e' id ha' hb' hd' he'

theorem Numbered.register {lastId : ℕ} {calls : List Call} (h : Numbered lastId calls) {i : ℕ}
    {c : Call} (here : calls[i]? = some c) (hc : c.pc = .enter) :
    Numbered (lastId + 1) (calls.set i { c with pc := .sending (lastId + 1 : ℕ) }) := by
  have fresh : ∀ j d, (calls.set i { c with pc := .sending (lastId + 1 : ℕ) })[j]? = some d →
      ∀ id : ℤ, d.pc.id = some id → j = i ∧ id = (lastId + 1 : ℕ) ∨
        id ≤ lastId ∧ calls[j]? = some d := by
    intro j d hj id hid
    rcases getElem?_set_cases hj with ⟨rfl, rfl⟩ | ⟨-, hj⟩
    · exact Or.inl ⟨rfl, (Option.some.inj hid).symm⟩
    · exact Or.inr ⟨(h.range d (List.mem_of_getElem? hj) id hid).2, hj⟩
  constructor
  · have hset := requests_set here (.sending (lastId + 1 : ℕ))
    rw [hc] at hset
    simp only [CallPc.id, Option.isSome_none, Option.isSome_some, if_true] at hset
    have hcount := h.counted
    simp only [Bool.false_eq_true, if_false] at hset
    omega
  · intro d hd id hid
    rcases List.mem_or_eq_of_mem_set hd with hd | rfl
    · have hr := h.range d hd id hid
      omega
    · cases hid
      omega
  · intro a b d e id ha hb hd he
    rcases fresh a d ha id hd with ⟨rfl, hida⟩ | ⟨hle, ha'⟩
    · rcases fresh b e hb id he with ⟨rfl, -⟩ | ⟨hle, -⟩
      · rfl
      · omega
    · rcases fresh b e hb id he with ⟨rfl, hidb⟩ | ⟨-, hb'⟩
      · omega
      · exact h.distinct a b d e id ha' hb' hd he

theorem asInt_getNextId (h : st.lastId < 2 ^ 31 - 1) :
    st.getNextId = st.lastId + 1 ∧ asInt st.getNextId = (st.lastId + 1 : ℕ) := by
  have hnext : st.getNextId = st.lastId + 1 := Nat.mod_eq_of_lt (by omega)
  rw [hnext]
  exact ⟨rfl, asInt_of_small (by omega)⟩

/-- What a step can do to the list of calls: only a call without a number gets
one, and it is the next. -/
inductive CallsChange (st next : State) : Prop where
  | same (id : next.lastId = st.lastId) (calls : next.calls = st.calls)
  | append (task : Task) (id : next.lastId = st.lastId)
      (calls : next.calls = st.calls ++ [⟨task, .enter⟩])
  | set {i : ℕ} {c : Call} (pc : CallPc) (here : st.calls[i]? = some c) (same : pc.id = c.pc.id)
      (id : next.lastId = st.lastId) (calls : next.calls = st.calls.set i { c with pc })
  | register {i : ℕ} {c : Call} (here : st.calls[i]? = some c) (pc : c.pc = .enter)
      (id : next.lastId = st.getNextId)
      (calls : next.calls = st.calls.set i { c with pc := .sending (asInt st.getNextId) })

theorem CallMove.change {i : ℕ} {c : Call} (here : st.calls[i]? = some c)
    (hm : CallMove jsonrpcVersion st i c next) : CallsChange st next := by
  cases hm with
  | register pc => exact .register here pc rfl rfl
  | advance => exact .same rfl rfl
  | decline pc => exact .set _ here (by rw [pc]; rfl) rfl rfl
  | send pc => exact .set _ here (by rw [pc]; rfl) rfl rfl
  | refuse pc => exact .set _ here (by rw [pc]; rfl) rfl rfl
  | move pc => exact .set _ here (by rw [pc]; rfl) rfl rfl
  | erase pc => exact .set _ here (by rw [pc]; rfl) rfl rfl
  | observe pc => exact .set _ here (by rw [pc]; rfl) rfl rfl
  | forget pc => exact .set _ here (by rw [pc]; rfl) rfl rfl
  | start pc => exact .set _ here (by rw [pc]; rfl) rfl rfl
  | close pc => exact .set _ here (by rw [pc]; rfl) rfl rfl
  | closed pc => exact .set _ here (by rw [pc]; rfl) rfl rfl

theorem Move.change (hm : Move jsonrpcVersion st next) : CallsChange st next := by
  cases hm with
  | begin task => exact .append task rfl rfl
  | link up => exact .same rfl rfl
  | call here hc => exact CallMove.change here hc
  | wake here pc => exact .set _ here (by rw [pc]; rfl) rfl rfl
  | receive pc => exact .same rfl rfl
  | socket hs =>
    cases hs with
    | @notify i pc =>
      unfold notifyAll
      split
      · next task id notified here => exact .set (.waiting id true) here rfl rfl rfl
      · exact .same rfl rfl
    | _ => exact .same rfl rfl
  | consumer here hc => cases hc <;> exact .same rfl rfl

theorem CallsChange.requests_le (h : CallsChange st next) :
    requests st.calls ≤ requests next.calls := by
  cases h with
  | same _ calls => rw [calls]
  | append task _ calls => rw [calls, requests_append]
  | set pc here same _ calls =>
    have hset := requests_set here pc
    rw [same] at hset
    rw [calls]
    omega
  | register here pc _ calls =>
    have hset := requests_set here (.sending (asInt st.getNextId))
    rw [pc] at hset
    simp only [CallPc.id, Option.isSome_none, Option.isSome_some, Bool.false_eq_true, if_true,
      if_false] at hset
    rw [calls]
    omega

theorem Numbered.change (h : Numbered st.lastId st.calls) (hc : CallsChange st next)
    (hn : requests st.calls < 2 ^ 31 - 1) : Numbered next.lastId next.calls := by
  cases hc with
  | same id calls => rwa [id, calls]
  | append task id calls =>
    rw [id, calls]
    have old : ∀ (j : ℕ) (d : Call) (k : ℤ), (st.calls ++ [⟨task, .enter⟩])[j]? = some d →
        d.pc.id = some k → st.calls[j]? = some d := by
      intro j d k hj hd
      rcases getElem?_concat_cases hj with hj | ⟨-, rfl⟩
      · exact hj
      · cases hd
    constructor
    · rw [requests_append]
      exact h.counted
    · intro c hc k hk
      rcases List.mem_append.1 hc with hc | hc
      · exact h.range c hc k hk
      · obtain rfl := List.mem_singleton.1 hc
        cases hk
    · intro a b d e k ha hb hd he
      exact h.distinct a b d e k (old a d k ha hd) (old b e k hb he) hd he
  | set pc here same id calls =>
    rw [id, calls]
    exact h.set here same
  | register here pc id calls =>
    have hlast : st.lastId < 2 ^ 31 - 1 := by
      rw [h.counted]
      exact hn
    have hnext := asInt_getNextId hlast
    rw [id, calls, hnext.2, hnext.1]
    exact h.register here pc

end Numbers

section Sending

def sentId : CallPc → Option ℤ
  | .sending _ => none
  | .threw _ => none
  | pc => pc.id

def Sent (jsonrpcVersion : Str) (st : State) : Prop :=
  ∀ (i : ℕ) (c : Call) (id : ℤ), st.calls[i]? = some c → sentId c.pc = some id →
    (i, requestMessage jsonrpcVersion id c.task.jsonMap) ∈ st.sent

theorem Sent.keep (h : Sent jsonrpcVersion st) {i : ℕ} {c : Call} {pc : CallPc}
    (here : st.calls[i]? = some c) (hcalls : next.calls = st.calls.set i { c with pc })
    (hsent : next.sent = st.sent) (hpc : ∀ id, sentId pc = some id → sentId c.pc = some id) :
    Sent jsonrpcVersion next := by
  intro j d id hj hd
  rw [hcalls] at hj
  rw [hsent]
  rcases getElem?_set_cases hj with ⟨rfl, rfl⟩ | ⟨-, hj⟩
  · exact h j c id here (hpc id hd)
  · exact h j d id hj hd

theorem Sent.call (h : Sent jsonrpcVersion st) {i : ℕ} {c : Call} (here : st.calls[i]? = some c)
    (hm : CallMove jsonrpcVersion st i c next) : Sent jsonrpcVersion next := by
  cases hm with
  | @send id pc up =>
    intro j d k hj hd
    rcases getElem?_set_cases hj with ⟨rfl, rfl⟩ | ⟨-, hj⟩
    · cases hd
      exact List.mem_append_right _ (List.mem_singleton_self _)
    · exact List.mem_append_left _ (h j d k hj hd)
  | advance => exact h
  | decline pc => exact h.keep here rfl rfl (by rintro _ ⟨⟩)
  | register pc => exact h.keep here rfl rfl (by rintro _ ⟨⟩)
  | refuse pc => exact h.keep here rfl rfl (by rintro _ ⟨⟩)
  | move pc => exact h.keep here rfl rfl (by rw [pc]; exact fun _ hk => hk)
  | erase pc => exact h.keep here rfl rfl (by rw [pc]; exact fun _ hk => hk)
  | observe pc => exact h.keep here rfl rfl (by rw [pc]; exact fun _ hk => hk)
  | forget pc => exact h.keep here rfl rfl (by rw [pc]; exact fun _ hk => hk)
  | start pc => exact h.keep here rfl rfl (by rw [pc]; exact fun _ hk => hk)
  | close pc => exact h.keep here rfl rfl (by rw [pc]; exact fun _ hk => hk)
  | closed pc => exact h.keep here rfl rfl (by rw [pc]; exact fun _ hk => hk)

theorem Sent.move (h : Sent jsonrpcVersion st) (hm : Move jsonrpcVersion st next) :
    Sent jsonrpcVersion next := by
  cases hm with
  | begin task =>
    intro j d id hj hd
    rcases getElem?_concat_cases hj with hj | ⟨-, rfl⟩
    · exact h j d id hj hd
    · cases hd
  | link up => exact h
  | call here hc => exact h.call here hc
  | wake here pc => exact h.keep here rfl rfl (by rw [pc]; exact fun _ hk => hk)
  | receive pc => exact h
  | socket hs =>
    cases hs with
    | @notify i pc =>
      unfold notifyAll
      split
      · next task id notified here =>
        exact h.keep here rfl rfl (fun _ hk => hk)
      · exact h
    | _ => exact h
  | consumer here hc => cases hc <;> exact h

end Sending

section Delivery

structure Invariant (jsonrpcVersion : Str) (st : State) : Prop where
  replies : StateReplies st
  sent : Sent jsonrpcVersion st
  numbered : requests st.calls < 2 ^ 31 - 1 → Numbered st.lastId st.calls

theorem Invariant.init : Invariant jsonrpcVersion State.init := by
  constructor
  · constructor <;> simp [State.init]
  · intro i c id hc
    simp [State.init] at hc
  · intro
    constructor <;> simp [State.init, requests]

theorem Invariant.step {e : Event} (h : Invariant jsonrpcVersion st)
    (he : step jsonrpcVersion st e = some next) : Invariant jsonrpcVersion next := by
  have hm := step_move he
  have hchange := Move.change hm
  refine ⟨h.replies.move hm, h.sent.move hm, ?_⟩
  intro hn
  have hle := hchange.requests_le
  exact (h.numbered (by omega)).change hchange (by omega)

theorem invariant_of_reachable (h : Reachable (step jsonrpcVersion) State.init st) :
    Invariant jsonrpcVersion st :=
  h.invariant (fun _ _ _ hs he => hs.step he) .init

def message (id : ℤ) (result : Json) : Json :=
  .object [(lit "id", .number id), (lit "result", result)]

/-- Two callers; the reply to the first one comes twice, the second one gives up. -/
def twoCallers : List Event :=
  [.link true, .begin (.request .null), .begin (.request .null), .call 1, .call 0, .call 0, .call 1,
    .receive (message 1 (.number 7)), .socket, .socket, .socket, .socket, .wake 1 .notified,
    .receive (message 1 (.number 8)), .socket, .call 1, .call 1, .wake 0 .timeout, .call 0, .call 0]

end Delivery

end PolkadotApi.RequestReplies
