import PolkadotApi.JsonValues
import PolkadotApi.QueueLaws

set_option autoImplicit false

/-!
Callers of `request`, `subscribeWs` and `unsubscribeWs`, the socket thread in
`handleMessage` and one consumer thread for each `subscribeWs` share the map of
queries, the map of observers and the response queue. A step of a thread is one
access to what is shared. The first critical section of `request` has one such
access and is one step; `handleMessage` writes and reads the query map under the
mutex in two steps, since `request` erases its entry without the mutex.
-/
namespace PolkadotApi.JsonRpcThreads
open StepRuns StreamReader MachineModel JsonValues ConcurrentMapQueue

def RESPONSE_QUEUE_MAX_SIZE : ℤ := 128

def INT_MAX : ℤ := 2 ^ 31 - 1

/-- `completionCV` is named by the call on whose stack it lies; `none` is null. -/
structure JsonRpcQuery where
  json : Json
  completionCV : Option ℕ

/-- What a thread calls; observers are told apart by numbers. -/
inductive Task where
  | request (jsonMap : Json)
  | subscribeWs (jsonMap : Json) (observer : ℕ)
  | unsubscribeWs (subscriptionId : ℤ) (method : Str)
  deriving DecidableEq

def Task.jsonMap : Task → Json
  | request jsonMap => jsonMap
  | subscribeWs jsonMap _ => jsonMap
  | unsubscribeWs subscriptionId method =>
    .object [(lit "method", .string (cstr method)), (lit "params", .array [.number subscriptionId])]

inductive CallPc where
  | enter
  | sending (id : ℤ)
  | waiting (id : ℤ) (notified : Bool)
  | woken (id : ℤ)
  | moved (id : ℤ) (result : Json)
  | answered (id : ℤ) (result : Json)
  | threw (id : ℤ)
  | observing (id subscriptionId : ℤ)
  | subscribed (id subscriptionId : ℤ)
  | released (id : ℤ)
  | closing (id : ℤ) (op : ℕ)
  | unsubscribed (id : Option ℤ)
  deriving DecidableEq

def CallPc.id : CallPc → Option ℤ
  | enter => none
  | sending id => some id
  | waiting id _ => some id
  | woken id => some id
  | moved id _ => some id
  | answered id _ => some id
  | threw id => some id
  | observing id _ => some id
  | subscribed id _ => some id
  | released id => some id
  | closing id _ => some id
  | unsubscribed id => id

structure Call where
  task : Task
  pc : CallPc
  deriving DecidableEq

inductive SocketPc where
  | idle
  | testing (json : Json)
  | matched (requestId : ℤ) (result : Json)
  | stored (requestId : ℤ)
  | notifying (completionCV : Option ℕ)
  | putting (op : ℕ)
  deriving DecidableEq

inductive ConsumerPc where
  | start
  | getting (op : ℕ)
  | dispatching (message : Json)
  | ended
  deriving DecidableEq

structure Consumer where
  subscriptionId : ℤ
  startedBy : ℕ
  pc : ConsumerPc
  deriving DecidableEq

inductive Thread where
  | socket
  | consumer (j : ℕ)
  | caller (i : ℕ)
  deriving DecidableEq

/-- `sent`, `received`, `arrived` and `handed` record what went over the socket,
the notifications given to the queue, and the calls of `handleWsMessage`. -/
structure State where
  lastId : ℕ
  queries : ℤ → Option JsonRpcQuery
  queryMtx : Bool
  wsSubscribers : ℤ → Option ℕ
  responseQueue : System Json ℤ Thread
  connected : Bool
  calls : List Call
  socket : SocketPc
  consumers : List Consumer
  sent : List (ℕ × Json)
  received : List Json
  arrived : ℤ → List Json
  handed : ℤ → List (ℕ × Json)

def State.init : State :=
  ⟨0, fun _ => none, false, fun _ => none, System.empty, false, [], .idle, [], [], [],
    fun _ => [], fun _ => []⟩

inductive Wake where
  | notified
  | timeout
  | spurious
  deriving DecidableEq

inductive Event where
  | begin (task : Task)
  | link (up : Bool)
  | call (i : ℕ)
  | wake (i : ℕ) (why : Wake)
  | receive (json : Json)
  | socket
  | consumer (j : ℕ)

def requestMessage (jsonrpcVersion : Str) (id : ℤ) (jsonMap : Json) : Json :=
  .object [(lit "id", .number id), (lit "jsonrpc", .string jsonrpcVersion),
    (lit "method", jsonMap.field "method"), (lit "params", jsonMap.field "params")]

def requestId (json : Json) : ℤ :=
  if (json.field "id").isNull then 0 else (json.field "id").intValue

def subscriptionId (json : Json) : ℤ :=
  if (json.field "params").isNull then 0
  else ((json.field "params").field "subscription").intValue

def notificationResult (json : Json) : Json := (json.field "params").field "result"

namespace State

def setPc (st : State) (i : ℕ) (c : Call) (pc : CallPc) : State :=
  { st with calls := st.calls.set i { c with pc } }

def setConsumer (st : State) (j : ℕ) (c : Consumer) (pc : ConsumerPc) : State :=
  { st with consumers := st.consumers.set j { c with pc } }

def getNextId (st : State) : ℕ := (st.lastId + 1) % 2 ^ 32

def setLastId (st : State) (lastId : ℕ) : State := { st with lastId }

def setQuery (st : State) (id : ℤ) (query : Option JsonRpcQuery) : State :=
  { st with queries := Function.update st.queries id query }

/-- `_queries[id]`, which makes an entry where there is none. -/
def query (st : State) (id : ℤ) : JsonRpcQuery := (st.queries id).getD ⟨.null, none⟩

def setSubscriber (st : State) (s : ℤ) (observer : Option ℕ) : State :=
  { st with wsSubscribers := Function.update st.wsSubscribers s observer }

def addConsumer (st : State) (s : ℤ) (startedBy : ℕ) : State :=
  { st with consumers := st.consumers ++ [⟨s, startedBy, .start⟩] }

def addSent (st : State) (i : ℕ) (message : Json) : State :=
  { st with sent := st.sent ++ [(i, message)] }

def addArrived (st : State) (s : ℤ) (json : Json) : State :=
  { st with arrived := Function.update st.arrived s (st.arrived s ++ [json]) }

def addHanded (st : State) (s : ℤ) (observer : ℕ) (result : Json) : State :=
  { st with handed := Function.update st.handed s (st.handed s ++ [(observer, result)]) }

def setSocket (st : State) (pc : SocketPc) : State := { st with socket := pc }

def setMtx (st : State) (held : Bool) : State := { st with queryMtx := held }

def beginOp (st : State) (who : Thread) (call : ConcurrentMapQueue.Call Json ℤ) : State :=
  { st with responseQueue := st.responseQueue.begin who call }

def advanceOp (st : State) (op : ℕ) : Option State :=
  (st.responseQueue.advance RESPONSE_QUEUE_MAX_SIZE op).toOption.map fun q =>
    { st with responseQueue := q }

def nextOp (st : State) : ℕ := st.responseQueue.ops.length

end State

variable (jsonrpcVersion : Str)

def callStep (st : State) (i : ℕ) (c : Call) : Option State :=
  match c.pc with
  | .enter =>
    match c.task with
    | .unsubscribeWs 0 _ => some (st.setPc i c (.unsubscribed none))
    | _ =>
      if st.queryMtx then none
      else
        let id := asInt st.getNextId
        some (((st.setLastId st.getNextId).setQuery id (some ⟨.null, some i⟩)).setPc i c
          (.sending id))
  | .sending id =>
    if st.connected then
      some ((st.addSent i (requestMessage jsonrpcVersion id c.task.jsonMap)).setPc i c
        (.waiting id false))
    else some (st.setPc i c (.threw id))
  | .waiting _ _ => none
  | .woken id =>
    some ((st.setQuery id (some { st.query id with json := .null })).setPc i c
      (.moved id (st.query id).json))
  | .moved id result => some ((st.setQuery id none).setPc i c (.answered id result))
  | .answered id result =>
    match c.task with
    | .request _ => none
    | .subscribeWs _ observer =>
      let s := result.intValue
      some ((st.setSubscriber s (some observer)).setPc i c (.observing id s))
    | .unsubscribeWs s _ =>
      if st.queryMtx then none else some ((st.setSubscriber s none).setPc i c (.released id))
  | .threw _ => none
  | .observing id s => some ((st.addConsumer s i).setPc i c (.subscribed id s))
  | .subscribed _ _ => none
  | .released id =>
    match c.task with
    | .unsubscribeWs s _ =>
      some ((st.beginOp (.caller i) (.eraseKey s)).setPc i c (.closing id st.nextOp))
    | _ => none
  | .closing id op =>
    match st.responseQueue.ops[op]? with
    | some (_, .eraseKey _ .returned) => some (st.setPc i c (.unsubscribed (some id)))
    | _ => st.advanceOp op
  | .unsubscribed _ => none

/-- Only `notify_all` makes the first reason possible; the other two always are. -/
def wakeStep (st : State) (i : ℕ) (c : Call) (why : Wake) : Option State :=
  match c.pc with
  | .waiting id notified =>
    if why = .notified ∧ notified = false then none else some (st.setPc i c (.woken id))
  | _ => none

/-- `notify_all` on the variable of a call that does not wait changes nothing. -/
def notifyAll (st : State) (i : ℕ) : State :=
  match st.calls[i]? with
  | some ⟨task, .waiting id _⟩ => st.setPc i ⟨task, .waiting id false⟩ (.waiting id true)
  | _ => st

def socketStep (st : State) : Option State :=
  match st.socket with
  | .idle => none
  | .testing json =>
    if requestId json ≠ 0 ∧ (st.queries (requestId json)).isSome then
      some (st.setSocket (.matched (requestId json) (json.field "result")))
    else if subscriptionId json ≠ 0 then
      some (((st.addArrived (subscriptionId json) json).beginOp .socket
        (.put (subscriptionId json) json)).setSocket (.putting st.nextOp))
    else some (st.setSocket .idle)
  | .matched id result =>
    if st.queryMtx then none
    else some (((st.setQuery id (some { st.query id with json := result })).setMtx true).setSocket
      (.stored id))
  | .stored id =>
    some (((st.setQuery id (some (st.query id))).setMtx false).setSocket
      (.notifying (st.query id).completionCV))
  | .notifying (some i) => some ((notifyAll st i).setSocket .idle)
  | .notifying none => none
  | .putting op =>
    match st.responseQueue.ops[op]? with
    | some (_, .put _ _ .returned) => some (st.setSocket .idle)
    | _ => st.advanceOp op

/-- A missing observer is a null pointer that is called. -/
def consumerStep (st : State) (j : ℕ) (c : Consumer) : Option State :=
  match c.pc with
  | .start =>
    some ((st.beginOp (.consumer j) (.get c.subscriptionId)).setConsumer j c (.getting st.nextOp))
  | .getting op =>
    match st.responseQueue.ops[op]? with
    | some (_, .get _ (.returned (some json))) => some (st.setConsumer j c (.dispatching json))
    | some (_, .get _ (.returned none)) => some (st.setConsumer j c .ended)
    | _ => st.advanceOp op
  | .dispatching json =>
    match st.wsSubscribers c.subscriptionId with
    | some observer =>
      some ((st.addHanded c.subscriptionId observer (notificationResult json)).setConsumer j c
        .start)
    | none => none
  | .ended => none

def step (st : State) : Event → Option State
  | .begin task => some { st with calls := st.calls ++ [⟨task, .enter⟩] }
  | .link up => some { st with connected := up }
  | .call i => st.calls[i]?.bind (callStep jsonrpcVersion st i)
  | .wake i why => st.calls[i]?.bind fun c => wakeStep st i c why
  | .receive json =>
    match st.socket with
    | .idle => some ({ st with received := st.received ++ [json] }.setSocket
        (if requestId json = INT_MAX then .idle else .testing json))
    | _ => none
  | .socket => socketStep st
  | .consumer j => st.consumers[j]?.bind (consumerStep st j)

section Inversion

inductive CallMove (st : State) (i : ℕ) (c : Call) : State → Prop where
  | decline {method : Str} (pc : c.pc = .enter) (task : c.task = .unsubscribeWs 0 method) :
      CallMove st i c (st.setPc i c (.unsubscribed none))
  | register (pc : c.pc = .enter) (free : st.queryMtx = false) :
      CallMove st i c (((st.setLastId st.getNextId).setQuery (asInt st.getNextId)
        (some ⟨.null, some i⟩)).setPc i c (.sending (asInt st.getNextId)))
  | send {id : ℤ} (pc : c.pc = .sending id) (up : st.connected = true) :
      CallMove st i c ((st.addSent i (requestMessage jsonrpcVersion id c.task.jsonMap)).setPc i c
        (.waiting id false))
  | refuse {id : ℤ} (pc : c.pc = .sending id) (down : st.connected = false) :
      CallMove st i c (st.setPc i c (.threw id))
  | move {id : ℤ} (pc : c.pc = .woken id) :
      CallMove st i c ((st.setQuery id (some { st.query id with json := .null })).setPc i c
        (.moved id (st.query id).json))
  | erase {id : ℤ} {result : Json} (pc : c.pc = .moved id result) :
      CallMove st i c ((st.setQuery id none).setPc i c (.answered id result))
  | observe {id : ℤ} {result jsonMap : Json} {observer : ℕ} (pc : c.pc = .answered id result)
      (task : c.task = .subscribeWs jsonMap observer) :
      CallMove st i c ((st.setSubscriber result.intValue (some observer)).setPc i c
        (.observing id result.intValue))
  | forget {id s : ℤ} {result : Json} {method : Str} (pc : c.pc = .answered id result)
      (task : c.task = .unsubscribeWs s method) (free : st.queryMtx = false) :
      CallMove st i c ((st.setSubscriber s none).setPc i c (.released id))
  | start {id s : ℤ} (pc : c.pc = .observing id s) :
      CallMove st i c ((st.addConsumer s i).setPc i c (.subscribed id s))
  | close {id s : ℤ} {method : Str} (pc : c.pc = .released id)
      (task : c.task = .unsubscribeWs s method) :
      CallMove st i c ((st.beginOp (.caller i) (.eraseKey s)).setPc i c (.closing id st.nextOp))
  | closed {id k : ℤ} {op : ℕ} {who : Thread} (pc : c.pc = .closing id op)
      (done : st.responseQueue.ops[op]? = some (who, .eraseKey k .returned)) :
      CallMove st i c (st.setPc i c (.unsubscribed (some id)))
  | advance {id : ℤ} {op : ℕ} {q : System Json ℤ Thread} (pc : c.pc = .closing id op)
      (h : st.responseQueue.advance RESPONSE_QUEUE_MAX_SIZE op = .ok q) :
      CallMove st i c { st with responseQueue := q }

inductive SocketMove (st : State) : State → Prop where
  | respond {json : Json} (pc : st.socket = .testing json) (numbered : requestId json ≠ 0)
      (present : (st.queries (requestId json)).isSome) :
      SocketMove st (st.setSocket (.matched (requestId json) (json.field "result")))
  | enqueue {json : Json} (pc : st.socket = .testing json) (h : subscriptionId json ≠ 0) :
      SocketMove st (((st.addArrived (subscriptionId json) json).beginOp .socket
        (.put (subscriptionId json) json)).setSocket (.putting st.nextOp))
  | skip {json : Json} (pc : st.socket = .testing json) (h : subscriptionId json = 0) :
      SocketMove st (st.setSocket .idle)
  | store {id : ℤ} {result : Json} (pc : st.socket = .matched id result)
      (free : st.queryMtx = false) :
      SocketMove st (((st.setQuery id (some { st.query id with json := result })).setMtx
        true).setSocket (.stored id))
  | look {id : ℤ} (pc : st.socket = .stored id) :
      SocketMove st (((st.setQuery id (some (st.query id))).setMtx false).setSocket
        (.notifying (st.query id).completionCV))
  | notify {i : ℕ} (pc : st.socket = .notifying (some i)) :
      SocketMove st ((notifyAll st i).setSocket .idle)
  | returned {op : ℕ} {who : Thread} {k : ℤ} {json : Json} (pc : st.socket = .putting op)
      (done : st.responseQueue.ops[op]? = some (who, .put k json .returned)) :
      SocketMove st (st.setSocket .idle)
  | advance {op : ℕ} {q : System Json ℤ Thread} (pc : st.socket = .putting op)
      (h : st.responseQueue.advance RESPONSE_QUEUE_MAX_SIZE op = .ok q) :
      SocketMove st { st with responseQueue := q }

inductive ConsumerMove (st : State) (j : ℕ) (c : Consumer) : State → Prop where
  | begin (pc : c.pc = .start) :
      ConsumerMove st j c ((st.beginOp (.consumer j) (.get c.subscriptionId)).setConsumer j c
        (.getting st.nextOp))
  | taken {op : ℕ} {who : Thread} {k : ℤ} {json : Json} (pc : c.pc = .getting op)
      (done : st.responseQueue.ops[op]? = some (who, .get k (.returned (some json)))) :
      ConsumerMove st j c (st.setConsumer j c (.dispatching json))
  | ended {op : ℕ} {who : Thread} {k : ℤ} (pc : c.pc = .getting op)
      (done : st.responseQueue.ops[op]? = some (who, .get k (.returned none))) :
      ConsumerMove st j c (st.setConsumer j c .ended)
  | hand {json : Json} {observer : ℕ} (pc : c.pc = .dispatching json)
      (present : st.wsSubscribers c.subscriptionId = some observer) :
      ConsumerMove st j c ((st.addHanded c.subscriptionId observer
        (notificationResult json)).setConsumer j c .start)
  | advance {op : ℕ} {q : System Json ℤ Thread} (pc : c.pc = .getting op)
      (h : st.responseQueue.advance RESPONSE_QUEUE_MAX_SIZE op = .ok q) :
      ConsumerMove st j c { st with responseQueue := q }

inductive Move (st : State) : State → Prop where
  | begin (task : Task) : Move st { st with calls := st.calls ++ [⟨task, .enter⟩] }
  | link (up : Bool) : Move st { st with connected := up }
  | call {i : ℕ} {c : Call} {next : State} (here : st.calls[i]? = some c)
      (h : CallMove jsonrpcVersion st i c next) : Move st next
  | wake {i : ℕ} {c : Call} {id : ℤ} {notified : Bool} (here : st.calls[i]? = some c)
      (pc : c.pc = .waiting id notified) : Move st (st.setPc i c (.woken id))
  | receive {json : Json} (pc : st.socket = .idle) :
      Move st ({ st with received := st.received ++ [json] }.setSocket
        (if requestId json = INT_MAX then .idle else .testing json))
  | socket {next : State} (h : SocketMove st next) : Move st next
  | consumer {j : ℕ} {c : Consumer} {next : State} (here : st.consumers[j]? = some c)
      (h : ConsumerMove st j c next) : Move st next

variable {jsonrpcVersion} {st next : State}

theorem advanceOp_eq_some {op : ℕ} (h : st.advanceOp op = some next) :
    ∃ q, st.responseQueue.advance RESPONSE_QUEUE_MAX_SIZE op = .ok q ∧
      next = { st with responseQueue := q } := by
  obtain ⟨q, hq, rfl⟩ := Option.map_eq_some_iff.1 h
  exact ⟨q, except_toOption_eq_some hq, rfl⟩

theorem callStep_move {i : ℕ} {c : Call} (h : callStep jsonrpcVersion st i c = some next) :
    CallMove jsonrpcVersion st i c next := by
  unfold callStep at h
  split at h
  case h_1 pc =>
    split at h
    · next task =>
      cases h
      exact .decline pc task
    · split_ifs at h with hm
      cases h
      exact .register pc (by simpa using hm)
  case h_2 id pc =>
    split_ifs at h with hup
    · cases h
      exact .send pc hup
    · cases h
      exact .refuse pc (by simpa using hup)
  case h_3 => cases h
  case h_4 id pc =>
    cases h
    exact .move pc
  case h_5 id result pc =>
    cases h
    exact .erase pc
  case h_6 id result pc =>
    split at h
    · cases h
    · next jsonMap observer task =>
      cases h
      exact .observe pc task
    · next s method task =>
      split_ifs at h with hm
      cases h
      exact .forget pc task (by simpa using hm)
  case h_7 => cases h
  case h_8 id s pc =>
    cases h
    exact .start pc
  case h_9 => cases h
  case h_10 id pc =>
    split at h
    · next s method task =>
      cases h
      exact .close pc task
    · cases h
  case h_11 id op pc =>
    split at h
    · next who k done =>
      cases h
      exact .closed pc done
    · obtain ⟨q, hq, rfl⟩ := advanceOp_eq_some h
      exact .advance pc hq
  case h_12 => cases h

theorem socketStep_move (h : socketStep st = some next) : SocketMove st next := by
  unfold socketStep at h
  split at h
  case h_1 => cases h
  case h_2 json pc =>
    split_ifs at h with hq hs
    · cases h
      exact .respond pc hq.1 hq.2
    · cases h
      exact .enqueue pc hs
    · cases h
      exact .skip pc (not_not.1 hs)
  case h_3 id result pc =>
    split_ifs at h with hm
    cases h
    exact .store pc (by simpa using hm)
  case h_4 id pc =>
    cases h
    exact .look pc
  case h_5 i pc =>
    cases h
    exact .notify pc
  case h_6 => cases h
  case h_7 op pc =>
    split at h
    · next who k json done =>
      cases h
      exact .returned pc done
    · obtain ⟨q, hq, rfl⟩ := advanceOp_eq_some h
      exact .advance pc hq

theorem consumerStep_move {j : ℕ} {c : Consumer} (h : consumerStep st j c = some next) :
    ConsumerMove st j c next := by
  unfold consumerStep at h
  split at h
  case h_1 pc =>
    cases h
    exact .begin pc
  case h_2 op pc =>
    split at h
    · next who k json done =>
      cases h
      exact .taken pc done
    · next who k done =>
      cases h
      exact .ended pc done
    · obtain ⟨q, hq, rfl⟩ := advanceOp_eq_some h
      exact .advance pc hq
  case h_3 json pc =>
    split at h
    · next observer present =>
      cases h
      exact .hand pc present
    · cases h
  case h_4 => cases h

theorem wakeStep_eq_some {i : ℕ} {c : Call} {why : Wake} (h : wakeStep st i c why = some next) :
    ∃ id notified, c.pc = .waiting id notified ∧ next = st.setPc i c (.woken id) := by
  unfold wakeStep at h
  split at h
  · next id notified pc =>
    split_ifs at h
    cases h
    exact ⟨id, notified, pc, rfl⟩
  · cases h

theorem receive_eq_some {json : Json} (h : step jsonrpcVersion st (.receive json) = some next) :
    st.socket = .idle ∧ next = { st with received := st.received ++ [json] }.setSocket
      (if requestId json = INT_MAX then .idle else .testing json) := by
  simp only [step] at h
  split at h
  · next pc =>
    cases h
    exact ⟨pc, rfl⟩
  · cases h

theorem step_move {e : Event} (h : step jsonrpcVersion st e = some next) :
    Move jsonrpcVersion st next := by
  cases e with
  | begin task =>
    cases h
    exact .begin task
  | link up =>
    cases h
    exact .link up
  | call i =>
    obtain ⟨c, hc, h⟩ := Option.bind_eq_some_iff.1 h
    exact .call hc (callStep_move h)
  | wake i why =>
    obtain ⟨c, hc, h⟩ := Option.bind_eq_some_iff.1 h
    obtain ⟨id, notified, pc, rfl⟩ := wakeStep_eq_some h
    exact .wake hc pc
  | receive json =>
    obtain ⟨pc, rfl⟩ := receive_eq_some h
    exact .receive pc
  | socket => exact .socket (socketStep_move h)
  | consumer j =>
    obtain ⟨c, hc, h⟩ := Option.bind_eq_some_iff.1 h
    exact .consumer hc (consumerStep_move h)

end Inversion

end PolkadotApi.JsonRpcThreads
