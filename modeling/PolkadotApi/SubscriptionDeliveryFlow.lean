import PolkadotApi.SubscriptionDeliveryOwners

set_option autoImplicit false

namespace PolkadotApi.SubscriptionDelivery
open StepRuns StreamReader BoundedBuffer MachineModel JsonValues ConcurrentMapQueue QueueLaws
open JsonRpcThreads

variable {jsonrpcVersion : Str} {st next : State}

def opAt (q : System Json ℤ Thread) (op : Option ℕ) : Option (Op Json ℤ) :=
  op.bind fun op => q.ops[op]?.map Prod.snd

/-- What the socket thread has not put into the queue yet. -/
def inSocket (q : System Json ℤ Thread) (socket : SocketPc) (s : ℤ) : List Json :=
  (opAt q (socketOp socket)).elim [] (unpushed s)

/-- What a consumer has taken out of the queue and not handed over yet. -/
def inHand (q : System Json ℤ Thread) (s : ℤ) (pc : ConsumerPc) : List Json :=
  match pc with
  | .dispatching json => [json]
  | pc => (opAt q (consumerOp pc)).elim [] (carried s)

def Alone (consumers : List Consumer) (s : ℤ) (j : ℕ) : Prop :=
  ∀ (k : ℕ) (c : Consumer), consumers[k]? = some c → c.subscriptionId = s → k = j

structure Flow (arrived : List Json) (results : List Json) (q : System Json ℤ Thread)
    (socket : SocketPc) (consumers : List Consumer) (s : ℤ) : Prop where
  put : arrived = q.store.pushed s ++ inSocket q socket s
  got : ∀ (j : ℕ) (c : Consumer), consumers[j]? = some c → c.subscriptionId = s →
    Alone consumers s j → (q.store.popped s).map notificationResult =
      results ++ (inHand q s c.pc).map notificationResult
  unread : (∀ c ∈ consumers, c.subscriptionId ≠ s) → q.store.popped s = [] ∧ results = []

def StateFlow (s : ℤ) (st : State) : Prop :=
  Flow (st.arrived s) ((st.handed s).map Prod.snd) st.responseQueue st.socket st.consumers s

theorem unpushed_of_fits {t : Thread} {o : Op Json ℤ} (hf : Fits st t o) (ht : t ≠ .socket)
    (s : ℤ) : unpushed s o = [] := by
  cases o with
  | put =>
    cases t with
    | socket => exact absurd rfl ht
    | _ => cases hf
  | _ => rfl

theorem pushed_of_other {t : Thread} {o o' : Op Json ℤ} {q r : Store Json ℤ} (hf : Fits st t o)
    (hs : OpStep RESPONSE_QUEUE_MAX_SIZE o q o' r) (ht : t ≠ .socket) (s : ℤ) :
    r.pushed s = q.pushed s := by
  obtain ⟨l, hl, hu⟩ := pushed_of_step hs s
  rw [unpushed_of_fits hf ht] at hu
  rw [hl, (List.append_eq_nil_iff.1 hu.symm).1, List.append_nil]

theorem carried_of_fits {t : Thread} {o : Op Json ℤ} {s : ℤ} (hf : Fits st t o)
    (ht : ∀ (j : ℕ) (c : Consumer), t = .consumer j → st.consumers[j]? = some c →
      c.subscriptionId ≠ s) : carried s o = [] := by
  cases o with
  | get k pc =>
    cases t with
    | consumer j =>
      obtain ⟨c, hc, hk⟩ := hf
      have hne : k ≠ s := hk ▸ ht j c rfl hc
      cases pc with
      | popped v => exact if_neg hne
      | returned v =>
        cases v with
        | none => rfl
        | some v => exact if_neg hne
      | _ => rfl
    | _ => cases hf
  | _ => rfl

theorem popped_of_other {t : Thread} {o o' : Op Json ℤ} {q r : Store Json ℤ} (hf : Fits st t o)
    (hs : OpStep RESPONSE_QUEUE_MAX_SIZE o q o' r) {s : ℤ}
    (ht : ∀ (j : ℕ) (c : Consumer), t = .consumer j → st.consumers[j]? = some c →
      c.subscriptionId ≠ s) : r.popped s = q.popped s := by
  obtain ⟨l, hl, hc⟩ := popped_of_step hs s
  rw [carried_of_fits (hf.of_step hs) ht, carried_of_fits hf ht, List.nil_append] at hc
  rw [hl, ← hc, List.append_nil]

theorem opAt_of_getElem? {q : System Json ℤ Thread} {op : ℕ} {t : Thread} {o : Op Json ℤ}
    (h : q.ops[op]? = some (t, o)) : opAt q (some op) = some o := by
  simp [opAt, h]

theorem opAt_set {q r : System Json ℤ Thread} {op : ℕ} {t : Thread} {o o' : Op Json ℤ}
    (h : q.ops[op]? = some (t, o)) (hops : r.ops = q.ops.set op (t, o')) :
    opAt r (some op) = some o' := by
  apply opAt_of_getElem?
  rw [hops]
  exact List.getElem?_set_self (List.getElem?_eq_some_iff.1 h).1

theorem getting_of_consumerOp {pc : ConsumerPc} {op : ℕ} (h : consumerOp pc = some op) :
    pc = .getting op := by
  cases pc <;> cases h
  rfl

theorem putting_of_socketOp {pc : SocketPc} {op : ℕ} (h : socketOp pc = some op) :
    pc = .putting op := by
  cases pc <;> cases h
  rfl

theorem Owned.opAt_advance (h : Owned st) {q : System Json ℤ Thread} {op : ℕ} {t : Thread}
    {o o' : Op Json ℤ} (ho : st.responseQueue.ops[op]? = some (t, o))
    (hops : q.ops = st.responseQueue.ops.set op (t, o')) {u : Thread} (hu : u ≠ t) :
    opAt q (current st u) = opAt st.responseQueue (current st u) := by
  cases hk : current st u with
  | none => rfl
  | some k =>
    obtain ⟨e, he⟩ := h.held u k hk
    have hne : op ≠ k := by
      rintro rfl
      cases ho.symm.trans he
      exact hu rfl
    simp [opAt, hops, List.getElem?_set_ne hne]

theorem Owned.opAt_begin (h : Owned st) (t : Thread) (call : ConcurrentMapQueue.Call Json ℤ)
    (u : Thread) : opAt (st.responseQueue.begin t call) (current st u) =
      opAt st.responseQueue (current st u) := by
  cases hk : current st u with
  | none => rfl
  | some k =>
    obtain ⟨e, he⟩ := h.held u k hk
    simp [opAt, System.begin, List.getElem?_append_left (List.getElem?_eq_some_iff.1 he).1]

theorem inHand_eq {q r : System Json ℤ Thread} {pc : ConsumerPc} {s : ℤ}
    (h : opAt q (consumerOp pc) = opAt r (consumerOp pc)) : inHand q s pc = inHand r s pc := by
  cases pc <;> first | rfl | exact congrArg (Option.elim · [] (carried s)) h

theorem inHand_getting {q : System Json ℤ Thread} {op : ℕ} {o : Op Json ℤ}
    (h : opAt q (some op) = some o) (s : ℤ) : inHand q s (.getting op) = carried s o :=
  congrArg (Option.elim · [] (carried s)) h

theorem StateFlow.advance {s : ℤ} (hf : StateFlow s st) (h : Owned st)
    {q : System Json ℤ Thread} {op : ℕ}
    (hq : st.responseQueue.advance RESPONSE_QUEUE_MAX_SIZE op = .ok q) :
    StateFlow s { st with responseQueue := q } := by
  obtain ⟨t, o, o', ho, hs, hops⟩ := System.advance_eq_ok hq
  have hcur := h.busy op t o ho (isOver_of_step hs)
  have hfits := h.fits op t o ho
  have hbefore := opAt_of_getElem? ho
  have hafter := opAt_set ho hops
  constructor
  · have hput : st.arrived s = st.responseQueue.store.pushed s ++
        (opAt st.responseQueue (current st .socket)).elim [] (unpushed s) := hf.put
    change st.arrived s = q.store.pushed s ++
      (opAt q (current st .socket)).elim [] (unpushed s)
    by_cases ht : t = .socket
    · subst t
      obtain ⟨l, hl, hu⟩ := pushed_of_step hs s
      rw [hcur, hbefore] at hput
      rw [hcur, hafter, hput, hl, List.append_assoc]
      exact congrArg (st.responseQueue.store.pushed s ++ ·) hu
    · rw [h.opAt_advance ho hops (Ne.symm ht), pushed_of_other hfits hs ht]
      exact hput
  · intro j c hc hsub halone
    have hgot := hf.got j c hc hsub halone
    have hconsumer : current st (.consumer j) = consumerOp c.pc := current_consumer hc
    by_cases ht : t = .consumer j
    · subst t
      have hpc : c.pc = .getting op := getting_of_consumerOp (hconsumer.symm.trans hcur)
      obtain ⟨l, hl, hcarried⟩ := popped_of_step hs s
      rw [hpc, inHand_getting hbefore] at hgot
      rw [hpc, inHand_getting hafter, hl, hcarried, List.map_append, hgot, List.map_append,
        List.append_assoc]
    · have hhand : inHand q s c.pc = inHand st.responseQueue s c.pc := by
        apply inHand_eq
        rw [← hconsumer]
        exact h.opAt_advance ho hops (Ne.symm ht)
      have hpopped : q.store.popped s = st.responseQueue.store.popped s := by
        apply popped_of_other hfits hs
        rintro k d rfl hd hsd
        rw [halone k d hd hsd] at ht
        exact ht rfl
      rw [hhand, hpopped]
      exact hgot
  · intro hnone
    have hpopped : q.store.popped s = st.responseQueue.store.popped s := by
      apply popped_of_other hfits hs
      rintro k d rfl hd
      exact hnone d (List.mem_of_getElem? hd)
    rw [hpopped]
    exact hf.unread hnone

variable {arrived results : List Json} {q r : System Json ℤ Thread} {sp : SocketPc}
  {consumers : List Consumer} {s : ℤ}

theorem Alone.of_set {j k : ℕ} {c : Consumer} {pc : ConsumerPc} (here : consumers[j]? = some c)
    (h : Alone (consumers.set j { c with pc }) s k) : Alone consumers s k := by
  intro i d hd hs
  by_cases hi : j = i
  · subst i
    cases here.symm.trans hd
    exact h j _ (List.getElem?_set_self (List.getElem?_eq_some_iff.1 here).1) hs
  · exact h i d ((List.getElem?_set_ne hi).trans hd) hs

/-- A consumer moves on: what it held before is what it holds or has handed over now. -/
theorem Flow.consume (h : Flow arrived results q sp consumers s) {j : ℕ} {c : Consumer}
    {pc : ConsumerPc} {handed : List Json} (here : consumers[j]? = some c)
    (hstore : r.store = q.store) (hsocket : inSocket r sp s = inSocket q sp s)
    (hother : ∀ d ∈ consumers, inHand r s d.pc = inHand q s d.pc)
    (hmine : c.subscriptionId = s → handed ++ (inHand r s pc).map notificationResult =
      results ++ (inHand q s c.pc).map notificationResult)
    (helse : c.subscriptionId ≠ s → handed = results) :
    Flow arrived handed r sp (consumers.set j { c with pc }) s := by
  have hself : (consumers.set j { c with pc })[j]? = some { c with pc } :=
    List.getElem?_set_self (List.getElem?_eq_some_iff.1 here).1
  constructor
  · rw [hstore, hsocket]
    exact h.put
  · intro k d hd hs halone
    rw [hstore]
    rcases getElem?_set_cases hd with ⟨rfl, rfl⟩ | ⟨hk, hd⟩
    · exact (h.got k c here hs (halone.of_set here)).trans (hmine hs).symm
    · have hne : c.subscriptionId ≠ s := fun hc => hk (halone j _ hself hc).symm
      rw [hother d (List.mem_of_getElem? hd), helse hne]
      exact h.got k d hd hs (halone.of_set here)
  · intro hnone
    have hne : c.subscriptionId ≠ s := hnone { c with pc } (List.mem_of_getElem? hself)
    rw [hstore, helse hne]
    apply h.unread
    intro d hd
    obtain ⟨k, hk⟩ := List.mem_iff_getElem?.1 hd
    by_cases hj : j = k
    · subst k
      cases here.symm.trans hk
      exact hne
    · exact hnone d (List.mem_of_getElem? ((List.getElem?_set_ne hj).trans hk))

theorem Flow.addConsumer (h : Flow arrived results q sp consumers s) (s' : ℤ) (i : ℕ) :
    Flow arrived results q sp (consumers ++ [⟨s', i, .start⟩]) s := by
  have old : ∀ (k : ℕ) (d : Consumer), consumers[k]? = some d →
      (consumers ++ [⟨s', i, .start⟩])[k]? = some d := by
    intro k d hd
    exact (List.getElem?_append_left (List.getElem?_eq_some_iff.1 hd).1).trans hd
  refine ⟨h.put, ?_, ?_⟩
  · intro k d hd hs halone
    rcases getElem?_concat_cases hd with hd | ⟨rfl, rfl⟩
    · exact h.got k d hd hs fun m e he hm => halone m e (old m e he) hm
    · have hnone : ∀ e ∈ consumers, e.subscriptionId ≠ s := by
        intro e he hse
        obtain ⟨m, hm⟩ := List.mem_iff_getElem?.1 he
        have hlen := halone m e (old m e hm) hse
        have hlt := (List.getElem?_eq_some_iff.1 hm).1
        omega
      obtain ⟨hp, hr⟩ := h.unread hnone
      rw [hp, hr]
      rfl
  · intro hnone
    exact h.unread fun d hd => hnone d (List.mem_append_left _ hd)

theorem Flow.setSocket (h : Flow arrived results q sp consumers s) {pc : SocketPc}
    (hpc : inSocket q pc s = inSocket q sp s) : Flow arrived results q pc consumers s := by
  refine ⟨?_, h.got, h.unread⟩
  rw [hpc]
  exact h.put

theorem inSocket_of_idle {pc : SocketPc} (h : socketOp pc = none) (q : System Json ℤ Thread)
    (s : ℤ) : inSocket q pc s = [] := by
  rw [inSocket, h]
  rfl

theorem opAt_begin_self (q : System Json ℤ Thread) (t : Thread)
    (call : ConcurrentMapQueue.Call Json ℤ) :
    opAt (q.begin t call) (some q.ops.length) = some call.start := by
  simp [opAt, System.begin]

theorem Owned.inSocket_begin (h : Owned st) (t : Thread) (call : ConcurrentMapQueue.Call Json ℤ)
    (s : ℤ) : inSocket (st.responseQueue.begin t call) st.socket s =
      inSocket st.responseQueue st.socket s :=
  congrArg (Option.elim · [] (unpushed s)) (h.opAt_begin t call .socket)

theorem Owned.inHand_begin (h : Owned st) (t : Thread) (call : ConcurrentMapQueue.Call Json ℤ)
    {c : Consumer} (hc : c ∈ st.consumers) (s : ℤ) :
    inHand (st.responseQueue.begin t call) s c.pc = inHand st.responseQueue s c.pc := by
  obtain ⟨j, hj⟩ := List.mem_iff_getElem?.1 hc
  apply inHand_eq
  rw [← current_consumer hj]
  exact h.opAt_begin t call (.consumer j)

theorem StateFlow.begin (hf : StateFlow s st) (h : Owned st) (t : Thread)
    (call : ConcurrentMapQueue.Call Json ℤ) : StateFlow s (st.beginOp t call) := by
  constructor
  · refine hf.put.trans ?_
    exact congrArg (st.responseQueue.store.pushed s ++ ·) (h.inSocket_begin t call s).symm
  · intro j c hc hs halone
    refine (hf.got j c hc hs halone).trans ?_
    rw [← h.inHand_begin t call (List.mem_of_getElem? hc) s]
    rfl
  · exact hf.unread

theorem StateFlow.socket (hf : StateFlow s st) (h : Owned st) (hm : SocketMove st next) :
    StateFlow s next := by
  have idle : ∀ pc, socketOp st.socket = none → socketOp pc = none →
      Flow (st.arrived s) ((st.handed s).map Prod.snd) st.responseQueue pc st.consumers s := by
    intro pc hold hnew
    apply Flow.setSocket hf
    rw [inSocket_of_idle hold, inSocket_of_idle hnew]
  cases hm with
  | @enqueue json pc =>
    have hbegin := hf.begin h .socket (.put (subscriptionId json) json)
    refine ⟨?_, hbegin.got, hbegin.unread⟩
    have hput := hbegin.put
    have hold : inSocket (st.beginOp .socket (.put (subscriptionId json) json)).responseQueue
        st.socket s = [] := inSocket_of_idle (by rw [pc]; rfl) _ s
    have hnew : inSocket (st.beginOp .socket (.put (subscriptionId json) json)).responseQueue
        (.putting st.nextOp) s = if subscriptionId json = s then [json] else [] :=
      congrArg (Option.elim · [] (unpushed s)) (opAt_begin_self st.responseQueue .socket _)
    change st.arrived s = _ at hput
    rw [show (st.beginOp .socket (.put (subscriptionId json) json)).socket = st.socket from rfl,
      hold, List.append_nil] at hput
    change Function.update st.arrived (subscriptionId json) _ s = _ ++
      inSocket (st.beginOp .socket (.put (subscriptionId json) json)).responseQueue
        (.putting st.nextOp) s
    rw [hnew]
    by_cases hs : subscriptionId json = s
    · subst s
      rw [Function.update_self, if_pos rfl, hput]
      rfl
    · rw [Function.update_of_ne (Ne.symm hs), if_neg hs, List.append_nil, hput]
      rfl
  | @returned op who k json pc done =>
    apply Flow.setSocket hf
    rw [inSocket_of_idle rfl, pc]
    simp [inSocket, opAt, socketOp, done, unpushed]
  | advance pc hq => exact hf.advance h hq
  | @notify i pc =>
    have hn : StateFlow s ((notifyAll st i).setSocket .idle) := by
      unfold notifyAll
      split <;> exact idle .idle (by rw [pc]; rfl) rfl
    exact hn
  | respond pc => exact idle _ (by rw [pc]; rfl) rfl
  | skip pc => exact idle _ (by rw [pc]; rfl) rfl
  | store pc => exact idle _ (by rw [pc]; rfl) rfl
  | look pc => exact idle _ (by rw [pc]; rfl) rfl

theorem StateFlow.consumer (hf : StateFlow s st) (h : Owned st) {j : ℕ} {c : Consumer}
    (here : st.consumers[j]? = some c) (hm : ConsumerMove st j c next) : StateFlow s next := by
  cases hm with
  | begin pc =>
    refine Flow.consume hf here rfl (h.inSocket_begin _ _ s) (fun d hd => h.inHand_begin _ _ hd s)
      ?_ (fun _ => rfl)
    intro hs
    have hnew : inHand (st.beginOp (.consumer j) (.get c.subscriptionId)).responseQueue s
        (.getting st.nextOp) = [] :=
      congrArg (Option.elim · [] (carried s)) (opAt_begin_self st.responseQueue (.consumer j) _)
    rw [pc]
    change _ ++ (inHand (st.beginOp (.consumer j) (.get c.subscriptionId)).responseQueue s
      (.getting st.nextOp)).map notificationResult = _
    rw [hnew]
    rfl
  | @taken op who k json pc done =>
    refine Flow.consume hf here rfl rfl (fun _ _ => rfl) ?_ (fun _ => rfl)
    intro hs
    obtain ⟨o, ho⟩ := h.held (.consumer j) op (by rw [current_consumer here, pc]; rfl)
    cases done.symm.trans ho
    obtain ⟨d, hd, hk⟩ := h.fits op _ _ done
    cases here.symm.trans hd
    rw [pc]
    simp [State.setConsumer, inHand, opAt, consumerOp, done, carried, ← hk, hs]
  | @ended op who k pc done =>
    refine Flow.consume hf here rfl rfl (fun _ _ => rfl) ?_ (fun _ => rfl)
    intro hs
    rw [pc]
    simp [State.setConsumer, inHand, opAt, consumerOp, done, carried]
  | @hand json observer pc =>
    refine Flow.consume hf here rfl rfl (fun _ _ => rfl) ?_ ?_
    · intro hs
      rw [pc]
      simp [State.setConsumer, State.addHanded, hs, inHand, opAt, consumerOp]
    · intro hs
      simp [State.setConsumer, State.addHanded, Function.update_of_ne (Ne.symm hs)]
  | advance pc hq => exact hf.advance h hq

theorem StateFlow.move (hf : StateFlow s st) (h : Owned st) (hm : Move jsonrpcVersion st next) :
    StateFlow s next := by
  cases hm with
  | call here hc =>
    cases hc with
    | close pc task => exact hf.begin h _ _
    | start pc => exact Flow.addConsumer hf _ _
    | advance pc hq => exact hf.advance h hq
    | _ => exact hf
  | receive pc =>
    apply Flow.setSocket hf
    rw [pc, inSocket_of_idle (by split_ifs <;> rfl), inSocket_of_idle rfl]
  | socket hs => exact hf.socket h hs
  | consumer here hc => exact hf.consumer h here hc
  | _ => exact hf

end PolkadotApi.SubscriptionDelivery
