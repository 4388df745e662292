import PolkadotApi.RequestReplies
import PolkadotApi.SubscriptionDelivery

set_option autoImplicit false

namespace PolkadotApi.ObserverLifetimes
open StepRuns StreamReader MachineModel JsonValues ConcurrentMapQueue QueueLaws
open JsonRpcThreads SubscriptionDelivery
open RequestReplies (message)

variable {jsonrpcVersion : Str} {st next : State} {s : ℤ}

/-- A consumer that is about to call the observer of its subscription finds one. -/
def FindsObserver (st : State) : Prop :=
  ∀ c ∈ st.consumers, ∀ json, c.pc = .dispatching json → st.wsSubscribers c.subscriptionId ≠ none

section Conditions

structure Quiet (q : System Json ℤ Thread) (socket : SocketPc) (consumers : List Consumer)
    (s : ℤ) : Prop where
  empty : q.store.collection s = []
  unput : inSocket q socket s = []
  hands : ∀ c ∈ consumers, c.subscriptionId = s → inHand q s c.pc = []

def Ended (consumers : List Consumer) (s : ℤ) : Prop :=
  ∀ c ∈ consumers, c.subscriptionId = s → c.pc = .ended

/-- The subscription for which `subscribeWs` starts a thread next. -/
def starts : CallPc → Option ℤ
  | .observing _ s => some s
  | _ => none

def forgets (c : Call) : Option ℤ :=
  match c.pc, c.task with
  | .answered _ _, .unsubscribeWs s _ => some s
  | _, _ => none

def enqueues (st : State) : Option ℤ :=
  match st.socket with
  | .testing json =>
    if requestId json ≠ 0 ∧ (st.queries (requestId json)).isSome then none
    else if subscriptionId json ≠ 0 then some (subscriptionId json)
    else none
  | _ => none

/-- An observer is erased only when nothing is on its way to it, and a notification
that comes without an observer finds no consumer thread. -/
def Considerate (st : State) : Event → Prop
  | .call i => ∀ c ∈ st.calls[i]?, ∀ s ∈ forgets c,
      Quiet st.responseQueue st.socket st.consumers s ∧ ∀ d ∈ st.calls, starts d.pc ≠ some s
  | .socket => ∀ s ∈ enqueues st, st.wsSubscribers s ≠ none ∨ Ended st.consumers s
  | _ => True

instance (q : System Json ℤ Thread) (socket : SocketPc) (consumers : List Consumer) (s : ℤ) :
    Decidable (Quiet q socket consumers s) :=
  decidable_of_iff (q.store.collection s = [] ∧ inSocket q socket s = [] ∧
      ∀ c ∈ consumers, c.subscriptionId = s → inHand q s c.pc = [])
    ⟨fun h => ⟨h.1, h.2.1, h.2.2⟩, fun h => ⟨h.empty, h.unput, h.hands⟩⟩

instance (consumers : List Consumer) (s : ℤ) : Decidable (Ended consumers s) :=
  inferInstanceAs (Decidable (∀ c ∈ consumers, c.subscriptionId = s → c.pc = .ended))

instance (st : State) : ∀ e : Event, Decidable (Considerate st e)
  | .call i => inferInstanceAs (Decidable (∀ c ∈ st.calls[i]?, ∀ s ∈ forgets c,
      Quiet st.responseQueue st.socket st.consumers s ∧ ∀ d ∈ st.calls, starts d.pc ≠ some s))
  | .socket => inferInstanceAs (Decidable (∀ s ∈ enqueues st,
      st.wsSubscribers s ≠ none ∨ Ended st.consumers s))
  | .begin _ => inferInstanceAs (Decidable True)
  | .link _ => inferInstanceAs (Decidable True)
  | .wake _ _ => inferInstanceAs (Decidable True)
  | .receive _ => inferInstanceAs (Decidable True)
  | .consumer _ => inferInstanceAs (Decidable True)

theorem enqueues_of_step {json : Json} {op : ℕ} (h : socketStep st = some next)
    (pc : st.socket = .testing json) (hnext : next.socket = .putting op) :
    enqueues st = some (subscriptionId json) := by
  simp only [socketStep, pc] at h
  simp only [enqueues, pc]
  split_ifs at h with hq hs
  · cases h
    cases hnext
  · rw [if_neg hq, if_pos hs]
  · cases h
    cases hnext

end Conditions

section Quietness

variable {q : System Json ℤ Thread} {sp : SocketPc} {consumers : List Consumer}

theorem Quiet.begin (h : Quiet st.responseQueue st.socket st.consumers s) (hown : Owned st)
    (t : Thread) (call : ConcurrentMapQueue.Call Json ℤ) :
    Quiet (st.responseQueue.begin t call) st.socket st.consumers s := by
  refine ⟨h.empty, (hown.inSocket_begin t call s).trans h.unput, ?_⟩
  intro c hc hs
  exact (hown.inHand_begin t call hc s).trans (h.hands c hc hs)

theorem Quiet.setSocket (h : Quiet q sp consumers s) {pc : SocketPc}
    (hpc : inSocket q pc s = []) : Quiet q pc consumers s :=
  ⟨h.empty, hpc, h.hands⟩

theorem Quiet.set (h : Quiet q sp consumers s) {j : ℕ} {c : Consumer} {pc : ConsumerPc}
    (hpc : c.subscriptionId = s → inHand q s pc = []) :
    Quiet q sp (consumers.set j { c with pc }) s := by
  refine ⟨h.empty, h.unput, ?_⟩
  intro d hd hs
  rcases List.mem_or_eq_of_mem_set hd with hd | rfl
  · exact h.hands d hd hs
  · exact hpc hs

/-- A call on the queue moves on: it can neither bring a value nor take one. -/
theorem Quiet.advance (h : Quiet st.responseQueue st.socket st.consumers s) (hinv : Invariant st)
    {op : ℕ} (hq : st.responseQueue.advance RESPONSE_QUEUE_MAX_SIZE op = .ok q) :
    Quiet q st.socket st.consumers s := by
  obtain ⟨t, o, o', ho, hs, hops⟩ := System.advance_eq_ok hq
  have hcur := hinv.owned.busy op t o ho (isOver_of_step hs)
  have hfits := hinv.owned.fits op t o ho
  have hbefore := opAt_of_getElem? ho
  have hafter := opAt_set ho hops
  obtain ⟨es, hes⟩ := hinv.queue
  have horder := order_of_run hes s
  have horder' := order_of_step hs horder
  obtain ⟨l, hpushed, hunpushed⟩ := pushed_of_step hs s
  obtain ⟨m, hpopped, hcarried⟩ := popped_of_step hs s
  have hnone : unpushed s o = [] := by
    by_cases ht : t = .socket
    · subst t
      have hunput : (opAt st.responseQueue (current st .socket)).elim [] (unpushed s) = [] := h.unput
      rw [hcur, hbefore] at hunput
      exact hunput
    · exact unpushed_of_fits hfits ht s
  rw [hnone] at hunpushed
  obtain ⟨rfl, hnone'⟩ := List.append_eq_nil_iff.1 hunpushed.symm
  rw [hpushed, hpopped, horder, h.empty, List.append_nil, List.append_nil, List.append_assoc,
    List.self_eq_append_right, List.append_eq_nil_iff] at horder'
  obtain ⟨rfl, hempty⟩ := horder'
  refine ⟨hempty, ?_, ?_⟩
  · change (opAt q (current st .socket)).elim [] (unpushed s) = []
    by_cases ht : t = .socket
    · subst t
      rw [hcur, hafter]
      exact hnone'
    · rw [hinv.owned.opAt_advance ho hops (Ne.symm ht)]
      exact h.unput
  · intro c hc hsub
    obtain ⟨j, hj⟩ := List.mem_iff_getElem?.1 hc
    have hhand := h.hands c hc hsub
    by_cases ht : t = .consumer j
    · subst t
      have hpc : c.pc = .getting op :=
        getting_of_consumerOp ((current_consumer hj).symm.trans hcur)
      rw [hpc, inHand_getting hbefore] at hhand
      rw [List.append_nil] at hcarried
      rw [hpc, inHand_getting hafter, hcarried, hhand]
    · refine (inHand_eq ?_).trans hhand
      rw [← current_consumer hj]
      exact hinv.owned.opAt_advance ho hops (Ne.symm ht)

theorem Ended.set (h : Ended consumers s) {j : ℕ} {c : Consumer} {pc : ConsumerPc}
    (here : consumers[j]? = some c) (hpc : c.pc ≠ .ended) :
    Ended (consumers.set j { c with pc }) s := by
  intro d hd hs
  rcases List.mem_or_eq_of_mem_set hd with hd | rfl
  · exact h d hd hs
  · exact absurd (h c (List.mem_of_getElem? here) hs) hpc

end Quietness

section Runs

/-- Without an observer, no message of `s` reaches a consumer. -/
def Settled (st : State) (s : ℤ) : Prop :=
  Ended st.consumers s ∨ Quiet st.responseQueue st.socket st.consumers s

structure Attended (st : State) : Prop where
  starting : ∀ c ∈ st.calls, ∀ s, starts c.pc = some s → st.wsSubscribers s ≠ none
  forgotten : ∀ s, st.wsSubscribers s = none → Settled st s

theorem Attended.keep (h : Attended st) (hcalls : next.calls = st.calls)
    (hsub : next.wsSubscribers = st.wsSubscribers)
    (hsettled : ∀ s, st.wsSubscribers s = none → Settled st s → Settled next s) :
    Attended next := by
  constructor
  · rw [hcalls, hsub]
    exact h.starting
  · intro s hs
    rw [hsub] at hs
    exact hsettled s hs (h.forgotten s hs)

theorem Attended.set (h : Attended st) {i : ℕ} {c : Call} {pc : CallPc} (hpc : starts pc = none)
    (hcalls : next.calls = st.calls.set i { c with pc })
    (hsub : next.wsSubscribers = st.wsSubscribers)
    (hsettled : ∀ s, st.wsSubscribers s = none → Settled st s → Settled next s) :
    Attended next := by
  constructor
  · intro d hd s hs
    rw [hcalls] at hd
    rw [hsub]
    rcases List.mem_or_eq_of_mem_set hd with hd | rfl
    · exact h.starting d hd s hs
    · rw [show starts pc = some s from hs] at hpc
      cases hpc
  · intro s hs
    rw [hsub] at hs
    exact hsettled s hs (h.forgotten s hs)

theorem Attended.observe (h : Attended st) (i : ℕ) (c : Call) (id s' : ℤ) (observer : ℕ) :
    Attended ((st.setSubscriber s' (some observer)).setPc i c (.observing id s')) := by
  have hnew : Function.update st.wsSubscribers s' (some observer) s' ≠ none := by
    rw [Function.update_self]
    exact Option.some_ne_none observer
  constructor
  · intro d hd s hs
    change Function.update st.wsSubscribers s' (some observer) s ≠ none
    by_cases heq : s = s'
    · subst heq
      exact hnew
    · rw [Function.update_of_ne heq]
      rcases List.mem_or_eq_of_mem_set hd with hd | rfl
      · exact h.starting d hd s hs
      · exact absurd (Option.some.inj hs).symm heq
  · intro s hs
    change Function.update st.wsSubscribers s' (some observer) s = none at hs
    by_cases heq : s = s'
    · subst heq
      exact absurd hs hnew
    · rw [Function.update_of_ne heq] at hs
      exact h.forgotten s hs

theorem Attended.forget (h : Attended st) (i : ℕ) (c : Call) (id : ℤ) {s' : ℤ}
    (hquiet : Quiet st.responseQueue st.socket st.consumers s')
    (hstart : ∀ d ∈ st.calls, starts d.pc ≠ some s') :
    Attended ((st.setSubscriber s' none).setPc i c (.released id)) := by
  constructor
  · intro d hd s hs
    change Function.update st.wsSubscribers s' none s ≠ none
    rcases List.mem_or_eq_of_mem_set hd with hd | rfl
    · have hne : s ≠ s' := by
        rintro rfl
        exact hstart d hd hs
      rw [Function.update_of_ne hne]
      exact h.starting d hd s hs
    · cases hs
  · intro s hs
    change Function.update st.wsSubscribers s' none s = none at hs
    by_cases heq : s = s'
    · subst heq
      exact Or.inr hquiet
    · rw [Function.update_of_ne heq] at hs
      exact h.forgotten s hs

theorem Settled.addConsumer {s s' : ℤ} (h : Settled st s) (hne : s' ≠ s) (i : ℕ) :
    Settled (st.addConsumer s' i) s := by
  have hnew : ∀ d ∈ st.consumers ++ [⟨s', i, .start⟩], d.subscriptionId = s → d ∈ st.consumers := by
    intro d hd hsub
    rcases List.mem_append.1 hd with hd | hd
    · exact hd
    · rw [List.mem_singleton.1 hd] at hsub
      exact absurd hsub hne
  rcases h with hended | hquiet
  · exact Or.inl fun d hd hsub => hended d (hnew d hd hsub) hsub
  · exact Or.inr ⟨hquiet.empty, hquiet.unput, fun d hd hsub => hquiet.hands d (hnew d hd hsub) hsub⟩

theorem Attended.call (h : Attended st) (hinv : Invariant st) {i : ℕ} {c : Call}
    (here : st.calls[i]? = some c)
    (hforget : ∀ s ∈ forgets c, Quiet st.responseQueue st.socket st.consumers s ∧
      ∀ d ∈ st.calls, starts d.pc ≠ some s)
    (hm : CallMove jsonrpcVersion st i c next) : Attended next := by
  cases hm with
  | observe => exact h.observe i c _ _ _
  | @forget id s' result method pc task =>
    have hmine : forgets c = some s' := by
      rw [forgets, pc, task]
    obtain ⟨hquiet, hstart⟩ := hforget s' hmine
    exact h.forget i c id hquiet hstart
  | @start id s' pc =>
    refine h.set rfl rfl rfl ?_
    intro s hs hsettled
    have hne : s' ≠ s := by
      rintro rfl
      exact h.starting c (List.mem_of_getElem? here) s' (by rw [pc]; rfl) hs
    exact hsettled.addConsumer hne i
  | close pc task =>
    refine h.set rfl rfl rfl ?_
    intro s _ hsettled
    exact hsettled.imp id fun hquiet => hquiet.begin hinv.owned _ _
  | advance pc hq =>
    refine h.keep rfl rfl ?_
    intro s _ hsettled
    exact hsettled.imp id fun hquiet => hquiet.advance hinv hq
  | decline => exact h.set rfl rfl rfl fun _ _ hsettled => hsettled
  | register => exact h.set rfl rfl rfl fun _ _ hsettled => hsettled
  | send => exact h.set rfl rfl rfl fun _ _ hsettled => hsettled
  | refuse => exact h.set rfl rfl rfl fun _ _ hsettled => hsettled
  | move => exact h.set rfl rfl rfl fun _ _ hsettled => hsettled
  | erase => exact h.set rfl rfl rfl fun _ _ hsettled => hsettled
  | closed => exact h.set rfl rfl rfl fun _ _ hsettled => hsettled

theorem Attended.socket (h : Attended st) (hinv : Invariant st)
    (henqueue : ∀ json op, st.socket = .testing json → next.socket = .putting op →
      st.wsSubscribers (subscriptionId json) ≠ none ∨ Ended st.consumers (subscriptionId json))
    (hm : SocketMove st next) : Attended next := by
  have idle : ∀ (u : State) (pc : SocketPc), u.calls = st.calls →
      u.wsSubscribers = st.wsSubscribers → u.consumers = st.consumers →
      u.responseQueue = st.responseQueue → socketOp pc = none → Attended (u.setSocket pc) := by
    intro u pc hcalls hsub hcons hqueue hpc
    refine h.keep hcalls hsub ?_
    intro s _ hsettled
    unfold Settled
    change Ended u.consumers s ∨ Quiet u.responseQueue pc u.consumers s
    rw [hcons, hqueue]
    exact hsettled.imp id fun hquiet => hquiet.setSocket (inSocket_of_idle hpc _ s)
  cases hm with
  | @enqueue json pc hne =>
    refine h.keep rfl rfl ?_
    intro s hs hsettled
    by_cases heq : subscriptionId json = s
    · subst heq
      rcases henqueue json _ pc rfl with hobserver | hended
      · exact absurd hs hobserver
      · exact Or.inl hended
    · refine hsettled.imp id fun hquiet => ?_
      refine (hquiet.begin hinv.owned .socket (.put (subscriptionId json) json)).setSocket ?_
      refine (congrArg (Option.elim · [] (unpushed s))
        (opAt_begin_self st.responseQueue .socket _)).trans ?_
      exact if_neg heq
  | advance pc hq =>
    refine h.keep rfl rfl ?_
    intro s _ hsettled
    exact hsettled.imp id fun hquiet => hquiet.advance hinv hq
  | @notify i pc =>
    unfold notifyAll
    split
    · refine h.set rfl rfl rfl ?_
      intro s _ hsettled
      exact hsettled.imp id fun hquiet => hquiet.setSocket (inSocket_of_idle rfl _ s)
    · exact idle st .idle rfl rfl rfl rfl rfl
  | respond => exact idle st _ rfl rfl rfl rfl rfl
  | skip => exact idle st _ rfl rfl rfl rfl rfl
  | returned => exact idle st _ rfl rfl rfl rfl rfl
  | store => exact idle _ _ rfl rfl rfl rfl rfl
  | look => exact idle _ _ rfl rfl rfl rfl rfl

theorem Attended.consumer (h : Attended st) (hinv : Invariant st) {j : ℕ} {c : Consumer}
    (here : st.consumers[j]? = some c) (hm : ConsumerMove st j c next) : Attended next := by
  cases hm with
  | begin pc =>
    refine h.keep rfl rfl ?_
    intro s _ hsettled
    refine hsettled.imp (fun hended => hended.set here (by rw [pc]; simp)) fun hquiet => ?_
    refine (hquiet.begin hinv.owned (.consumer j) (.get c.subscriptionId)).set ?_
    intro _
    exact congrArg (Option.elim · [] (carried s)) (opAt_begin_self st.responseQueue _ _)
  | @taken op who k json pc done =>
    refine h.keep rfl rfl ?_
    intro s _ hsettled
    refine hsettled.imp (fun hended => hended.set here (by rw [pc]; simp)) fun hquiet => ?_
    refine hquiet.set ?_
    intro hsub
    have hhand := hquiet.hands c (List.mem_of_getElem? here) hsub
    obtain ⟨o, ho⟩ := hinv.owned.held (.consumer j) op (by rw [current_consumer here, pc]; rfl)
    cases done.symm.trans ho
    obtain ⟨d, hd, hk⟩ := hinv.owned.fits op _ _ done
    cases here.symm.trans hd
    rw [pc] at hhand
    simp [inHand, opAt, consumerOp, done, carried, ← hk, hsub] at hhand
  | ended pc done =>
    refine h.keep rfl rfl ?_
    intro s _ hsettled
    refine hsettled.imp (fun hended => hended.set here (by rw [pc]; simp)) fun hquiet => ?_
    exact hquiet.set fun _ => rfl
  | hand pc present =>
    refine h.keep rfl rfl ?_
    intro s _ hsettled
    refine hsettled.imp (fun hended => hended.set here (by rw [pc]; simp)) fun hquiet => ?_
    exact hquiet.set fun _ => rfl
  | advance pc hq =>
    refine h.keep rfl rfl ?_
    intro s _ hsettled
    exact hsettled.imp id fun hquiet => hquiet.advance hinv hq

theorem Attended.step {e : Event} (h : Attended st) (hinv : Invariant st) (he : Considerate st e)
    (hst : step jsonrpcVersion st e = some next) : Attended next := by
  cases e with
  | begin task =>
    cases hst
    refine ⟨?_, h.forgotten⟩
    intro c hc s hs
    rcases List.mem_append.1 hc with hc | hc
    · exact h.starting c hc s hs
    · rw [List.mem_singleton.1 hc] at hs
      cases hs
  | link up =>
    cases hst
    exact ⟨h.starting, h.forgotten⟩
  | call i =>
    obtain ⟨c, hc, hst⟩ := Option.bind_eq_some_iff.1 hst
    exact h.call hinv hc (he c hc) (callStep_move hst)
  | wake i why =>
    obtain ⟨c, hc, hst⟩ := Option.bind_eq_some_iff.1 hst
    obtain ⟨id, notified, pc, rfl⟩ := wakeStep_eq_some hst
    exact h.set rfl rfl rfl fun _ _ hsettled => hsettled
  | receive json =>
    obtain ⟨_, rfl⟩ := receive_eq_some hst
    refine h.keep rfl rfl ?_
    intro s _ hsettled
    refine hsettled.imp id fun hquiet => hquiet.setSocket (inSocket_of_idle ?_ _ s)
    split_ifs <;> rfl
  | socket =>
    refine h.socket hinv ?_ (socketStep_move hst)
    intro json op pc hnext
    exact he _ (enqueues_of_step hst pc hnext)
  | consumer j =>
    obtain ⟨c, hc, hst⟩ := Option.bind_eq_some_iff.1 hst
    exact h.consumer hinv hc (consumerStep_move hst)

theorem Attended.init : Attended State.init := by
  constructor
  · rintro c ⟨⟩
  · intro s _
    left
    rintro c ⟨⟩

theorem Attended.findsObserver (h : Attended st) : FindsObserver st := by
  intro c hc json hpc hnone
  rcases h.forgotten _ hnone with hended | hquiet
  · rw [hended c hc rfl] at hpc
    cases hpc
  · have hhand := hquiet.hands c hc rfl
    rw [hpc] at hhand
    cases hhand

/-- As long as no observer is erased while something is on its way to it, every
consumer that has taken a message finds the observer for it. -/
theorem consumers_find_observer {es : List Event}
    (hconsiderate : Along (step jsonrpcVersion) Considerate State.init es)
    (hrun : run (step jsonrpcVersion) State.init es = some st) : FindsObserver st := by
  have hboth : Invariant st ∧ Attended st := by
    apply run_invariant (I := fun st => Invariant st ∧ Attended st) ?_ ⟨.init, .init⟩
      hconsiderate hrun
    rintro s e t ⟨hinv, hs⟩ he hst
    exact ⟨hinv.step hst, hs.step hinv he hst⟩
  exact hboth.2.findsObserver

/-- The `i`th call subscribes under 5, a notification arrives, and the `j`th consumer
takes it out of the queue. -/
def taken (i j observer : ℕ) : List Event :=
  List.flatten
    [[.begin (.subscribeWs .null observer), .call i, .call i,
        .receive (message (i + 1) (.number 5))],
      List.replicate 4 .socket, [.wake i .notified], List.replicate 4 (.call i),
      [.receive (notification 5 (.number 70))], List.replicate 8 .socket,
      List.replicate 7 (.consumer j)]

def forgotten (i : ℕ) : List Event :=
  List.flatten
    [[.begin (.unsubscribeWs 5 (lit "unsubscribe")), .call i, .call i,
        .receive (message (i + 1) (.number 1))],
      List.replicate 4 .socket, [.wake i .notified], List.replicate 3 (.call i)]

/-- The first consumer waits again when the observer is erased, and it ends before
another call is given the same subscription. -/
def oneAfterTheOther : List Event :=
  List.flatten
    [[.link true], taken 0 0 9, List.replicate 4 (.consumer 0), forgotten 1,
      List.replicate 3 (.call 1), List.replicate 3 (.consumer 0), List.replicate 4 (.call 1),
      taken 2 1 10]

theorem consumers_find_observer_oneAfterTheOther :
    (finalState (step (lit "2.0")) State.init oneAfterTheOther).consumers =
        [⟨5, 0, .ended⟩, ⟨5, 2, .dispatching (notification 5 (.number 70))⟩] ∧
      FindsObserver (finalState (step (lit "2.0")) State.init oneAfterTheOther) := by
  have hrun := run_finalState (step (lit "2.0")) State.init oneAfterTheOther (by decide +kernel)
  exact ⟨by decide +kernel, consumers_find_observer (by decide +kernel) hrun⟩

def takenAndForgotten : List Event := List.flatten [[.link true], taken 0 0 9, forgotten 1]

theorem consumers_find_observer_fails :
    ¬ ∀ (es : List Event) (st : State), run (step (lit "2.0")) State.init es = some st →
      FindsObserver st := by
  intro hall
  have hrun := run_finalState (step (lit "2.0")) State.init takenAndForgotten (by decide +kernel)
  have hconsumers : (finalState (step (lit "2.0")) State.init takenAndForgotten).consumers =
      [⟨5, 0, .dispatching (notification 5 (.number 70))⟩] := by
    decide +kernel
  have hfinds := hall takenAndForgotten _ hrun ⟨5, 0, .dispatching (notification 5 (.number 70))⟩
    (by rw [hconsumers]; exact List.mem_singleton_self _) _ rfl
  exact hfinds (Option.isNone_iff_eq_none.1 (by decide +kernel))

end Runs

end PolkadotApi.ObserverLifetimes
